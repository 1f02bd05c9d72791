import Leveling.Proofs.Bounds.Drafts
import Mathlib.Data.List.Permutation
import Mathlib.Tactic.IntervalCases

/-!
# Lazy tightening, drained in the end

While arcs are inserted one after the other, the passes of tightening may defer jobs as they
like: each pass has its own range, may leave the deferred jobs alone, take up those that its
range touches or all of them, and more passes without seeds may come in between.  Each stale
arc starts at a deferred job all the time, whatever was deferred and when, and no height is
ever more than some chain of arcs demands.  So after one more pass on each side that takes up
all deferred jobs, the bounds are exact.

The only thing that can go wrong is the arithmetic of the late side.  The latest finish that an
arc leaves to its source may lie beyond the greatest time if the source lasts longer than the
lag, and then the pass overflows, although no chain of arcs demands too much.
-/

namespace Leveling

open Checked Network

variable {α : Type} {F : Frame} {p : Problem α} {draft : Draft}

namespace Draft

/-- What is done to a draft: an arc is inserted and the bounds are tightened from its ends, or the
bounds of one side are tightened from deferred jobs alone. -/
inductive Action where
  | insert (source target : Nat) (lag : Int) (permanent : Bool) (ahead back : Drain × Span)
  | pass (side : Side) (drain : Drain) (range : Span)

/-- The edge that an action adds. -/
def Action.edge? : Action → Option Edge
  | .insert source target lag permanent _ _ => some ⟨source, target, lag, permanent⟩
  | .pass _ _ _ => none

/-- The edges that a list of actions adds. -/
def added (actions : List Action) : Multiset Edge := (actions.filterMap Action.edge? : List Edge)

/-- Performs an action. -/
def perform (draft : Draft) : Action → Checked Draft
  | .insert source target lag permanent ahead back =>
    draft.insert source target lag permanent ahead back
  | .pass side drain range => draft.pass side drain range

/-- An inserted arc joins two jobs with a lag that is not negative, and afterwards the arcs fit the
instance. -/
def Allows (p : Problem α) (draft : Draft) : Action → Prop
  | .insert source target lag _ _ _ => source < p.jobs.size ∧ target < p.jobs.size ∧ 0 ≤ lag ∧
      p.Fitting (withArc draft.network.HasArc source target lag)
  | .pass _ _ _ => True

/-- The latest finish that an inserted arc leaves to its source is a time. -/
def Representable (p : Problem α) (draft : Draft) : Action → Prop
  | .insert source target lag _ _ _ => valueAt draft.bounds.late.value target -
      p.durationOf target - lag + p.durationOf source ≤ greatestTime
  | .pass _ _ _ => True

/-- Performs a list of actions, and takes up all deferred jobs in the end. -/
def finish (draft : Draft) (actions : List Action) (ahead back : Span) : Checked Draft := do
  let draft ← actions.foldlM perform draft
  let draft ← draft.pass .early .everything ahead
  draft.pass .late .everything back

/-- Nothing is hidden. -/
def unveiled (_ : Side) (_ : Nat) (_ : Int) : Prop := True

/-- An action that is allowed is performed if it is representable, and overflows otherwise. -/
lemma Kept.perform {built : p.Built} {timely : p.Timely}
    (h : Kept p (built.frame timely) unveiled draft) {action : Action}
    (allowed : draft.Allows p action) :
    (draft.Representable p action → (draft.perform action).Answers fun draft' =>
      draft'.network.edges = added [action] + draft.network.edges ∧
        Kept p (built.frame timely) unveiled draft') ∧
    (¬draft.Representable p action → draft.perform action = .error .overflow) := by
  cases action with
  | insert s t lag permanent ahead back =>
    obtain ⟨hs, ht, nonneg, fitting⟩ := allowed
    rw [← built.size_frame timely] at hs ht
    have roomy : ∀ net', draft.network.Inserted s t lag permanent net' →
        Roomy (built.frame timely) net' := h.roomy_insert nonneg fitting
    have demanded : (built.frame timely).boundOf .late s
        ((built.frame timely).heights .late draft.bounds.late.value t + lag) =
          valueAt draft.bounds.late.value t - p.durationOf t - lag + p.durationOf s := by
      have durations : ∀ v, valueAt (built.frame timely).durations v = p.durationOf v := fun _ => rfl
      dsimp only [Frame.boundOf, Frame.heights, Frame.height]
      rw [durations, durations]
      omega
    constructor
    · intro representable
      exact h.insert hs ht roomy (demanded ▸ representable)
        (fun net' _ => veil_all _ net' .early _) (fun net' _ => veil_all _ net' .late _)
        (fun _ _ _ _ => trivial) fun _ _ _ _ => trivial
    · intro exceeds
      exact h.insert_overflow hs ht roomy (demanded ▸ not_le.1 exceeds)
  | pass side drain range =>
    refine ⟨fun _ => ?_, fun impossible => absurd trivial impossible⟩
    refine (h.pass (veil_all _ _ side range) fun _ _ _ _ => trivial).imp ?_
    rintro draft' ⟨network, -, kept⟩
    have same : Function.update unveiled side (fun _ _ => True) = unveiled :=
      Function.update_eq_self side unveiled
    rw [same] at kept
    refine ⟨?_, kept⟩
    rw [network]
    exact (Multiset.zero_add _).symm

/-- All actions of an allowed list are performed if they are representable, and otherwise one of them
overflows. -/
lemma Kept.performAll {built : p.Built} {timely : p.Timely} {actions : List Action} :
    ∀ {draft : Draft}, Kept p (built.frame timely) unveiled draft →
      Along Draft.perform (Allows p) draft actions →
        (Along Draft.perform (Representable p) draft actions →
          (actions.foldlM Draft.perform draft).Answers fun draft' =>
            draft'.network.edges = added actions + draft.network.edges ∧
              Kept p (built.frame timely) unveiled draft') ∧
        (¬Along Draft.perform (Representable p) draft actions →
          actions.foldlM Draft.perform draft = .error .overflow) := by
  induction actions with
  | nil =>
    intro draft h _
    refine ⟨fun _ => .pure ⟨?_, h⟩, fun impossible => absurd trivial impossible⟩
    exact (Multiset.zero_add _).symm
  | cons action rest ih =>
    intro draft h allowed
    obtain ⟨performs, overflows⟩ := h.perform allowed.1
    rw [List.foldlM_cons]
    by_cases first : draft.Representable p action
    · obtain ⟨draft', performed, edges, h'⟩ := performs first
      obtain ⟨answers, fails⟩ := ih h' (allowed.2 draft' performed)
      rw [performed, ok_bind]
      constructor
      · intro representable
        refine (answers (representable.2 draft' performed)).imp ?_
        rintro draft'' ⟨edges', h''⟩
        refine ⟨?_, h''⟩
        have split : added (action :: rest) = added [action] + added rest := by
          cases action <;> rfl
        rw [edges', edges, split, ← Multiset.add_assoc, Multiset.add_comm (added rest)]
      · refine fun fault => fails fun others => fault ⟨first, fun draft'' performed' => ?_⟩
        rw [performed] at performed'
        cases performed'
        exact others
    · refine ⟨fun representable => absurd representable.1 first, fun _ => ?_⟩
      rw [overflows first, error_bind]

/-- After all deferred jobs were taken up on both sides, the bounds are exact. -/
lemma Kept.flush {built : p.Built} {timely : p.Timely}
    (h : Kept p (built.frame timely) unveiled draft) (ahead back : Span) :
    (do (← draft.pass .early .everything ahead).pass .late .everything back : Checked Draft).Answers
      fun draft' => draft'.network = draft.network ∧ draft'.bounds.early.deferred = [] ∧
        draft'.bounds.late.deferred = [] ∧ p.ExactBounds draft.network.HasArc draft'.bounds := by
  refine (h.pass (veil_all _ _ .early ahead) fun _ _ _ _ => trivial).bind ?_
  rintro draft₁ ⟨network₁, ⟨early, bounds₁, drained⟩, h₁⟩
  refine (h₁.pass (veil_all _ _ .late back) fun _ _ _ _ => trivial).imp ?_
  rintro draft₂ ⟨network₂, ⟨late, bounds₂, drained'⟩, h₂⟩
  have nothing : ∀ side, (draft₂.bounds.table side).deferred = [] := by
    intro side
    rw [bounds₂, bounds₁]
    cases side with
    | early => exact drained rfl
    | late => exact drained' rfl
  have roomy := h₂.consistent.roomy
  have exact_bounds := built.exactBounds timely roomy.linked
    (roomy.size.trans (built.size_frame timely)) roomy.acyclic h₂.consistent.settled nothing
  rw [network₂, network₁] at exact_bounds
  exact ⟨network₂.trans network₁, nothing .early, nothing .late, exact_bounds⟩

/-- **Lazy tightening, drained in the end, is exact.**  Take any accepted instance, and any list of
insertions that keep the arcs fitting, with any passes in between.  If each inserted arc leaves a
time to its source, the actions and the final passes answer, nothing is deferred any more, and the
bounds are exact; they are the same for all lists that insert the same arcs.  Otherwise one of the
insertions overflows. -/
theorem finish_exact [Scalar α] {jobs : Array (Job α)} {resources : List (Resource α)}
    {given : List Precedence} (accepted : (Problem.build jobs resources given).Accepts p)
    (timely : p.Timely) :
    (Draft.start p).Answers fun draft => ∀ actions, Along perform (Allows p) draft actions →
      (Along perform (Representable p) draft actions → ∀ ahead back,
        (draft.finish actions ahead back).Answers fun final =>
          final.bounds.early.deferred = [] ∧ final.bounds.late.deferred = [] ∧
          p.ExactBounds final.network.HasArc final.bounds ∧
          ∀ actions', Along perform (Allows p) draft actions' →
            Along perform (Representable p) draft actions' → added actions' = added actions →
              ∀ ahead' back', (draft.finish actions' ahead' back').Answers fun final' =>
                final'.bounds.early.value = final.bounds.early.value ∧
                  final'.bounds.late.value = final.bounds.late.value) ∧
      (¬Along perform (Representable p) draft actions →
        actions.foldlM perform draft = .error .overflow) := by
  have built := Problem.built_of_build accepted
  have finishes : ∀ {draft : Draft}, Kept p (built.frame timely) unveiled draft →
      ∀ {actions}, Along perform (Allows p) draft actions →
        Along perform (Representable p) draft actions → ∀ ahead back,
          (draft.finish actions ahead back).Answers fun final =>
            final.network.edges = added actions + draft.network.edges ∧
              final.bounds.early.deferred = [] ∧ final.bounds.late.deferred = [] ∧
                p.ExactBounds final.network.HasArc final.bounds := by
    intro draft kept actions allowed representable ahead back
    unfold finish
    refine ((kept.performAll allowed).1 representable).bind ?_
    rintro draft' ⟨edges, kept'⟩
    refine (kept'.flush ahead back).imp ?_
    rintro final ⟨network, early, late, exact_bounds⟩
    rw [network]
    exact ⟨edges, early, late, exact_bounds⟩
  unfold Draft.start
  refine (built.base timely).bind fun net ⟨_, base⟩ => .pure fun actions allowed => ?_
  have kept := kept_start base unveiled
  refine ⟨fun representable ahead back => ?_, (kept.performAll allowed).2⟩
  refine (finishes kept allowed representable ahead back).imp ?_
  rintro final ⟨edges, early, late, exact_bounds⟩
  refine ⟨early, late, exact_bounds, fun actions' allowed' representable' same ahead' back' => ?_⟩
  refine (finishes kept allowed' representable' ahead' back').imp ?_
  rintro final' ⟨edges', -, -, exact_bounds'⟩
  have arcs : final'.network.HasArc = final.network.HasArc := by
    unfold HasArc
    rw [edges', edges, same]
  rw [arcs] at exact_bounds'
  exact exact_bounds'.unique exact_bounds

/-- The second job of the chain lies beyond the range when an arc from the first one is inserted, so it is
deferred, and the third job has to wait for the final passes. -/
theorem finish_exact_chain : (Problem.build chain.jobs [] [⟨1, 2, 2⟩]).Accepts chain ∧
    chain.Timely ∧ (Draft.start chain).Answers fun draft =>
      Along perform (Allows chain) draft
        [.insert 0 1 12 false (.nothing, ⟨0, 5⟩) (.nothing, ⟨0, 5⟩), .pass .early .touching ⟨0, 5⟩] ∧
      Along perform (Representable chain) draft
        [.insert 0 1 12 false (.nothing, ⟨0, 5⟩) (.nothing, ⟨0, 5⟩), .pass .early .touching ⟨0, 5⟩] ∧
      (draft.finish [.insert 0 1 12 false (.nothing, ⟨0, 5⟩) (.nothing, ⟨0, 5⟩),
        .pass .early .touching ⟨0, 5⟩] ⟨0, 5⟩ ⟨0, 5⟩).Answers fun final =>
          final.bounds.early.deferred = [] ∧ chain.ExactBounds final.network.HasArc final.bounds := by
  obtain ⟨draft, started, exact_bounds⟩ := finish_exact chain_accepted chain_timely
  obtain ⟨arcs, late⟩ := start_chain started
  have allowed : Along perform (Allows chain) draft
      [.insert 0 1 12 false (.nothing, ⟨0, 5⟩) (.nothing, ⟨0, 5⟩), .pass .early .touching ⟨0, 5⟩] :=
    ⟨⟨by decide, by decide, by decide, chain_fitting arcs⟩, fun _ _ => ⟨trivial, fun _ _ => trivial⟩⟩
  have representable : Along perform (Representable chain) draft
      [.insert 0 1 12 false (.nothing, ⟨0, 5⟩) (.nothing, ⟨0, 5⟩), .pass .early .touching ⟨0, 5⟩] := by
    refine ⟨?_, fun _ _ => ⟨trivial, fun _ _ => trivial⟩⟩
    unfold Representable
    rw [late]
    decide_cbv
  refine ⟨chain_accepted, chain_timely, draft, started, allowed, representable, ?_⟩
  refine ((exact_bounds _ allowed).1 representable ⟨0, 5⟩ ⟨0, 5⟩).imp ?_
  rintro final ⟨early, -, bounds, -⟩
  exact ⟨early, bounds⟩

/-- A job that takes up all times and one that takes none. -/
def wide : Problem Float where
  jobs := #[⟨9223372036854775807, 0, 9223372036854775807, []⟩, ⟨0, 0, 9223372036854775807, []⟩]
  resources := []
  precedences := []
  order := [0, 1]
  earliestStart := #[0, 0]
  latestFinish := #[9223372036854775807, 9223372036854775807]

/-- An arc without lag from the long job to the short one fits the instance, but its insertion
overflows. -/
theorem finish_overflow_wide : (Problem.build wide.jobs [] []).Accepts wide ∧ wide.Timely ∧
    (Draft.start wide).Answers fun draft =>
      Along perform (Allows wide) draft
        [.insert 0 1 0 false (.nothing, ⟨0, 5⟩) (.nothing, ⟨0, 5⟩)] ∧
      ∀ ahead back, draft.finish [.insert 0 1 0 false (.nothing, ⟨0, 5⟩) (.nothing, ⟨0, 5⟩)]
        ahead back = .error .overflow := by
  have timely : wide.Timely := by
    intro job member
    simp only [wide, List.mem_cons, List.not_mem_nil, or_false] at member
    rcases member with rfl | rfl <;> decide
  refine ⟨by cbv, timely, ⟨Network.empty 2, Bounds.ofProblem wide⟩, rfl, ?_, fun ahead back => ?_⟩
  · have all : ∀ {u w lag}, withArc (Network.empty 2).HasArc 0 1 0 u w lag ↔
        u = 0 ∧ w = 1 ∧ lag = 0 := or_iff_right (not_hasArc_empty 2)
    refine ⟨⟨by decide, by decide, by decide, ?_⟩, fun _ _ => trivial⟩
    refine .of_solves (x := fun _ => 0) (acyclic_of_lt id fun arc => ?_) (fun arc => ?_)
      (fun v hv => ?_) (fun v hv => ?_)
    · obtain ⟨rfl, rfl, -⟩ := all.1 arc
      decide
    · obtain ⟨rfl, -⟩ := all.1 arc
      decide
    · have hv : v < 2 := hv
      simp only [all]
      interval_cases v
      · refine ⟨.inl (by decide_cbv), ?_⟩
        rintro y (rfl | ⟨u, lag, ⟨-, impossible, -⟩, -⟩)
        · decide_cbv
        · cases impossible
      · refine ⟨.inr ⟨0, 0, ⟨rfl, rfl, rfl⟩, rfl⟩, ?_⟩
        rintro y (rfl | ⟨u, lag, ⟨-, -, rfl⟩, rfl⟩)
        · decide_cbv
        · decide
    · have hv : v < 2 := hv
      interval_cases v <;> decide_cbv
  · have overflow : [Action.insert 0 1 0 false (.nothing, ⟨0, 5⟩) (.nothing, ⟨0, 5⟩)].foldlM perform
        ⟨Network.empty 2, Bounds.ofProblem wide⟩ = .error .overflow := by cbv
    unfold finish
    rw [overflow, error_bind]

end Draft

end Leveling
