import Leveling.Proofs.Bounds.Drafts

/-!
# Lazy tightening is exact inside the range

A search looks at the bounds inside a range of times only.  While it inserts arcs, moves the
range, takes up deferred jobs, deletes arcs and goes back to the base, the earliest starts
before the end of the range and the latest finishes behind its beginning are exact all the time.

The reason is the veil of the heights beyond the range.  A stale arc starts at a deferred job,
and both of its ends lie beyond the range.  No lag is shorter than the duration of its source,
so no bound comes back into the range along an arc, and a chain of arcs that ends inside the
range has no stale arc at all.
-/

namespace Leveling

open Checked Network

variable {α : Type} {F : Frame} {p : Problem α} {base : Network}

/-- A draft with the range at which a search looks. -/
structure Session where
  draft : Draft
  range : Span

namespace Session

/-- What a search does to the bounds. -/
inductive Action where
  /-- Inserts an arc and tightens the bounds from its ends; a pass that is complete takes up all
  deferred jobs and defers none. -/
  | insert (source target : Nat) (lag : Int) (permanent : Bool) (complete : Side → Bool)
  /-- Moves the range and takes up the deferred jobs that it touches, or all of them if a pass is
  complete, on the one side first. -/
  | move (range : Span) (first : Side) (complete : Side → Bool)
  /-- Takes up all deferred jobs of a side. -/
  | drain (side : Side)
  /-- Deletes arcs and relaxes the bounds at their ends. -/
  | delete (refs : List ArcRef)
  /-- Goes back to the arcs of the instance and to the base bounds. -/
  | reset

/-- What a pass takes up that takes up `otherwise` unless it is complete. -/
def takenUp (complete : Bool) (otherwise : Drain) : Drain :=
  if complete then .everything else otherwise

/-- Performs an action; `base` is the network of the instance. -/
def perform (base : Network) (s : Session) : Action → Checked Session
  | .insert source target lag permanent complete => do
    let draft ← s.draft.insert source target lag permanent
      (takenUp (complete .early) .nothing, s.range) (takenUp (complete .late) .nothing, s.range)
    return { s with draft }
  | .move range first complete => do
    let draft ← s.draft.pass first (takenUp (complete first) .touching) range
    let draft ← draft.pass first.opposite (takenUp (complete first.opposite) .touching) range
    return { draft, range }
  | .drain side => do
    let draft ← s.draft.pass side .everything s.range
    return { s with draft }
  | .delete refs => do
    let draft ← s.draft.delete refs
    return { s with draft }
  | .reset => .ok { s with draft := s.draft.reset base }

/-- An inserted arc joins two jobs with a lag that is no shorter than the duration of its source, and
afterwards the arcs fit the instance.  Arcs are deleted when nothing is deferred, and only those
that do not belong to the instance. -/
def Allows (p : Problem α) (s : Session) : Action → Prop
  | .insert source target lag _ _ => source < p.jobs.size ∧ target < p.jobs.size ∧
      p.durationOf source ≤ lag ∧ p.Fitting (withArc s.draft.network.HasArc source target lag)
  | .delete refs => s.draft.bounds.hasDeferred = false ∧
      ∀ ref ∈ refs, s.draft.network.Deletable ref
  | .move _ _ _ | .drain _ | .reset => True

/-- The session that starts with the base bounds. -/
def start (p : Problem α) (range : Span) : Checked Session := do
  return ⟨← Draft.start p, range⟩

/-- The bounds beyond the range are veiled. -/
def veil (F : Frame) (range : Span) (side : Side) : Nat → Int → Prop := Beyond F side range

/-- A session whose draft is consistent behind the veil of its range. -/
structure Kept (p : Problem α) (F : Frame) (s : Session) : Prop where
  draft : s.draft.Kept p F (veil F s.range)
  lags : ∀ {u w lag}, s.draft.network.HasArc u w lag → valueAt F.durations u ≤ lag

/-- The heights beyond a range veil the arcs of a network without short lags. -/
lemma veil_of_lags {net : Network} (range : Span) (side : Side) (roomy : Roomy F net)
    (lags : ∀ {u w lag}, net.HasArc u w lag → valueAt F.durations u ≤ lag) :
    Veil F net side range (veil F range side) := veil_beyond range roomy.nonneg lags

/-- An insertion keeps a session. -/
lemma Kept.insert {built : p.Built} {timely : p.Timely} {s : Session}
    (h : s.Kept p (built.frame timely)) {u w : Nat} {lag : Int} {permanent : Bool}
    {complete : Side → Bool}
    (allowed : s.Allows p (.insert u w lag permanent complete)) :
    (s.perform base (.insert u w lag permanent complete)).Answers (Kept p (built.frame timely)) := by
  obtain ⟨hu, hw, long, fitting⟩ := allowed
  have nonneg : 0 ≤ lag := le_trans ((built.frame timely).duration_nonneg u) long
  have roomy : ∀ net', s.draft.network.Inserted u w lag permanent net' →
      Roomy (built.frame timely) net' := h.draft.roomy_insert nonneg fitting
  have lags : ∀ net', s.draft.network.Inserted u w lag permanent net' →
      ∀ {x y l}, net'.HasArc x y l → valueAt (built.frame timely).durations x ≤ l := by
    intro net' inserted x y l arc
    rcases inserted.hasArc_iff.1 arc with old | ⟨rfl, -, rfl⟩
    · exact h.lags old
    · exact long
  have fits : (built.frame timely).boundOf .late u
      ((built.frame timely).heights .late s.draft.bounds.late.value w + lag) ≤ greatestTime := by
    have above := (h.draft.consistent.settled .late).sound.above w
    have deadline := (built.frame timely).deadline_le w
    have duration := (built.frame timely).duration_nonneg w
    have long : valueAt (built.frame timely).durations u ≤ lag := long
    dsimp only [Frame.floor, Frame.heights, Frame.height, Frame.limit, Frame.boundOf,
      Bounds.table] at above ⊢
    omega
  rw [← built.size_frame timely] at hu hw
  unfold perform
  refine (h.draft.insert hu hw roomy fits
    (fun net' inserted => veil_of_lags s.range .early (roomy net' inserted) (lags net' inserted))
    (fun net' inserted => veil_of_lags s.range .late (roomy net' inserted) (lags net' inserted))
    (fun _ _ _ hidden => hidden) fun _ _ _ hidden => hidden).bind ?_
  rintro draft ⟨edges, kept⟩
  refine .pure ⟨kept, fun arc => ?_⟩
  rcases (hasArc_cons edges).1 arc with old | ⟨rfl, -, rfl⟩
  · exact h.lags old
  · exact long

/-- Moving the range keeps a session. -/
lemma Kept.move {s : Session} (h : s.Kept p F) (range : Span) (first : Side)
    (complete : Side → Bool) : (s.perform base (.move range first complete)).Answers (Kept p F) := by
  have veils := fun side => veil_of_lags range side h.draft.consistent.roomy h.lags
  have touching : ∀ c, takenUp c .touching ≠ .nothing := by decide
  unfold perform
  refine (h.draft.pass (veils first) fun same => absurd same (touching _)).bind ?_
  rintro draft ⟨network, -, kept⟩
  refine (kept.pass (network ▸ veils first.opposite) fun same => absurd same (touching _)).bind ?_
  rintro draft' ⟨network', -, kept'⟩
  have same : Function.update (Function.update (veil F s.range) first (veil F range first))
      first.opposite (veil F range first.opposite) = veil F range := by
    funext side
    cases first <;> cases side <;> rfl
  rw [same] at kept'
  refine .pure ⟨kept', fun {_ w _} arc => h.lags (w := w) ?_⟩
  rwa [network', network] at arc

/-- Taking up all deferred jobs of a side keeps a session. -/
lemma Kept.drain {s : Session} (h : s.Kept p F) (side : Side) :
    (s.perform base (.drain side)).Answers (Kept p F) := by
  unfold perform
  refine (h.draft.pass (veil_of_lags s.range side h.draft.consistent.roomy h.lags)
    fun impossible => by cases impossible).bind ?_
  rintro draft ⟨network, -, kept⟩
  rw [Function.update_eq_self] at kept
  refine .pure ⟨kept, fun {_ w _} arc => h.lags (w := w) ?_⟩
  rwa [network] at arc

/-- If nothing is deferred on either side, both lists are empty. -/
lemma deferred_of_hasDeferred {b : Bounds} (nothing : b.hasDeferred = false) (side : Side) :
    (b.table side).deferred = [] := by
  simp only [Bounds.hasDeferred, Bool.or_eq_false_iff, Bool.not_eq_false',
    List.isEmpty_iff] at nothing
  cases side with
  | early => exact nothing.1
  | late => exact nothing.2

/-- A deletion keeps a session. -/
lemma Kept.delete {s : Session} (h : s.Kept p F) {refs : List ArcRef}
    (allowed : s.Allows p (.delete refs)) :
    (s.perform base (.delete refs)).Answers (Kept p F) := by
  unfold perform
  refine (h.draft.delete (fits_of_lags h.lags) (deferred_of_hasDeferred allowed.1) allowed.2
    (veil F s.range)).bind ?_
  rintro draft ⟨deleted, -, kept⟩
  exact .pure ⟨kept, fun arc => h.lags (deleted.hasArc arc)⟩

/-- Going back to the base keeps a session. -/
lemma Kept.reset {s : Session} (h : s.Kept p F) (known : p.Base F base)
    (lags : ∀ {u w lag}, base.HasArc u w lag → valueAt F.durations u ≤ lag) :
    (s.perform base .reset).Answers (Kept p F) := by
  refine .ok ⟨h.draft.reset known _, fun {_ w _} arc => lags (w := w) ?_⟩
  have restored := restore_of_linked h.draft.consistent.roomy.linked known.roomy.linked
    (h.draft.consistent.roomy.size.trans known.roomy.size.symm)
  have same : (s.draft.reset base).network = s.draft.network.restore base := rfl
  rw [same, restored] at arc
  exact arc

/-- An action that is allowed is performed and keeps a session. -/
lemma Kept.perform {built : p.Built} {timely : p.Timely} {s : Session}
    (h : s.Kept p (built.frame timely)) (known : p.Base (built.frame timely) base)
    (lags : ∀ {u w lag}, base.HasArc u w lag → valueAt (built.frame timely).durations u ≤ lag)
    {action : Action} (allowed : s.Allows p action) :
    (s.perform base action).Answers (Kept p (built.frame timely)) := by
  cases action with
  | insert u w lag permanent complete => exact h.insert allowed
  | move range first complete => exact h.move range first complete
  | drain side => exact h.drain side
  | delete refs => exact h.delete allowed
  | reset => exact h.reset known lags

/-- All actions of an allowed list are performed. -/
lemma Kept.performAll {built : p.Built} {timely : p.Timely}
    (known : p.Base (built.frame timely) base)
    (lags : ∀ {u w lag}, base.HasArc u w lag → valueAt (built.frame timely).durations u ≤ lag)
    {actions : List Action} :
    ∀ {s : Session}, s.Kept p (built.frame timely) →
      Along (Session.perform base) (Allows p) s actions →
        (actions.foldlM (Session.perform base) s).Answers (Kept p (built.frame timely)) := by
  induction actions with
  | nil => exact fun h _ => .pure h
  | cons action rest ih =>
    intro s h allowed
    rw [List.foldlM_cons]
    obtain ⟨s', performed, h'⟩ := h.perform known lags allowed.1
    rw [performed, ok_bind]
    exact ih h' (allowed.2 s' performed)

/-- A bound that does not lie beyond the range is exact. -/
lemma Kept.isLongest {s : Session} (h : s.Kept p F) {side : Side} {v : Nat}
    (seen : side.isBeyond s.range (valueAt (s.draft.bounds.table side).value v) = false) :
    IsLongest (s.draft.network.Leads side) (F.floor side) v
      (F.heights side (s.draft.bounds.table side).value v) := by
  refine (h.draft.consistent.settled side).isLongest_of_seen
    (veil_of_lags s.range side h.draft.consistent.roomy h.lags) fun isHidden => ?_
  unfold veil Beyond Frame.heights at isHidden
  rw [Frame.boundOf_height, seen] at isHidden
  cases isHidden

/-- Taking up all deferred jobs of a side changes no bound that does not lie beyond the range. -/
lemma Kept.unchanged {s : Session} (h : s.Kept p F) (side : Side) (range : Span) :
    (s.draft.pass side .everything range).Answers fun draft' => ∀ side' v,
      side'.isBeyond s.range (valueAt (s.draft.bounds.table side').value v) = false →
        valueAt (draft'.bounds.table side').value v =
          valueAt (s.draft.bounds.table side').value v := by
  refine (h.draft.pass (veil_all F _ side range) fun _ _ _ _ => trivial).imp ?_
  rintro draft' ⟨network, ⟨table, bounds, drained⟩, kept⟩ side' v seen
  by_cases same : side' = side
  · subst same
    have after := (kept.consistent.settled side').isLongest (by
      rw [bounds, Bounds.table_withTable]
      exact drained rfl) v
    rw [network] at after
    have equal := after.unique (h.isLongest seen)
    have own : F.boundOf side' v (F.heights side' (draft'.bounds.table side').value v) =
        valueAt (draft'.bounds.table side').value v := Frame.boundOf_height
    rw [← own, equal]
    exact Frame.boundOf_height
  · rw [bounds, Bounds.table_withTable_of_ne same]

/-- **Lazy tightening is exact inside the range.**  Take an accepted instance whose lags are no
shorter than the durations of their sources, and any allowed actions from the base bounds on.  All
of them are performed.  Afterwards each earliest start before the end of the range and each latest
finish behind its beginning is exact, and taking up all deferred jobs changes none of these. -/
theorem exact_in_range [Scalar α] {jobs : Array (Job α)} {resources : List (Resource α)}
    {given : List Precedence} (accepted : (Problem.build jobs resources given).Accepts p)
    (timely : p.Timely) (lags : ∀ q ∈ p.precedences, p.durationOf q.source ≤ q.lag)
    (range : Span) :
    (Network.ofProblem p).Answers fun base => (start p range).Answers fun s₀ =>
      ∀ actions, Along (perform base) (Allows p) s₀ actions →
        (actions.foldlM (perform base) s₀).Answers fun s =>
          (∀ v < p.jobs.size, valueAt s.draft.bounds.early.value v < s.range.hi →
            p.IsExactStart s.draft.network.HasArc v (valueAt s.draft.bounds.early.value v)) ∧
          (∀ v < p.jobs.size, s.range.lo < valueAt s.draft.bounds.late.value v →
            p.IsExactFinish s.draft.network.HasArc v (valueAt s.draft.bounds.late.value v)) ∧
          ∀ side range', (s.draft.pass side .everything range').Answers fun draft' =>
            (∀ v < p.jobs.size, valueAt s.draft.bounds.early.value v < s.range.hi →
              valueAt draft'.bounds.early.value v = valueAt s.draft.bounds.early.value v) ∧
            ∀ v < p.jobs.size, s.range.lo < valueAt s.draft.bounds.late.value v →
              valueAt draft'.bounds.late.value v = valueAt s.draft.bounds.late.value v := by
  have built := Problem.built_of_build accepted
  obtain ⟨base, answer, -, known⟩ := built.base timely
  have base_lags : ∀ {u w lag}, base.HasArc u w lag →
      valueAt (built.frame timely).durations u ≤ lag := fun arc =>
    lags _ ((Problem.hasArc_of_edges known.edges).1 arc)
  refine ⟨base, answer, ⟨⟨base, Bounds.ofProblem p⟩, range⟩, ?_, fun actions allowed => ?_⟩
  · unfold start Draft.start
    rw [answer]
    rfl
  have kept₀ : Kept p (built.frame timely) ⟨⟨base, Bounds.ofProblem p⟩, range⟩ :=
    ⟨Draft.kept_start known _, base_lags⟩
  refine (kept₀.performAll known base_lags allowed).imp fun s kept => ?_
  have early : ∀ v, valueAt s.draft.bounds.early.value v < s.range.hi →
      Side.early.isBeyond s.range (valueAt (s.draft.bounds.table .early).value v) = false :=
    fun v before => decide_eq_false (not_le.2 before)
  have late : ∀ v, s.range.lo < valueAt s.draft.bounds.late.value v →
      Side.late.isBeyond s.range (valueAt (s.draft.bounds.table .late).value v) = false :=
    fun v behind => decide_eq_false (not_le.2 behind)
  refine ⟨fun v _ before => ?_, fun v _ behind => ?_, fun side range' => ?_⟩
  · exact (Problem.isExactStart_iff built timely).2 (kept.isLongest (early v before))
  · exact (Problem.isExactFinish_iff built timely).2 (kept.isLongest (late v behind))
  · refine (kept.unchanged side range').imp fun draft' unchanged =>
      ⟨fun v _ before => ?_, fun v _ behind => ?_⟩
    · exact unchanged .early v (early v before)
    · exact unchanged .late v (late v behind)

/-- An arc is inserted into the chain in front of a job beyond the range, the range is moved over the
deferred job, and the base is restored. -/
theorem exact_in_range_chain :
    (Problem.build Draft.chain.jobs [] [⟨1, 2, 2⟩]).Accepts Draft.chain ∧ Draft.chain.Timely ∧
    (∀ q ∈ Draft.chain.precedences, Draft.chain.durationOf q.source ≤ q.lag) ∧
    (Network.ofProblem Draft.chain).Answers fun base =>
      (start Draft.chain ⟨0, 5⟩).Answers fun s₀ =>
        Along (perform base) (Allows Draft.chain) s₀
          [.insert 0 1 12 false fun _ => false, .move ⟨0, 13⟩ .late fun _ => false, .drain .early,
            .reset] ∧
        ([.insert 0 1 12 false fun _ => false, .move ⟨0, 13⟩ .late fun _ => false, .drain .early,
            .reset].foldlM
          (perform base) s₀).Answers fun s => ∀ v < Draft.chain.jobs.size,
            valueAt s.draft.bounds.early.value v < s.range.hi →
              Draft.chain.IsExactStart s.draft.network.HasArc v
                (valueAt s.draft.bounds.early.value v) := by
  have lags : ∀ q ∈ Draft.chain.precedences, Draft.chain.durationOf q.source ≤ q.lag := by
    intro q member
    rw [List.mem_singleton.1 member]
    decide_cbv
  obtain ⟨base, answer, s₀, started, performed⟩ :=
    exact_in_range Draft.chain_accepted Draft.chain_timely lags ⟨0, 5⟩
  obtain ⟨draft, drafted, rest⟩ := bind_eq_ok.1 started
  cases rest
  have allowed : Along (perform base) (Allows Draft.chain) ⟨draft, ⟨0, 5⟩⟩
      [.insert 0 1 12 false fun _ => false, .move ⟨0, 13⟩ .late fun _ => false, .drain .early,
            .reset] := by
    refine ⟨⟨by decide, by decide, by decide_cbv, ?_⟩, fun _ _ => ⟨trivial, fun _ _ =>
      ⟨trivial, fun _ _ => ⟨trivial, fun _ _ => trivial⟩⟩⟩⟩
    exact Draft.chain_fitting (Draft.start_chain drafted).1
  refine ⟨Draft.chain_accepted, Draft.chain_timely, lags, base, answer, ⟨draft, ⟨0, 5⟩⟩, started,
    allowed, (performed _ allowed).imp fun s exact_bounds => ?_⟩
  exact exact_bounds.1

end Session

end Leveling
