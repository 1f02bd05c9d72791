import Leveling.Proofs.Profile.Costs
import Leveling.Proofs.Search.Safety

/-!
# The best schedule of a search

In each state that a search reaches, the best schedule gives every job a start, breaks no rule of the
instance, and has as its peak the highest cost that its starts make at any time.  The peak never rises
from one state to a later one.

While propagation is deferred the earliest starts are no schedule at all, so what carries the argument is
that a schedule is taken over only when nothing is deferred and the profile has every job at its
earliest start.
-/

namespace Leveling

open Checked Network

/-- A schedule of all jobs that is accepted by the check of the instance and whose peak is the highest
cost of its starts. -/
structure Schedule.Priced {α : Type} [ExactScalar α] (p : Problem α) (s : Schedule α) : Prop where
  complete : s.isComplete = true
  feasible : (p.checkFeasible s).Accepts ()
  peak : IsPeak (p.costAt s.startOf) ⟨0, p.horizon⟩ s.peak

namespace Schedule

/-- Every job has a start in a schedule that is made of starts. -/
lemma isComplete_ofStarts {α : Type} (starts : Array Int) (peak : α) :
    (ofStarts starts peak).isComplete = true := by
  unfold isComplete ofStarts
  rw [Array.all_map, Array.all_eq_true]
  exact fun _ _ => rfl

/-- The placement of a schedule that is made of starts. -/
lemma startOf_eq {α : Type} {s : Schedule α} {starts : Array Int} (same : s.starts = starts.map some) :
    s.startOf = fun v => starts[v]? := by
  funext v
  unfold startOf
  rw [same, Array.getElem?_map]
  cases starts[v]? <;> rfl

end Schedule

namespace Solver

/-! ## Whole runs -/

section

variable {ρ α : Type} [RandomSource ρ] [Scalar α] {p : Problem α} {F : Frame} {base : Network}
  {top : α} {s : Solver ρ α}

/-- What may be asked of a search: one iteration, or a whole run. -/
inductive Request where
  | iterate
  | run (elapsed : Nat → Nat) (rounds : Nat)

/-- The state after a request. -/
def serve (s : Solver ρ α) : Request → Checked (Solver ρ α)
  | .iterate => s.iterate
  | .run elapsed rounds => s.run elapsed rounds

/-- The iterations of a run lead from safe states to safe states. -/
lemma Kept.iterateUntilDone (arena : Arena p F base) (elapsed : Nat → Nat) {rounds : Nat} :
    ∀ {s : Solver ρ α}, s.Kept p F base top →
      (s.iterateUntilDone elapsed rounds).Answers (Kept p F base top) := by
  induction rounds with
  | zero => exact fun h => .ok h
  | succ rounds ih =>
    intro s h
    unfold Solver.iterateUntilDone
    dsimp only
    split
    · exact .pure h
    · have traced : ∀ trace, Kept p F base top { s with trace } := fun trace => h.congr rfl rfl
      exact ((traced _).iterate arena).bind fun s' h' => ih h'

/-- A run ends in a safe state in which nothing is deferred, and the best schedule is the present one
or that one is not better. -/
lemma Kept.run (arena : Arena p F base) (h : s.Kept p F base top) (elapsed : Nat → Nat) (rounds : Nat) :
    (s.run elapsed rounds).Answers fun s' => s'.Kept p F base top ∧
      (s'.best.peak = s'.profile.maximum ∨ ¬s'.profile.maximum < s'.best.peak) := by
  unfold Solver.run
  refine ((h.note _).iterateUntilDone arena elapsed).bind fun s₁ h₁ => ?_
  refine (h₁.updateBest arena).bind fun s₂ ⟨⟨h₂, _⟩, compared⟩ => .pure ⟨h₂.note _, ?_⟩
  rwa [best_note, profile_note]

/-- **Step.**  A request leads from safe states to safe states. -/
lemma Kept.serve (arena : Arena p F base) (h : s.Kept p F base top) (request : Request) :
    (s.serve request).Answers (Kept p F base top) := by
  cases request with
  | iterate => exact h.iterate arena
  | run elapsed rounds => exact (h.run arena elapsed rounds).imp fun s' => And.left

/-- **Run.**  Any requests lead from safe states to safe states. -/
lemma Kept.serveAll (arena : Arena p F base) (h : s.Kept p F base top) (requests : List Request) :
    (requests.foldlM Solver.serve s).Answers (Kept p F base top) :=
  .foldlM _ (fun _ h request _ => h.serve arena request) h

end

/-! ## Prices -/

variable {ρ α : Type} [RandomSource ρ] [ExactScalar α] {p : Problem α} {F : Frame} {base : Network}
  {top : α} {s : Solver ρ α}

omit [RandomSource ρ] in
/-- The best schedule of a safe state is priced. -/
lemma Kept.priced (arena : Arena p F base) (supplied : p.Supplied) (h : s.Kept p F base top) :
    s.best.Priced p := by
  obtain ⟨starts, P, same, holds⟩ := h.best.priced
  refine ⟨?_, h.best.feasible, ?_⟩
  · rw [same]
    exact Schedule.isComplete_ofStarts _ _
  · rw [same, Schedule.startOf_eq rfl]
    exact (holds.prices_costs arena.built arena.timely supplied).maximum

omit [RandomSource ρ] in
/-- The best schedule of a safe state is not worse than the one from which improvements are counted. -/
lemma Kept.peak_le (h : s.Kept p F base top) : s.best.peak ≤ top := by
  have le : ∀ {x : α}, Relation.ReflTransGen (fun x y => y < x) top x → x ≤ top := by
    intro x improved
    induction improved with
    | refl => exact le_rfl
    | tail _ better ih => exact better.le.trans ih
  exact le h.improved

omit [RandomSource ρ] in
/-- The maximum of the profile of a safe state is the highest cost of the earliest starts. -/
lemma Kept.isPeak_maximum (arena : Arena p F base) (supplied : p.Supplied) (h : s.Kept p F base top) :
    IsPeak (p.costAt fun v => s.bounds.early.value[v]?) ⟨0, p.horizon⟩ s.profile.maximum := by
  rw [← h.consistent.earliest_eq]
  exact (h.holds.prices_costs arena.built arena.timely supplied).maximum

/-- What holds of the best schedule where a run from `s` ends: it is priced, and its peak is at most the
peak before the run, the highest cost of the starts that the precedences alone imply, and the highest
cost of the present earliest starts. -/
structure Concluded (p : Problem α) (s s' : Solver ρ α) : Prop where
  priced : s'.best.Priced p
  before : s'.best.peak ≤ s.best.peak
  first : ∃ x, IsPeak (p.costAt fun v => p.earliestStart[v]?) ⟨0, p.horizon⟩ x ∧ s'.best.peak ≤ x
  last : ∃ x, IsPeak (p.costAt fun v => s'.bounds.early.value[v]?) ⟨0, p.horizon⟩ x ∧
    s'.best.peak ≤ x

/-- **Best schedules.**  After any iterations and runs, the best schedule of a search is priced, no
further iteration or run raises its peak, and where a run ends the peak is at most that of the first
schedule of the search and that of the present one.  The deadlines, the number of jobs and the penalty
are small enough for every sum and product to be a time or a counter. -/
theorem best_priced {jobs : Array (Job α)} {resources : List (Resource α)}
    {given : List Precedence} {config : Config α}
    (accepted : (Problem.build jobs resources given).Accepts p)
    (modest : ∀ job ∈ p.jobs.toList, job.deadline ≤ 2 ^ 30) (few : p.jobs.size ≤ 2 ^ 32)
    (penalty : config.deletionPenalty < 2 ^ 32)
    (started : (Solver.new p config : Verdict _ (Solver ρ α)).Accepts s) (requests : List Request) :
    (requests.foldlM serve s).Answers fun s₁ => s₁.best.Priced p ∧
      (∀ later : List Request,
        (later.foldlM serve s₁).Answers fun s₂ => s₂.best.peak ≤ s₁.best.peak) ∧
      ∀ elapsed rounds, (s₁.run elapsed rounds).Answers (Concluded p s₁) := by
  have built := Problem.built_of_build accepted
  have supplied := Problem.supplied_of_build accepted
  obtain ⟨F, base, arena, kept, -, starts⟩ := kept_new built modest few penalty started
  have first : IsPeak (p.costAt fun v => p.earliestStart[v]?) ⟨0, p.horizon⟩ s.best.peak := by
    have priced := (kept.priced arena supplied).peak
    rwa [Schedule.startOf_eq starts] at priced
  refine (kept.serveAll arena requests).imp fun s₁ kept₁ => ?_
  refine ⟨kept₁.priced arena supplied, fun later => ?_, fun elapsed rounds => ?_⟩
  · exact (kept₁.rebase.serveAll arena later).imp fun s₂ kept₂ => kept₂.peak_le
  · refine (kept₁.rebase.run arena elapsed rounds).imp fun s₂ ⟨kept₂, compared⟩ => ?_
    refine ⟨kept₂.priced arena supplied, kept₂.peak_le, ?_, ?_⟩
    · exact ⟨_, first, kept₂.peak_le.trans kept₁.peak_le⟩
    · refine ⟨_, kept₂.isPeak_maximum arena supplied, ?_⟩
      rcases compared with same | notBetter
      · exact le_of_eq same
      · exact not_lt.1 notBetter

/-- A search for the pair makes two iterations before anything else is asked of it. -/
theorem best_priced_pair : ∃ s : Solver ChaCha ℚ,
    (Solver.new ExactScalar.pair { Config.default with timeLimit := some 1 }).Accepts s ∧
      ([.iterate, .iterate].foldlM serve s).Answers fun s₁ => s₁.best.Priced ExactScalar.pair ∧
        (∀ later : List Request,
          (later.foldlM serve s₁).Answers fun s₂ => s₂.best.peak ≤ s₁.best.peak) ∧
        ∀ elapsed rounds, (s₁.run elapsed rounds).Answers (Concluded ExactScalar.pair s₁) := by
  obtain ⟨s, started⟩ := Verdict.exists_accepts (x := (Solver.new ExactScalar.pair
    { Config.default with timeLimit := some 1 } : Verdict _ (Solver ChaCha ℚ))) (by decide +kernel)
  refine ⟨s, started, best_priced ExactScalar.pair_accepted (fun job member => ?_)
    (by decide) (by decide) started [.iterate, .iterate]⟩
  simp only [ExactScalar.pair, List.mem_cons, List.not_mem_nil, or_false, or_self] at member
  rw [member]
  decide

end Solver

end Leveling
