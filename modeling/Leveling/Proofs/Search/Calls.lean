import Leveling.Proofs.Search.Best

/-!
# Answers to calls

If the deadlines, the number of jobs and the penalty are small enough for every sum and product to be a
time or a counter, a search answers whatever is asked of it, and it stays among the states that are
reached from its first one.
-/

namespace Leveling

open Checked

namespace Solver

variable {ρ α : Type} [RandomSource ρ]

/-- Instances and options that are so small that no time and no counter leaves its range. -/
structure Small (p : Problem α) (config : Config α) : Prop where
  modest : ∀ job ∈ p.jobs.toList, job.deadline ≤ 2 ^ 30
  few : p.jobs.size ≤ 2 ^ 32
  penalty : config.deletionPenalty < 2 ^ 32

variable [Scalar α] {p : Problem α} {F : Frame} {base : Network} {kind : String}
  {first s : Solver ρ α}

/-- All calls are answered, one after the other. -/
def Responsive (first : Solver ρ α) : Prop :=
  ∀ calls : List Call, (calls.foldlM call first).Answers (Reached first)

/-- **Step.**  A call leads from safe states to safe states. -/
lemma Kept.call {top : α} (arena : Arena p F base) (h : s.Kept p F base top) (c : Call) :
    (s.call c).Answers (Kept p F base top) := by
  have everything : Drain.everything ≠ .nothing := by decide
  cases c with
  | propagate => exact (h.propagate arena everything).imp fun _ => And.left
  | updateBest => exact (h.updateBest arena).imp fun _ kept => kept.1.1
  | reset => exact (h.reset arena).imp fun _ => And.left
  | unstick => exact h.unstick arena
  | iterate => exact h.iterate arena
  | run elapsed rounds => exact (h.run arena elapsed rounds).imp fun _ => And.left

omit [Scalar α] in
/-- The deadlines of a small instance are times. -/
lemma Small.timely {config : Config α} (small : Small p config) : p.Timely :=
  fun job member => (small.modest job member).trans (by decide)

/-- A search for a small instance answers. -/
lemma responsive {config : Config α} (built : p.Built) (small : Small p config)
    (started : (Solver.new p config : Verdict _ (Solver ρ α)).Accepts first) :
    Responsive first := by
  obtain ⟨base, footing, steady, -⟩ := steady_new built small.timely started
  obtain ⟨F, base, arena, kept, -⟩ := kept_new built small.modest small.few small.penalty started
  intro calls
  have answers : (calls.foldlM call first).Answers (Kept p F base first.best.peak) :=
    .foldlM _ (fun _ kept c _ => kept.call arena c) kept
  have ensures : (calls.foldlM call first).Ensures (Reached first) :=
    .foldlM _ (fun s reached c _ => steady.closed footing s reached c) .refl
  exact (answers.and_ensures ensures).imp fun _ => And.right

/-! ## The search for the pair -/

/-- Options that differ from the usual ones in the time limit only. -/
def brief : Config ℚ := { Config.default with timeLimit := some 1 }

/-- The pair is small. -/
lemma small_pair : Small ExactScalar.pair brief where
  modest job member := by
    simp only [ExactScalar.pair, List.mem_cons, List.not_mem_nil, or_false, or_self] at member
    rw [member]
    decide
  few := by decide
  penalty := by decide

/-- A search for the pair can begin. -/
lemma exists_first_pair : ∃ first : Solver ChaCha ℚ,
    (Solver.new ExactScalar.pair brief).Accepts first :=
  Verdict.exists_accepts (by decide +kernel)

end Solver

end Leveling
