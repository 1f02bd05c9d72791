import Leveling.Proofs.Schedules
import Leveling.Proofs.Search.Intact

/-!
# States of a search

While the deadlines, the number of jobs and the penalty of the deletion search are small enough, no sum
and no product that a search computes overflows.  Then its states are not only intact: its scorer fits
the instance, its best schedule is measured, and each operation answers.
-/

namespace Leveling

open Checked Network

/-- What a search relies on in its instance if it is to answer: its deadlines are so small and its jobs so
few that no sum and no product overflows. -/
structure Arena {α : Type} (p : Problem α) (F : Frame) (base : Network) : Prop extends
    Footing p F base where
  modest : F.Modest
  few : F.size ≤ 4294967296

section

variable {α : Type} {p : Problem α} {F : Frame} {base net : Network} {b : Bounds}
  {hidden : Side → Nat → Int → Prop}

variable [Scalar α] {P : Profile α}

/-! ## Measured schedules -/

/-- A schedule in which all jobs have a start is accepted by the check of the instance, and its peak is
the maximum of a profile that holds it. -/
structure Measured (p : Problem α) (best : Schedule α) : Prop where
  feasible : (p.checkFeasible best).Accepts ()
  priced : ∃ (starts : Array Int) (P : Profile α), best = .ofStarts starts P.maximum ∧
    P.Holds p fun v => starts[v]?

/-- If nothing is deferred, the earliest starts are a feasible schedule, and a profile that holds them
measures its peak. -/
lemma Consistent.measured (h : Consistent F hidden net b) (footing : Footing p F base)
    (grown : Grown p net) (nothing : ∀ side, (b.table side).deferred = [])
    (holds : P.Holds p (earliest F b)) : Measured p (.ofStarts b.early.value P.maximum) where
  feasible := by
    have releases : F.releases = p.jobs.map Job.release := footing.base.limit .early
    have deadlines : F.deadlines = p.jobs.map Job.deadline := footing.base.limit .late
    have size := (h.settled .early).sound.size.trans footing.size
    refine footing.built.checkFeasible footing.timely size (fun v => ?_) (fun v => ?_)
      (fun q member => ?_) _
    · have lower := (h.early_mem v).1
      rwa [releases] at lower
    · have upper := (h.early_mem v).2
      rwa [← footing.durationOf, deadlines] at upper
    · exact h.early_arc (nothing .early) (grown.hasArc_of_mem member)
  priced := ⟨_, P, rfl, h.earliest_eq ▸ holds⟩

end

namespace Solver

variable {ρ α : Type} [RandomSource ρ] [Scalar α] {p : Problem α} {F : Frame} {base : Network}
  {top : α} {hidden : Side → Nat → Int → Prop} {s s' : Solver ρ α} {source target : Nat}

/-! ## Safe states -/

/-- A safe state, with any veil of the bounds.  Its best schedule was found by improvements over the
peak cost `top`. -/
structure Safe (p : Problem α) (F : Frame) (base : Network) (top : α) (hidden : Side → Nat → Int → Prop)
    (s : Solver ρ α) : Prop where
  problem : s.problem = p
  base : s.base = base
  grown : Grown p s.network
  consistent : Consistent F hidden s.network s.bounds
  base_value : ∀ side, (s.bounds.table side).base = ((Bounds.ofProblem p).table side).base
  holds : s.profile.Holds p (earliest F s.bounds)
  scorer : s.scorer.Fit F
  pool : s.pool.Orderly F.size
  deletion : s.deletion.Sized F.size
  penalty : s.deletion.penalty < 4294967296
  best : Measured p s.best
  improved : Relation.ReflTransGen (fun x y => y < x) top s.best.peak

/-- A safe state whose bounds are exact inside the active range. -/
def Kept (p : Problem α) (F : Frame) (base : Network) (top : α) (s : Solver ρ α) : Prop :=
  Safe p F base top (Session.veil F s.active) s

/-- The parts of a state that can go wrong. -/
def vitals (s : Solver ρ α) : Problem α × Network × Network × Bounds × Profile α × Scorer ρ α ×
    CandidatePool α × DeletionSearch × Schedule α :=
  (s.problem, s.base, s.network, s.bounds, s.profile, s.scorer, s.pool, s.deletion, s.best)

omit [RandomSource ρ] in
/-- The other parts of a state may be changed at will. -/
lemma Safe.congr (h : Safe p F base top hidden s) (same : s'.vitals = s.vitals) :
    Safe p F base top hidden s' := by
  simp only [vitals, Prod.mk.injEq] at same
  obtain ⟨problem, base, network, bounds, profile, scorer, pool, deletion, best⟩ := same
  constructor
  · rw [problem, h.problem]
  · rw [base, h.base]
  · rw [network]
    exact h.grown
  · rw [network, bounds]
    exact h.consistent
  · rw [bounds]
    exact h.base_value
  · rw [profile, bounds]
    exact h.holds
  · rw [scorer]
    exact h.scorer
  · rw [pool]
    exact h.pool
  · rw [deletion]
    exact h.deletion
  · rw [deletion]
    exact h.penalty
  · rw [best]
    exact h.best
  · rw [best]
    exact h.improved

omit [RandomSource ρ] [Scalar α] in
/-- Logging an event changes nothing that matters. -/
@[simp] lemma vitals_note (s : Solver ρ α) (event : LogEvent α) :
    (s.note event).vitals = s.vitals := by
  unfold note
  split <;> rfl

omit [RandomSource ρ] in
/-- The other parts of a state may be changed, but not the active range. -/
lemma Kept.congr (h : s.Kept p F base top) (same : s'.vitals = s.vitals)
    (range : s'.active = s.active) : s'.Kept p F base top := by
  unfold Kept
  rw [range]
  exact Safe.congr h same

omit [RandomSource ρ] in
/-- Logging an event keeps a state safe. -/
lemma Kept.note (h : s.Kept p F base top) (event : LogEvent α) : (s.note event).Kept p F base top :=
  h.congr (vitals_note s event) (active_note s event)

omit [RandomSource ρ] in
/-- A safe state is intact. -/
lemma Safe.intact (h : Safe p F base top hidden s) :
    Intact p F base s.profile.kindName hidden s :=
  ⟨h.problem, h.base, h.grown, h.consistent, h.base_value, h.holds, rfl, h.pool, h.deletion⟩

omit [RandomSource ρ] in
/-- An intact state with the scorer, the deletion search and the best schedule of a safe state is safe. -/
lemma Safe.of_intact (h : Safe p F base top hidden s) {kind : String}
    {hidden' : Side → Nat → Int → Prop} (intact : Intact p F base kind hidden' s')
    (scorer : s'.scorer = s.scorer) (deletion : s'.deletion = s.deletion)
    (best : s'.best = s.best) : Safe p F base top hidden' s' where
  problem := intact.problem
  base := intact.base
  grown := intact.grown
  consistent := intact.consistent
  base_value := intact.base_value
  holds := intact.holds
  scorer := scorer ▸ h.scorer
  pool := intact.pool
  deletion := intact.deletion
  penalty := deletion ▸ h.penalty
  best := best ▸ h.best
  improved := best ▸ h.improved

omit [RandomSource ρ] in
/-- If nothing is deferred, no veil is needed. -/
lemma Safe.unveil (h : Safe p F base top hidden s) (idle : s.Idle)
    (hidden' : Side → Nat → Int → Prop) : Safe p F base top hidden' s :=
  h.of_intact (h.intact.unveil idle hidden') rfl rfl rfl

omit [RandomSource ρ] in
/-- The pool of a safe state may be replaced. -/
lemma Kept.withPool (h : s.Kept p F base top) {pool : CandidatePool α}
    (orderly : pool.Orderly F.size) : Kept p F base top { s with pool } :=
  ⟨h.problem, h.base, h.grown, h.consistent, h.base_value, h.holds, h.scorer, orderly, h.deletion,
    h.penalty, h.best, h.improved⟩

/-! ## Bounds and profile together -/

omit [RandomSource ρ] in
/-- A pass that takes up deferred jobs on both sides keeps a state safe, whatever its veil was. -/
lemma Safe.propagate (arena : Arena p F base) (h : Safe p F base top hidden s) {drain : Drain}
    (some_jobs : drain ≠ .nothing) :
    (s.propagate drain).Answers fun s' => s'.Kept p F base top ∧
      (∃ bounds profile, s' = { s with bounds, profile }) ∧ (drain = .everything → s'.Idle) := by
  refine (h.intact.propagate arena.toFooting some_jobs).imp ?_
  rintro s' ⟨steady, ⟨bounds, profile, rfl⟩, idle⟩
  exact ⟨h.of_intact steady rfl rfl rfl, ⟨bounds, profile, rfl⟩, idle⟩

omit [RandomSource ρ] in
/-- A state that is steady after propagation is safe if it was before. -/
lemma Kept.of_steady (h : s.Kept p F base top) {kind : String} (steady : s'.Steady p F base kind)
    (same : s'.aside = s.aside) : s'.Kept p F base top := by
  simp only [aside, Prod.mk.injEq] at same
  obtain ⟨scorer, -, deletion, -, best⟩ := same
  exact Safe.of_intact h steady scorer deletion best

omit [RandomSource ρ] in
/-- An admitted arc is inserted. -/
lemma Kept.insertArc (arena : Arena p F base) (h : s.Kept p F base top)
    (admitted : Admitted F s.bounds s.active source target) (complete : Bool) :
    (s.insertArc source target complete).Answers (Kept p F base top) :=
  (Steady.insertArc arena.toFooting h.intact admitted complete).imp fun _ ⟨steady, same⟩ =>
    h.of_steady steady same

omit [RandomSource ρ] in
/-- Arcs that are not permanent are deleted while nothing is deferred. -/
lemma Kept.deleteArcs (arena : Arena p F base) (h : s.Kept p F base top) (idle : s.Idle)
    {refs : List ArcRef} (deletable : ∀ ref ∈ refs, s.network.Deletable ref) :
    (s.deleteArcs refs).Answers fun s' => s'.Kept p F base top ∧ s'.Idle :=
  (Steady.deleteArcs arena.toFooting h.intact idle deletable).imp fun _ ⟨steady, idle, same⟩ =>
    ⟨h.of_steady steady same, idle⟩

/-! ## The best schedule -/

omit [RandomSource ρ] in
/-- The present schedule may become the best one, after a pass if something is deferred.  Then the
present schedule is the best one, or it is not better. -/
lemma Kept.updateBest (arena : Arena p F base) (h : s.Kept p F base top) :
    s.updateBest.Answers fun s' => (s'.Kept p F base top ∧ s'.Idle) ∧
      (s'.best.peak = s'.profile.maximum ∨ ¬s'.profile.maximum < s'.best.peak) := by
  refine (Steady.updateBest arena.toFooting h.intact).imp ?_
  rintro s' ⟨steady, idle, compared, scorer, -, deletion, -⟩
  obtain ⟨better, best⟩ | ⟨notBetter, best⟩ := compared
  · have measured := steady.consistent.measured arena.toFooting steady.grown idle steady.holds
    have peak : s'.best.peak = s'.profile.maximum := by
      rw [best]
      rfl
    refine ⟨⟨⟨steady.problem, steady.base, steady.grown, steady.consistent, steady.base_value,
      steady.holds, scorer ▸ h.scorer, steady.pool, steady.deletion, deletion ▸ h.penalty,
      best ▸ measured, peak ▸ h.improved.tail better⟩, idle⟩, .inl peak⟩
  · refine ⟨⟨Safe.of_intact h steady scorer deletion best, idle⟩, .inr ?_⟩
    rw [best]
    exact notBetter

/-! ## Candidates -/

/-- The pool is refilled with the next batch. -/
lemma Kept.nextBatch (arena : Arena p F base) (h : s.Kept p F base top) :
    s.nextBatch.Answers fun s' => s'.Kept p F base top ∧ s'.bounds = s.bounds := by
  unfold Solver.nextBatch
  refine (h.pool.buildBatch_answers h.scorer h.consistent arena.modest arena.few _ _ _).bind ?_
  rintro ⟨pool, scorer, random⟩ ⟨orderly, fit⟩
  exact .pure ⟨⟨h.problem, h.base, h.grown, h.consistent, h.base_value, h.holds, fit, orderly,
    h.deletion, h.penalty, h.best, h.improved⟩, rfl⟩

/-- The candidates of the active range are collected. -/
lemma Kept.regenerate (arena : Arena p F base) (h : s.Kept p F base top) :
    s.regenerate.Answers fun s' => s'.Kept p F base top ∧ s'.bounds = s.bounds := by
  have last : ∀ {s' : Solver ρ α}, s'.Kept p F base top → s'.bounds = s.bounds →
      (return s'.note (.collected s'.pool.entries.size s'.pool.jobs.size s'.active) :
        Checked (Solver ρ α)).Answers fun s' => s'.Kept p F base top ∧ s'.bounds = s.bounds :=
    fun kept same => .pure ⟨kept.note _, (bounds_note _ _).trans same⟩
  unfold Solver.regenerate
  refine ((h.pool.collect h.consistent s.active).answers (h.consistent.timed arena.modest)).bind
    fun pool orderly => ?_
  have collected : Kept p F base top { s with pool } := h.withPool orderly
  dsimp only
  split
  · refine (orderly.buildFull_answers h.scorer h.consistent arena.modest arena.few).bind ?_
    rintro ⟨pool', scorer⟩ ⟨orderly', fit⟩
    exact last ⟨h.problem, h.base, h.grown, h.consistent, h.base_value, h.holds, fit, orderly',
      h.deletion, h.penalty, h.best, h.improved⟩ rfl
  · exact (collected.nextBatch arena).bind fun s' ⟨kept, same⟩ => last kept same

end Solver

end Leveling
