import Leveling.Proofs.Search.Reached
import Leveling.Proofs.Search.Unsticking
import Leveling.Random.ChaCha

/-!
# A search is safe

Whatever a search draws at random, whatever its scorers answer and wherever its profile finds the
peak, no iteration stops with a fault, and after any number of iterations nothing is wrong with the
state.

A safe state is one in which the bounds are exact inside the active range only.  This is enough to
insert an arc, because an arc is admitted by bounds inside the range, and it is kept by everything
that an iteration does.  The passes of the next check take up what is deferred, and then all bounds
are exact.
-/

namespace Leveling

open Checked Network

namespace Solver

variable {ρ α : Type} [RandomSource ρ] [Scalar α] {p : Problem α} {F : Frame} {base : Network}
  {top : α} {s : Solver ρ α} {source target : Nat}

/-! ## One iteration -/

omit [RandomSource ρ] in
/-- The active range follows the peak, together with a pass over what the new range touches. -/
lemma Kept.followPeak (arena : Arena p F base) (h : s.Kept p F base top) :
    s.followPeak.Answers fun r => r.2.Kept p F base top := by
  have looked : Kept p F base top { s with lastRangeCheck := s.counters.iterations } := h.congr rfl rfl
  unfold Solver.followPeak
  refine ((looked.holds.knows arena.built arena.timely).maximumRange arena.timely).bind fun peak _ => ?_
  dsimp only
  split
  · exact .pure looked
  · generalize noted : Solver.note _ _ = s₁
    have h₁ : s₁.Kept p F base top := by
      rw [← noted]
      exact looked.note _
    have turned : Safe p F base top (Session.veil F s₁.active)
        { s₁ with active := peak, pool := s₁.pool.clear } :=
      ⟨h₁.problem, h₁.base, h₁.grown, h₁.consistent, h₁.base_value, h₁.holds, h₁.scorer,
        h₁.pool.clear, h₁.deletion, h₁.penalty, h₁.best, h₁.improved⟩
    exact (turned.propagate arena (by decide)).bind fun s₂ ⟨h₂, _⟩ => .pure h₂

/-- An empty pool is refilled. -/
lemma Kept.refill (arena : Arena p F base) (h : s.Kept p F base top) (fresh : Bool) :
    (s.refill fresh).Answers (Kept p F base top) := by
  have last : ∀ {s : Solver ρ α}, s.Kept p F base top →
      (if s.pool.isEmpty then s.unstick else return s : Checked (Solver ρ α)).Answers
        (Kept p F base top) := by
    intro s h
    split
    · exact h.unstick arena
    · exact .pure h
  unfold Solver.refill
  split
  · exact .pure h
  · split
    · exact (h.regenerate arena).bind fun s₁ ⟨h₁, _⟩ => last h₁
    · split
      · exact (h.nextBatch arena).bind fun s₁ ⟨h₁, _⟩ => last h₁
      · exact last h

omit [RandomSource ρ] in
/-- The tests before an insertion answer. -/
lemma Kept.admits (arena : Arena p F base) (h : s.Kept p F base top) (hs : source < F.size)
    (ht : target < F.size) : (s.admits source target).Answers fun _ => True := by
  unfold Solver.admits
  rw [h.consistent.overlap hs ht, ok_bind, h.consistent.intersects hs, ok_bind,
    h.consistent.intersects ht, ok_bind, h.consistent.fitsAfter arena.modest hs ht]
  split
  · exact .pure trivial
  · split
    · exact .pure trivial
    · split
      · exact .pure trivial
      · exact .ok trivial

/-- A candidate is drawn from the pool, and only if it is admitted. -/
lemma Kept.drawAdmitted (arena : Arena p F base) (h : s.Kept p F base top) (weighted : Bool)
    {pool : CandidatePool α} {random : ρ} (orderly : pool.Orderly F.size) :
    (s.drawAdmitted weighted pool random).Answers fun r => r.2.1.Orderly F.size ∧
      ∀ c ∈ r.1, (c.source < F.size ∧ c.target < F.size ∧ c.source ≠ c.target) ∧
        s.admits c.source c.target = .ok true := by
  have answers : (s.drawAdmitted weighted pool random).Answers fun _ => True := by
    induction size : pool.entries.size using Nat.strongRecOn generalizing pool random with
    | ind k ih =>
      rw [Solver.drawAdmitted.eq_def]
      split
      · exact .ok trivial
      · rename_i c pool' random' drawn
        obtain ⟨orderly', proper⟩ := orderly.draw drawn
        obtain ⟨hs, ht, -⟩ := proper c rfl
        refine (h.admits arena hs ht).bind fun admitted _ => ?_
        split
        · exact .pure trivial
        · have shorter := CandidatePool.size_draw drawn
          exact ih pool'.entries.size (by omega) orderly' rfl
  exact (answers.and_ensures (drawAdmitted_ensures s weighted orderly)).imp fun _ => And.right

/-- An admitted arc closes no cycle and is inserted. -/
lemma Kept.insertDrawn (arena : Arena p F base) (h : s.Kept p F base top) (complete : Bool) :
    (s.insertDrawn complete).Answers (Kept p F base top) := by
  unfold Solver.insertDrawn
  refine (h.drawAdmitted arena _ h.pool).bind ?_
  rintro ⟨drawn, pool, random⟩ ⟨orderly, admitted⟩
  have h₁ : Kept p F base top { s with pool, random } :=
    ⟨h.problem, h.base, h.grown, h.consistent, h.base_value, h.holds, h.scorer, orderly, h.deletion,
      h.penalty, h.best, h.improved⟩
  cases drawn with
  | none => exact .pure h₁
  | some c =>
    obtain ⟨⟨-, -, ne⟩, isAdmitted⟩ := admitted c rfl
    have steady : s.Steady p F base s.profile.kindName := h.intact
    obtain ⟨-, answer⟩ := steady.unordered arena.toFooting ne isAdmitted
    dsimp only
    rw [answer, ok_bind]
    exact h₁.insertArc arena (steady.admitted ne isAdmitted) complete

/-- **Step.**  An iteration leads from safe states to safe states. -/
lemma Kept.iterate (arena : Arena p F base) (h : s.Kept p F base top) :
    s.iterate.Answers (Kept p F base top) := by
  unfold Solver.iterate
  extract_lets iteration counters s₁ s₂ complete insert look
  have h₁ : s₁.Kept p F base top :=
    ⟨h.problem, h.base, h.grown, h.consistent, h.base_value, h.holds,
      Scorer.Fit.onIteration _ h.scorer, h.pool, h.deletion, h.penalty, h.best, h.improved⟩
  have h₂ : s₂.Kept p F base top := by
    dsimp only [s₂]
    split
    · exact h₁.note _
    · exact h₁
  have inserted : ∀ {moved s}, s.Kept p F base top →
      (insert (moved, s)).Answers (Kept p F base top) := by
    intro moved s h
    refine (h.refill arena _).bind fun s₃ h₃ => ?_
    refine (h₃.insertDrawn arena _).bind fun s₄ h₄ => .pure ?_
    split
    · exact h₄.congr rfl rfl
    · exact h₄
  have looked : ∀ {s}, s.Kept p F base top → (look s).Answers (Kept p F base top) := by
    intro s h
    dsimp only [look]
    split
    · exact (h.followPeak arena).bind fun r h₃ => inserted h₃
    · exact inserted h
  split
  · exact (h₂.propagate arena (by decide)).bind fun s₃ h₃ => looked h₃.1
  · exact looked h₂

/-! ## Runs -/

/-- **Run.**  Any number of iterations leads from safe states to safe states. -/
lemma Kept.iterations (arena : Arena p F base) {count : Nat} :
    ∀ {s : Solver ρ α}, s.Kept p F base top →
      (Solver.iterations count s).Answers (Kept p F base top) := by
  induction count with
  | zero => exact fun h => .ok h
  | succ count ih => exact fun h => (h.iterate arena).bind fun s' h' => ih h'

omit [RandomSource ρ] in
/-- A safe state from which the improvements are counted anew. -/
lemma Kept.rebase (h : s.Kept p F base top) : s.Kept p F base s.best.peak :=
  ⟨h.problem, h.base, h.grown, h.consistent, h.base_value, h.holds, h.scorer, h.pool, h.deletion,
    h.penalty, h.best, .refl⟩

/-! ## The first state -/

/-- The first state of a search is safe, and its best schedule has the earliest starts that the
precedences imply. -/
lemma kept_new {config : Config α} (built : p.Built)
    (modest : ∀ job ∈ p.jobs.toList, job.deadline ≤ 1073741824) (few : p.jobs.size ≤ 4294967296)
    (penalty : config.deletionPenalty < 4294967296)
    (accepted : (Solver.new p config : Verdict _ (Solver ρ α)).Accepts s) :
    ∃ F base, Arena p F base ∧ s.Kept p F base s.best.peak ∧ s.Idle ∧
      s.best.starts = p.earliestStart.map some := by
  have timely : p.Timely := fun job member => (modest job member).trans (by decide)
  obtain ⟨base, footing, steady, renewed, scorer, deletion, best⟩ := steady_new built timely accepted
  have measured := steady.consistent.measured footing steady.grown renewed.idle steady.holds
  have arena : Arena p (built.frame timely) base := by
    refine ⟨footing, built.modest timely modest, ?_⟩
    rw [built.size_frame timely]
    exact few
  refine ⟨_, base, arena, ⟨steady.problem, steady.base, steady.grown, steady.consistent,
    steady.base_value, steady.holds, ?_, steady.pool, steady.deletion, ?_, ?_, .refl⟩, renewed.idle, ?_⟩
  · rw [scorer]
    exact Scorer.fit_ofConfig rfl config
  · rw [deletion]
    exact penalty
  · rw [best]
    exact measured
  · rw [best, renewed.bounds]
    rfl

/-! ## Soundness -/

/-- What holds in each state of a search: the network is linked and has no cycle, its permanent arcs
are the precedences of the instance, any other arc has the duration of its source as its lag, and
nothing is wrong with the state.  After a complete pass nothing is deferred, and the bounds leave room
for each job and for the two ends of each arc. -/
structure Sound (p : Problem α) (s : Solver ρ α) : Prop where
  linked : s.network.Linked
  acyclic : Acyclic s.network.HasArc
  permanent : s.network.edges.filter (fun e => e.permanent = true) =
    (p.precedences.map Precedence.edge : List Edge)
  temporary : ∀ e ∈ s.network.edges, e.permanent = false → e.lag = p.durationOf e.source
  verified : s.verify.Accepts ()
  drained : (s.propagate .everything).Answers fun s' => s'.network = s.network ∧
    (∀ side, (s'.bounds.table side).deferred = []) ∧
    (∀ v < p.jobs.size,
      valueAt s'.bounds.early.value v + p.durationOf v ≤ valueAt s'.bounds.late.value v) ∧
    ∀ u w lag, s.network.HasArc u w lag → valueAt s'.bounds.early.value u + p.durationOf u ≤
      valueAt s'.bounds.late.value w - p.durationOf w

omit [RandomSource ρ] in
/-- A safe state is sound. -/
lemma Kept.sound (arena : Arena p F base) (h : s.Kept p F base top) : s.Sound p where
  linked := h.consistent.roomy.linked
  acyclic := h.consistent.roomy.acyclic
  permanent := h.grown.permanent
  temporary := h.grown.temporary
  verified := by
    have takes : Drain.everything ≠ .nothing := by decide
    obtain ⟨s', answer, kept, -, drained⟩ := h.propagate arena takes
    have consistent := kept.consistent
    have fits : Fits F s'.network F.deadlines := fits_of_lags fun arc => arena.toFooting.lag_le kept.grown arc
    unfold verify
    refine Verdict.accepts_bind.2 ⟨_, Verdict.accepts_lift.2 answer, ?_⟩
    refine Verdict.accepts_bind.2 ⟨⟨⟩, Verdict.accepts_adapt.2
      (consistent.roomy.linked.check consistent.roomy.acyclic), ?_⟩
    refine Verdict.accepts_bind.2 ⟨⟨⟩, Verdict.accepts_adapt.2
      (consistent.check fits (drained rfl)), ?_⟩
    rw [kept.problem]
    exact Verdict.accepts_adapt.2 kept.best.feasible
  drained := by
    have takes : Drain.everything ≠ .nothing := by decide
    refine (h.propagate arena takes).imp ?_
    rintro s' ⟨kept, ⟨bounds, profile, rfl⟩, drained⟩
    refine ⟨rfl, drained rfl, fun v _ => ?_, fun u w lag arc => ?_⟩
    · rw [arena.toFooting.durationOf]
      exact kept.consistent.room v
    · have room := kept.consistent.room_arc arc
      have long := arena.toFooting.lag_le kept.grown arc
      rw [arena.toFooting.durationOf, arena.toFooting.durationOf]
      omega

/-- No iteration of a search stops with a fault, and all states that a search reaches are sound,
whatever it draws at random, whatever its scorers answer and wherever its profile finds the peak.
The deadlines, the number of jobs and the penalty are small enough for the arithmetic. -/
theorem iterations_sound {jobs : Array (Job α)} {resources : List (Resource α)}
    {given : List Precedence} {config : Config α}
    (accepted : (Problem.build jobs resources given).Accepts p)
    (modest : ∀ job ∈ p.jobs.toList, job.deadline ≤ 2 ^ 30) (few : p.jobs.size ≤ 2 ^ 32)
    (penalty : config.deletionPenalty < 2 ^ 32)
    (started : (Solver.new p config : Verdict _ (Solver ρ α)).Accepts s) (count : Nat) :
    (iterations count s).Answers (Sound p) := by
  obtain ⟨F, base, arena, kept, -⟩ :=
    kept_new (Problem.built_of_build accepted) modest few penalty started
  exact (kept.iterations arena).imp fun s' kept' => kept'.sound arena

/-- A search for the pair makes three iterations. -/
theorem iterations_sound_pair : ∃ s : Solver ChaCha ℚ,
    (Solver.new ExactScalar.pair { Config.default with timeLimit := some 1 }).Accepts s ∧
      (iterations 3 s).Answers (Sound ExactScalar.pair) := by
  obtain ⟨s, started⟩ := Verdict.exists_accepts (x := (Solver.new ExactScalar.pair
    { Config.default with timeLimit := some 1 } : Verdict _ (Solver ChaCha ℚ))) (by decide +kernel)
  refine ⟨s, started, iterations_sound ExactScalar.pair_accepted (fun job member => ?_)
    (by decide) (by decide) started 3⟩
  simp only [ExactScalar.pair, List.mem_cons, List.not_mem_nil, or_false, or_self] at member
  rw [member]
  decide

end Solver

end Leveling
