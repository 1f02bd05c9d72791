import Leveling.Proofs.Search.Serializing
import Leveling.Proofs.Search.States

/-!
# Getting unstuck is safe

When the pool has run dry nothing is deferred, because the search has propagated completely.  So the
state is at rest: the deletion searches find exact bounds, the arcs that they propose may be deleted, and
a new range may be taken up without a pass.  Starting over goes back to the network and the base bounds
of the instance, to which all of this applies as well.
-/

namespace Leveling

open Checked Network

namespace Solver

variable {ρ α : Type} [RandomSource ρ] [Scalar α] {p : Problem α} {F : Frame} {base : Network}
  {top : α} {hidden : Side → Nat → Int → Prop} {s s' : Solver ρ α} {source target : Nat}

/-! ## Room for a pair -/

omit [RandomSource ρ] in
/-- If nothing is deferred, a safe state is at rest. -/
lemma Safe.resting (arena : Arena p F base) (h : Safe p F base top hidden s) (idle : s.Idle) :
    s.Resting p F where
  consistent := h.consistent.unveil idle _
  fits := fits_of_lags fun arc => arena.lag_le h.grown arc
  idle := idle
  clean := h.grown.clean
  base_value := h.base_value
  placed := ⟨_, h.holds⟩
  deletion := h.deletion
  penalty := h.penalty

omit [RandomSource ρ] in
/-- There are no more arcs than can be counted. -/
lemma Safe.size_le (arena : Arena p F base) (h : Safe p F base top hidden s) :
    s.network.size ≤ 9223372036854775808 := by
  have roomy := h.consistent.roomy
  have arcs := roomy.linked.two_mul_size_le roomy.acyclic h.grown.simple
  have jobs : s.network.numJobs ≤ 4294967296 := by
    rw [roomy.size]
    exact arena.few
  have pairs : s.network.numJobs * s.network.numJobs ≤ 4294967296 * 4294967296 :=
    Nat.mul_le_mul jobs jobs
  omega

omit [RandomSource ρ] in
/-- Deletion searches leave a state safe. -/
lemma Kept.after (h : s.Kept p F base top) (searched : Searched F.size s s') :
    s'.Kept p F base top := by
  obtain ⟨⟨log, same⟩, sized, penalty⟩ := searched
  rw [same] at sized penalty ⊢
  exact ⟨h.problem, h.base, h.grown, h.consistent, h.base_value, h.holds, h.scorer, h.pool, sized,
    penalty.trans_lt h.penalty, h.best, h.improved⟩

omit [RandomSource ρ] in
/-- Room is made for two jobs of the active range. -/
lemma Kept.makeCandidate (arena : Arena p F base) (h : s.Kept p F base top) (idle : s.Idle) :
    s.makeCandidate.Answers (Kept p F base top) := by
  refine (((Safe.resting arena h idle).makeCandidate arena.toBasis arena.modest).answers
    (Safe.size_le arena h)).imp ?_
  rintro s' ⟨pool, collected, attempted⟩
  have kept := h.withPool ((h.pool.collect h.consistent s.active).ensures _ collected)
  cases attempted with
  | failed searched => exact (kept.after searched).withPool (kept.after searched).pool.clear
  | paired paired =>
    obtain ⟨hs, ht, apart, s₁, refs, s₂, searched, deletable, -, answer, rfl⟩ := paired
    have idle₁ : s₁.Idle := fun side => searched.bounds ▸ idle side
    obtain ⟨kept₂, -⟩ := ((kept.after searched).deleteArcs arena idle₁ fun ref member =>
      searched.network ▸ deletable ref member).of_eq_ok answer
    exact kept₂.withPool (kept.pool.clear.push 1 ⟨hs, ht, apart⟩)

/-! ## Starting over -/

omit [RandomSource ρ] in
/-- All jobs finish at a time. -/
lemma Safe.finishes (h : Safe p F base top hidden s) : Finishes F s.bounds.early.value where
  size := (h.consistent.settled .early).sound.size
  nonneg v := (F.release_nonneg v).trans (h.consistent.early_mem v).1
  finish v := (h.consistent.early_mem v).2.trans (F.deadline_le v)

/-- Starting over leads back to the network and the base bounds of the instance. -/
lemma Kept.reset (arena : Arena p F base) (h : s.Kept p F base top) :
    s.reset.Answers fun s' => s'.Kept p F base top ∧ s'.Idle := by
  unfold Solver.reset
  refine (h.updateBest arena).bind fun s₁ ⟨⟨h₁, _⟩, _⟩ => ?_
  have roomy := h₁.consistent.roomy
  dsimp only
  refine (h₁.scorer.learn arena.few roomy.linked roomy.size h₁.finishes _).bind fun scorer fit => ?_
  rw [h₁.intact.network_restore arena.toFooting, h₁.intact.bounds_reset arena.toFooting]
  refine (h₁.intact.restart arena.toFooting scorer _).bind ?_
  rintro s₂ ⟨⟨profile, rfl⟩, intact⟩
  have holds := (intact (Session.veil F s₁.active) s₁.active).holds
  refine ((holds.knows arena.built arena.timely).maximumRange arena.timely).bind fun active _ => ?_
  have back := intact (Session.veil F active) active
  refine .pure ⟨Kept.note ?_ _, fun side => ?_⟩
  · exact ⟨back.problem, back.base, back.grown, back.consistent, back.base_value, back.holds, fit,
      back.pool, back.deletion, h₁.penalty, h₁.best, h₁.improved⟩
  · rw [bounds_note]
    cases side <;> rfl

/-- Starting over and looking for candidates. -/
lemma Kept.startOver (arena : Arena p F base) (h : s.Kept p F base top) :
    s.startOver.Answers (Kept p F base top) := by
  unfold Solver.startOver
  refine (h.reset arena).bind fun s₁ ⟨h₁, _⟩ => ?_
  refine (h₁.regenerate arena).bind fun s₂ ⟨h₂, _⟩ => ?_
  dsimp only
  split
  · exact .pure (h₂.congr (vitals_note _ _) (active_note _ _))
  · exact .pure (h₂.congr rfl rfl)

omit [RandomSource ρ] in
/-- If nothing is deferred, any range may be the active one. -/
lemma Kept.turn (h : s.Kept p F base top) (idle : s.Idle) (range : Span) :
    Kept p F base top { s with active := range } :=
  Safe.congr (h.unveil idle (Session.veil F range)) rfl

/-- A search that has run dry finds something to insert, or finds out that there is nothing. -/
lemma Kept.unstick (arena : Arena p F base) (h : s.Kept p F base top) :
    s.unstick.Answers (Kept p F base top) := by
  have last : ∀ {s : Solver ρ α}, s.Kept p F base top → (do
      let s ← s.updateBest
      if 0 < s.deletionsLeft then
        let s ← { s with deletionsLeft := s.deletionsLeft - 1 }.makeCandidate
        if s.pool.isEmpty then s.startOver else return s
      else s.startOver : Checked (Solver ρ α)).Answers (Kept p F base top) := by
    intro s h
    refine (h.updateBest arena).bind fun s₁ ⟨⟨h₁, idle⟩, _⟩ => ?_
    split
    · have counted : Kept p F base top { s₁ with deletionsLeft := s₁.deletionsLeft - 1 } :=
        h₁.congr rfl rfl
      refine (counted.makeCandidate arena idle).bind fun s₂ h₂ => ?_
      split
      · exact h₂.startOver arena
      · exact .pure h₂
    · exact h₁.startOver arena
  unfold Solver.unstick
  have counted : Kept p F base top
      { s with counters.unstickCalls := s.counters.unstickCalls + 1 } := h.congr rfl rfl
  refine (counted.propagate arena (by decide)).bind fun s₁ ⟨h₁, _, drained⟩ => ?_
  have idle := drained rfl
  refine ((h₁.holds.knows arena.built arena.timely).maximumRange arena.timely).bind fun peak _ => ?_
  dsimp only
  split
  · refine ((h₁.turn idle peak).regenerate arena).bind fun s₂ ⟨h₂, _⟩ => ?_
    split
    · exact .pure h₂
    · exact last h₂
  · refine Answers.bind (P := Kept p F base top) (.pure h₁) fun s₂ h₂ => ?_
    split
    · exact .pure h₂
    · exact last h₂

end Solver

end Leveling
