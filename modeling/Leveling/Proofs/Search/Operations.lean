import Leveling.Proofs.Search.Intact
import Leveling.Proofs.Search.Plans
import Leveling.Search.Run

/-!
# Operations keep states intact

Each operation of a search that answers leads from intact states to intact states, however large the
instance is.  Operations that read the profile, the scorer or the stream of random numbers do so for
whatever they find there.

The tests before an insertion look at bounds that may be stale, and the searches for a deletion at bounds
that are exact, because they are made only when nothing is deferred.
-/

namespace Leveling

open Checked Network

namespace Solver

variable {ρ α : Type} [RandomSource ρ] [Scalar α] {p : Problem α} {F : Frame} {base : Network}
  {kind : String} {hidden : Side → Nat → Int → Prop} {s s' : Solver ρ α} {source target : Nat}

/-! ## Candidates -/

omit [RandomSource ρ] in
/-- The pool of an intact state may be replaced. -/
lemma Intact.withPool (h : Intact p F base kind hidden s) {pool : CandidatePool α}
    (orderly : pool.Orderly F.size) (scorer : Scorer ρ α) (random : ρ) :
    Intact p F base kind hidden { s with pool, scorer, random } :=
  ⟨h.problem, h.base, h.grown, h.consistent, h.base_value, h.holds, h.kind, orderly, h.deletion⟩

/-- The pool is refilled with the next batch. -/
lemma Steady.nextBatch (h : s.Steady p F base kind) :
    s.nextBatch.Ensures fun s' => s'.Steady p F base kind ∧ s'.bounds = s.bounds := by
  unfold Solver.nextBatch
  refine (h.pool.buildBatch _ _ _).bind fun r orderly => .pure ⟨?_, rfl⟩
  exact Intact.withPool h orderly _ _

/-- The candidates of the active range are collected. -/
lemma Steady.regenerate (h : s.Steady p F base kind) :
    s.regenerate.Ensures fun s' => s'.Steady p F base kind ∧ s'.bounds = s.bounds := by
  have last : ∀ {s' : Solver ρ α}, s'.Steady p F base kind → s'.bounds = s.bounds →
      (return s'.note (.collected s'.pool.entries.size s'.pool.jobs.size s'.active) :
        Checked (Solver ρ α)).Ensures fun s' => s'.Steady p F base kind ∧ s'.bounds = s.bounds :=
    fun steady same => .pure ⟨steady.note _, (bounds_note _ _).trans same⟩
  unfold Solver.regenerate
  refine (h.pool.collect h.consistent s.active).ensures.bind fun pool orderly => ?_
  have collected : Steady p F base kind { s with pool } := Intact.withPool h orderly _ _
  dsimp only
  split
  · refine orderly.buildFull.bind fun r orderly' => ?_
    exact last (Intact.withPool collected orderly' _ _) rfl
  · exact (Steady.nextBatch collected).bind fun s' ⟨steady, same⟩ => last steady same

omit [RandomSource ρ] in
/-- The active range follows the peak, together with a pass over what the new range touches. -/
lemma Steady.followPeak (footing : Footing p F base) (h : s.Steady p F base kind) :
    s.followPeak.Ensures fun r => r.2.Steady p F base kind := by
  have looked : Steady p F base kind { s with lastRangeCheck := s.counters.iterations } :=
    h.congr rfl rfl
  unfold Solver.followPeak
  refine Ensures.any.bind fun peak _ => ?_
  dsimp only
  split
  · exact .pure looked
  · generalize noted : Solver.note _ _ = s₁
    have h₁ : s₁.Steady p F base kind := noted ▸ looked.note _
    have turned : Intact p F base kind (Session.veil F s₁.active)
        { s₁ with active := peak, pool := s₁.pool.clear } :=
      Intact.congr (Intact.withPool h₁ h₁.pool.clear s₁.scorer s₁.random) rfl
    exact (turned.propagate footing (by decide)).ensures.bind fun s₂ ⟨steady, _⟩ => .pure steady

/-! ## Insertions -/

omit [RandomSource ρ] in
/-- An arc between different jobs is admitted only if it passes all tests. -/
lemma Steady.admits (h : s.Steady p F base kind) (hs : source < F.size) (ht : target < F.size)
    (ne : source ≠ target) : (s.admits source target).Ensures fun admitted =>
      admitted = true → Admitted F s.bounds s.active source target := by
  unfold Solver.admits
  rw [h.consistent.overlap hs ht, ok_bind, h.consistent.intersects hs, ok_bind,
    h.consistent.intersects ht, ok_bind]
  split
  · exact .pure nofun
  · rename_i overlap
    split
    · exact .pure nofun
    · rename_i inRange
      split
      · exact .pure nofun
      · rename_i inRange'
        refine (h.consistent.fitsAfter_ensures hs ht).imp fun admitted fits isAdmitted => ?_
        simp only [Bool.not_eq_true', decide_eq_false_iff_not, not_not] at overlap inRange inRange'
        exact ⟨hs, ht, ne, overlap, inRange, inRange', fits isAdmitted⟩

/-- A candidate is drawn from the pool, and only if it is admitted. -/
lemma drawAdmitted_ensures (s : Solver ρ α) (weighted : Bool) :
    ∀ {pool : CandidatePool α} {random : ρ}, pool.Orderly F.size →
      (s.drawAdmitted weighted pool random).Ensures fun r => r.2.1.Orderly F.size ∧
        ∀ c ∈ r.1, (c.source < F.size ∧ c.target < F.size ∧ c.source ≠ c.target) ∧
          s.admits c.source c.target = .ok true := by
  intro pool
  induction size : pool.entries.size using Nat.strongRecOn generalizing pool with
  | ind k ih =>
    intro random orderly
    rw [Solver.drawAdmitted.eq_def]
    split
    · rename_i pool' random' drawn
      exact .pure ⟨(orderly.draw drawn).1, fun c member => (Option.not_mem_none c member).elim⟩
    · rename_i c pool' random' drawn
      obtain ⟨orderly', proper⟩ := orderly.draw drawn
      refine Ensures.same.bind fun admitted answer => ?_
      split
      · rename_i isAdmitted
        refine .pure ⟨orderly', fun c' member => ?_⟩
        obtain rfl := Option.mem_some_iff.1 member
        exact ⟨proper c rfl, isAdmitted ▸ answer⟩
      · have shorter := CandidatePool.size_draw drawn
        exact ih pool'.entries.size (by omega) rfl orderly'

omit [RandomSource ρ] in
/-- What is admitted passes all tests. -/
lemma Steady.admitted (h : s.Steady p F base kind) (ne : source ≠ target)
    (isAdmitted : s.admits source target = .ok true) :
    Admitted F s.bounds s.active source target := by
  obtain ⟨overlap, found, -⟩ := bind_eq_ok.1 isAdmitted
  obtain ⟨hs, ht⟩ := h.consistent.lt_of_overlap found
  exact h.admits hs ht ne true isAdmitted rfl

omit [RandomSource ρ] in
/-- An admitted arc joins unordered jobs, and no cycle is found. -/
lemma Steady.unordered (footing : Footing p F base) (h : s.Steady p F base kind)
    (ne : source ≠ target) (isAdmitted : s.admits source target = .ok true) :
    Unordered s.network.HasArc source target ∧ s.network.reaches target source = .ok false := by
  have admitted := h.admitted ne isAdmitted
  have roomy := h.consistent.roomy
  have unordered := admitted.unordered h.consistent fun arc => footing.lag_le h.grown arc
  refine ⟨unordered, ?_⟩
  obtain ⟨found, answer, reached⟩ := roomy.linked.reaches (roomy.size ▸ admitted.target_lt) source
  obtain rfl : found = false := Bool.eq_false_iff.2 (mt reached.1 unordered.2)
  exact answer

/-! ## Deletions -/

omit [RandomSource ρ] in
/-- What a deletion search relies on if nothing is said about how large the numbers are. -/
lemma Intact.ground (footing : Footing p F base) (h : Intact p F base kind hidden s) (side : Side) :
    DeletionSearch.Ground False F s.network s.bounds side fun _ => 0 where
  linked := h.consistent.roomy.linked
  size := h.consistent.roomy.size
  acyclic := h.consistent.roomy.acyclic
  durations := h.consistent.of.durations
  base_size := by
    rw [h.base_value side]
    exact (footing.base.sound side).size
  value_size := (h.consistent.settled side).sound.size
  room := False.elim

omit [RandomSource ρ] in
/-- Only different jobs may follow each other. -/
lemma Intact.mayFollow (h : Intact p F base kind hidden s) :
    (s.mayFollow source target).Ensures fun follows =>
      follows = true → source < F.size ∧ target < F.size ∧ source ≠ target := by
  unfold Solver.mayFollow
  split
  · exact .pure nofun
  · rename_i ne
    refine Ensures.same.bind fun overlap answer => ?_
    obtain ⟨hs, ht⟩ := h.consistent.lt_of_overlap answer
    exact Ensures.any.imp fun _ _ _ => ⟨hs, ht, ne⟩

omit [RandomSource ρ] in
/-- Plans that make room for two jobs delete arcs that may be deleted, and the searches for them leave the
network as it was. -/
lemma Steady.planRoom (footing : Footing p F base) (h : s.Steady p F base kind)
    (hs : source < F.size) (ht : target < F.size) :
    (s.planRoom source target).Ensures fun r => r.2.Steady p F base kind ∧ r.2.bounds = s.bounds ∧
      ∀ plans ∈ r.1, ∀ ref ∈ plans.1.arcs ++ plans.2.arcs, r.2.network.Deletable ref := by
  unfold Solver.planRoom
  refine Ensures.any.bind fun finish _ => Ensures.any.bind fun start _ => ?_
  refine Ensures.any.bind fun overlap _ => Ensures.any.bind fun start' _ => ?_
  refine Ensures.any.bind fun first _ => Ensures.any.bind fun movable _ => ?_
  refine (DeletionSearch.backward_answers (Intact.ground footing h .early) h.grown.clean
    h.deletion hs False.elim).ensures.bind ?_
  rintro ⟨back, deletion, network⟩ ⟨cheapest, left⟩
  obtain rfl : network = s.network := left.network
  refine Ensures.any.bind fun rest _ => ?_
  refine (DeletionSearch.forward_answers (Intact.ground footing h .late) h.grown.clean
    left.sized ht).ensures.bind ?_
  rintro ⟨forth, deletion', network⟩ ⟨fewest, left'⟩
  obtain rfl : network = s.network := left'.network
  refine .pure ⟨⟨h.problem, h.base, h.grown, h.consistent, h.base_value, h.holds, h.kind, h.pool,
    left'.sized⟩, rfl, fun plans found ref member => ?_⟩
  obtain ⟨plan, present, rfl⟩ := Option.map_eq_some_iff.1 found
  rcases List.mem_append.1 member with inBack | inForth
  · exact cheapest.sane.deletable ref inBack
  · dsimp only at fewest present
    rw [present] at fewest
    exact fewest.sane.deletable ref inForth

/-! ## Starting over -/

/-- A state with the network and the bounds of the instance and no candidates, in which the active range
is where the cost is highest. -/
structure Renewed (p : Problem α) (base : Network) (s : Solver ρ α) : Prop where
  network : s.network = { base with generation := s.network.generation }
  bounds : s.bounds = Bounds.ofProblem p
  pool : s.pool.entries = #[]
  active : s.profile.maximumRange = .ok s.active

omit [RandomSource ρ] in
/-- Nothing is deferred where the bounds are those of the instance. -/
lemma Renewed.idle (renewed : s.Renewed p base) : s.Idle := by
  intro side
  rw [renewed.bounds]
  cases side <;> rfl

/-- Starting over leads back to the network and the bounds of the instance. -/
lemma Steady.reset (footing : Footing p F base) (h : s.Steady p F base kind) :
    s.reset.Ensures fun s' => s'.Steady p F base kind ∧ s'.Renewed p base := by
  unfold Solver.reset
  refine (h.updateBest footing).ensures.bind fun s₁ ⟨h₁, _⟩ => ?_
  refine Ensures.any.bind fun scorer _ => ?_
  dsimp only
  rw [Intact.network_restore footing h₁, Intact.bounds_reset footing h₁]
  refine (Intact.restart footing h₁ scorer _).ensures.bind ?_
  rintro s₂ ⟨same, intact⟩
  have network : s₂.network = { base with generation := s₁.network.generation + 1 } := by
    obtain ⟨profile, rfl⟩ := same
    rfl
  have bounds : s₂.bounds = Bounds.ofProblem p := by
    obtain ⟨profile, rfl⟩ := same
    rfl
  refine Ensures.same.bind fun active found => .pure ?_
  have steady : Steady p F base kind { s₂ with active, pool := s₂.pool.clear } := intact _ active
  refine ⟨steady.note _, ?_, ?_, ?_, ?_⟩
  · rw [network_note]
    dsimp only
    rw [network]
  · rw [bounds_note]
    exact bounds
  · rw [pool_note]
    rfl
  · rw [profile_note, active_note]
    exact found

end Solver

end Leveling
