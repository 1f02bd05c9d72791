import Leveling.Proofs.Search.Batches
import Leveling.Proofs.Search.Operations

/-!
# The first candidate of a fresh pool is inserted

Candidates are collected by comparing the bounds of the jobs of the active range, and they are tested again
when they are drawn, because insertions may have moved the bounds in the meantime.  The two tests are made
in different ways: the full scan never asks whether two jobs overlap, and neither scan asks again whether
they run during the range.  As long as no bound moves they agree (`Stocked`), so the first candidate that
is drawn from a pool that was just filled is inserted, and it is the only one that is drawn.
-/

namespace Leveling

open Checked Network

namespace CandidatePool

variable {ρ α : Type} [RandomSource ρ] [Scalar α] {b : Bounds} {range : Span} {pool : CandidatePool α}
  {scorer : Scorer ρ α} {size : Nat}

/-! ## Drawing from a pool -/

omit [RandomSource ρ] in
/-- The position of a candidate that is picked is one of the list. -/
lemma pick_lt {remaining : α} {i position : Nat} {entries : List (Candidate α)}
    (picked : pick remaining i entries = some position) : position < i + entries.length := by
  induction entries generalizing remaining i with
  | nil => cases picked
  | cons c rest ih =>
    unfold pick at picked
    dsimp only at picked
    rw [List.length_cons]
    split at picked
    · cases picked
      omega
    · have later := ih picked
      omega

/-- The position that is drawn is one of the pool. -/
lemma drawPosition_lt (some_left : 0 < pool.entries.size) (weighted : Bool) (source : ρ) :
    (pool.drawPosition weighted source).1 < pool.entries.size := by
  unfold drawPosition
  split
  · dsimp only
    generalize picked : pick _ 0 pool.entries.toList = position
    cases position with
    | none => exact Nat.sub_one_lt_of_lt some_left
    | some position =>
      have inside := pick_lt picked
      rwa [Nat.zero_add, Array.length_toList] at inside
  · exact RandomSource.below_lt some_left source

/-- One of the candidates is drawn, unless the pool is empty. -/
lemma exists_draw (some_left : pool.isEmpty = false) (weighted : Bool) (source : ρ) :
    ∃ c pool' source', pool.draw weighted source = (some c, pool', source') ∧ c ∈ pool.entries := by
  have positive : 0 < pool.entries.size := by
    refine Nat.pos_of_ne_zero fun none => ?_
    have empty : pool.entries.isEmpty = true := Array.isEmpty_iff_size_eq_zero.2 none
    rw [show pool.isEmpty = true from empty] at some_left
    cases some_left
  have inside := drawPosition_lt positive weighted source
  unfold draw
  rw [if_neg (by rw [show pool.entries.isEmpty = false from some_left]; exact Bool.false_ne_true)]
  dsimp only
  rw [Array.getElem?_eq_getElem inside]
  exact ⟨_, _, _, rfl, Array.getElem_mem inside⟩

/-- Nothing is drawn from an empty pool. -/
lemma draw_of_isEmpty (none_left : pool.isEmpty = true) (weighted : Bool) (source : ρ) :
    pool.draw weighted source = (none, pool, source) :=
  if_pos none_left

omit [Scalar α] in
/-- A pair of the pool is the pair of one of its candidates. -/
lemma mem_pairs {s t : Nat} : (s, t) ∈ pool.pairs ↔ ∃ c ∈ pool.entries, c.source = s ∧ c.target = t := by
  unfold CandidatePool.pairs
  rw [List.mem_map]
  refine exists_congr fun c => ?_
  rw [Array.mem_toList_iff, Prod.mk.injEq]

omit [Scalar α] in
/-- A pool is empty if and only if it has no pairs. -/
lemma isEmpty_iff : pool.isEmpty = true ↔ pool.pairs = [] := by
  unfold isEmpty
  rw [Array.isEmpty_iff_size_eq_zero, ← length_pairs, List.length_eq_zero_iff]

end CandidatePool

namespace Solver

variable {ρ α : Type} [RandomSource ρ] [Scalar α] {p : Problem α} {F : Frame} {base : Network}
  {kind : String} {s s' : Solver ρ α} {source target : Nat}

omit [RandomSource ρ] [Scalar α] in
/-- Logging an event changes the log only. -/
lemma exists_log (s : Solver ρ α) (event : LogEvent α) : ∃ log, s.note event = { s with log } := by
  unfold note
  split
  · exact ⟨_, rfl⟩
  · exact ⟨s.log, rfl⟩

/-! ## Filling the pool -/

/-- The pool lists the jobs of the active range, and has pairs of them that are offered.  It is empty only
if none is offered. -/
structure Stocked (s : Solver ρ α) : Prop where
  gathers : s.pool.Gathers s.bounds s.active
  scanned_le : s.pool.scanned ≤ s.pool.jobs.size * (s.pool.jobs.size - 1)
  offers : ∀ c ∈ s.pool.entries, s.bounds.Offers s.active c.source c.target
  complete : s.pool.isEmpty = true → ∀ source target, ¬s.bounds.Offers s.active source target

/-- Nothing but the pool, the scorer, the stream of random numbers and the log has changed. -/
def Refilled (s s' : Solver ρ α) : Prop :=
  ∃ pool scorer random log, s' = { s with pool, scorer, random, log }

/-- The next batch has pairs that are offered.  The first batch is empty only if none is offered. -/
lemma nextBatch_ensures (gathers : s.pool.Gathers s.bounds s.active)
    (inside : s.pool.scanned ≤ s.pool.jobs.size * (s.pool.jobs.size - 1))
    (positive : 0 < s.config.batchSize) : s.nextBatch.Ensures fun s' => s.Refilled s' ∧
      (s'.pool.Gathers s.bounds s.active ∧
        s'.pool.scanned ≤ s'.pool.jobs.size * (s'.pool.jobs.size - 1)) ∧
      (∀ c ∈ s'.pool.entries, s.bounds.Offers s.active c.source c.target) ∧
      (s.pool.scanned = 0 → s'.pool.isEmpty = true →
        ∀ source target, ¬s.bounds.Offers s.active source target) := by
  unfold Solver.nextBatch
  refine (CandidatePool.buildBatch_ensures s.pool s.bounds s.scorer inside _ _ _).bind ?_
  rintro ⟨pool, scorer, random⟩ batched
  have gathers' := gathers.perm batched.perm
  obtain ⟨-, mem_iff⟩ := CandidatePool.offered_all gathers'.nodup gathers'.mem_iff
  refine .pure ⟨⟨pool, scorer, random, s.log, rfl⟩, ⟨gathers', batched.inside⟩, fun c member => ?_,
    fun begins empty source target offers => ?_⟩
  · have pair := CandidatePool.mem_pairs.2 ⟨c, member, rfl, rfl⟩
    rw [batched.pairs] at pair
    exact (mem_iff c.source c.target).1
      (CandidatePool.offered_subset batched.onward batched.inside pair)
  · have none : pool.pairs = [] := CandidatePool.isEmpty_iff.1 empty
    have full := batched.full
    rw [← CandidatePool.length_pairs, none, List.length_nil] at full
    have all : pool.scanned = pool.jobs.size * (pool.jobs.size - 1) :=
      batched.inside.eq_or_lt.resolve_right fun more => absurd (full more) (not_le.2 positive)
    have pair := (mem_iff source target).2 offers
    have pairs := batched.pairs
    rw [none, begins, all] at pairs
    rw [← pairs] at pair
    exact List.not_mem_nil pair

/-- Collecting candidates fills the pool with pairs that are offered, and it stays empty only if none
is. -/
lemma Steady.regenerate_stocks (h : s.Steady p F base kind) :
    s.regenerate.Ensures fun s' => s.Refilled s' ∧ s'.Stocked := by
  have tabled := h.consistent.tabled
  unfold Solver.regenerate
  refine (CandidatePool.collect_answersIf tabled s.pool s.active).ensures.bind
    fun pool ⟨gathers, begins, _⟩ => ?_
  dsimp only
  split
  · refine (gathers.buildFull_ensures tabled s.scorer).bind ?_
    rintro ⟨pool', scorer⟩ ⟨⟨gathers', scanned⟩, -, mem_iff⟩
    obtain ⟨log, noted⟩ := exists_log ({ s with pool := pool', scorer })
      (.collected pool'.entries.size pool'.jobs.size s.active)
    refine .pure ?_
    rw [noted]
    refine ⟨⟨pool', scorer, s.random, log, rfl⟩, gathers', ?_, fun c member => ?_,
      fun empty source target offers => ?_⟩
    · rw [scanned.trans begins]
      exact Nat.zero_le _
    · exact (mem_iff _ _).1 (CandidatePool.mem_pairs.2 ⟨c, member, rfl, rfl⟩)
    · have pair := (mem_iff source target).2 offers
      rw [CandidatePool.isEmpty_iff.1 empty] at pair
      exact List.not_mem_nil pair
  · rename_i some_size
    have inside : pool.scanned ≤ pool.jobs.size * (pool.jobs.size - 1) := by
      rw [begins]
      exact Nat.zero_le _
    refine (nextBatch_ensures (s := { s with pool }) gathers inside
      (Nat.pos_of_ne_zero some_size)).bind ?_
    rintro s₁ ⟨⟨pool', scorer, random, log, rfl⟩, ⟨gathers', inside'⟩, offers, complete⟩
    obtain ⟨log', noted⟩ := exists_log ({ s with pool := pool', scorer, random, log })
      (.collected pool'.entries.size pool'.jobs.size s.active)
    refine .pure ?_
    rw [noted]
    exact ⟨⟨pool', scorer, random, log', rfl⟩, gathers', inside', offers, complete begins⟩

/-! ## Inserting the first candidate -/

/-- The number of insertions, and whether the search is exhausted. -/
def ledger (s : Solver ρ α) : Nat × Bool := (s.counters.insertions, s.exhausted)

omit [RandomSource ρ] in
/-- Moving jobs changes the profile only. -/
lemma moveJobs_ensures (s : Solver ρ α) (jobs : List Nat) :
    (s.moveJobs jobs).Ensures fun s' => ∃ profile, s' = { s with profile } := by
  unfold Solver.moveJobs
  exact Ensures.any.bind fun profile _ => .pure ⟨profile, rfl⟩

omit [RandomSource ρ] in
/-- An insertion adds an arc with the duration of its source, and is counted. -/
lemma insertArc_ensures (s : Solver ρ α) (source target : Nat) (complete : Bool) :
    (s.insertArc source target complete).Ensures fun s' =>
      (∃ duration, s.bounds.duration source = .ok duration ∧
        s.network.insert source target duration false = .ok s'.network) ∧
      s'.ledger = (s.counters.insertions + 1, s.exhausted) := by
  unfold Solver.insertArc
  refine Ensures.any.bind fun start _ => Ensures.any.bind fun start' _ => ?_
  refine Ensures.any.bind fun finish _ => ?_
  obtain ⟨log, noted⟩ := exists_log
    { s with counters.insertions := s.counters.insertions + 1 } (.inserted source target start start' finish)
  dsimp only
  rw [noted]
  refine Ensures.same.bind fun duration found => Ensures.same.bind fun network inserted => ?_
  refine Ensures.any.bind fun early _ => Ensures.any.bind fun late _ => ?_
  refine (moveJobs_ensures _ _).imp ?_
  rintro s' ⟨profile, rfl⟩
  exact ⟨⟨duration, found, inserted⟩, rfl⟩

omit [RandomSource ρ] [Scalar α] in
/-- What is offered in the active range is admitted. -/
lemma admits_of_offers (offers : s.bounds.Offers s.active source target) :
    s.admits source target = .ok true := by
  obtain ⟨-, hs, ht, overlap, fits⟩ := offers
  unfold Solver.admits
  rw [overlap, ok_bind, hs.2, ok_bind, ht.2, ok_bind]
  exact fits

/-- The first candidate of a pool that was just filled is admitted, and it is inserted and no other one. -/
lemma Steady.insertsFirst (footing : Footing p F base) (h : s.Steady p F base kind)
    (stocked : s.Stocked) (some_left : s.pool.isEmpty = false) (complete : Bool) :
    ∃ c pool random, s.pool.draw (!s.scorer.isUniform) s.random = (some c, pool, random) ∧
      s.admits c.source c.target = .ok true ∧
      (s.insertDrawn complete).Answers fun s' =>
        (∃ duration, s.bounds.duration c.source = .ok duration ∧
          s'.network.edges = ⟨c.source, c.target, duration, false⟩ ::ₘ s.network.edges) ∧
        s'.ledger = (s.counters.insertions + 1, s.exhausted) := by
  obtain ⟨c, pool, random, drawn, member⟩ :=
    CandidatePool.exists_draw some_left (!s.scorer.isUniform) s.random
  have offers := stocked.offers c member
  have isAdmitted := admits_of_offers offers
  refine ⟨c, pool, random, drawn, isAdmitted, ?_⟩
  have chosen : s.drawAdmitted (!s.scorer.isUniform) s.pool s.random = .ok (some c, pool, random) := by
    rw [Solver.drawAdmitted.eq_def]
    split
    · rename_i nothing
      rw [drawn] at nothing
      cases nothing
    · rename_i c' pool' random' drawn'
      rw [drawn] at drawn'
      cases drawn'
      rw [isAdmitted, ok_bind, if_pos rfl]
      rfl
  obtain ⟨-, acyclic⟩ := h.unordered footing offers.1 isAdmitted
  have roomy := h.consistent.roomy
  have drawing : Steady p F base kind { s with pool, random } :=
    Intact.withPool h (h.pool.draw drawn).1 s.scorer random
  unfold Solver.insertDrawn
  rw [chosen, ok_bind]
  dsimp only
  rw [acyclic, ok_bind]
  refine ((drawing.insertArc footing (h.admitted offers.1 isAdmitted) complete).and_ensures
    (insertArc_ensures _ _ _ _)).imp ?_
  rintro s' ⟨-, ⟨duration, found, inserted⟩, counted⟩
  have hs : c.source < s.network.numJobs := roomy.size.symm ▸ (h.admitted offers.1 isAdmitted).source_lt
  have ht : c.target < s.network.numJobs := roomy.size.symm ▸ (h.admitted offers.1 isAdmitted).target_lt
  exact ⟨⟨duration, found, ((roomy.linked.insert hs ht duration false).of_eq_ok inserted).edges⟩, counted⟩

end Solver

end Leveling
