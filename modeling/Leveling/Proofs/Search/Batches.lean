import Leveling.Proofs.Search.Sweeping
import Mathlib.Data.Nat.ModEq

/-!
# The batched scan meets the pairs of the full scan

The batched scan numbers the ordered pairs of jobs: the pair with number `k` starts at place `k % n` of
the list of the `n` jobs of the range, and its second job stands `k / n + 1` places behind the first one,
where the list is closed to a ring.  A number determines both places and is determined by them, so from
zero to `n * (n - 1)` each ordered pair of different jobs is looked at once (`nodup_ordered`,
`mem_ordered`), in whatever order the jobs were shuffled.

A batch looks at the numbers from the one where the last batch ended up to the one where it ends itself
(`Batched`).  The jobs are shuffled before the first number only, so all batches speak of the same order
of the jobs, and put together they have looked at all numbers once.
-/

namespace Leveling

open Checked

namespace CandidatePool

variable {ρ α : Type} [RandomSource ρ] [Scalar α] {b : Bounds} {range : Span}
  {pool pool' : CandidatePool α} {scorer : Scorer ρ α} {jobs jobs' : Array Nat}
  {n i j k lo mid hi size s t : Nat}

/-! ## The numbers of the pairs -/

/-- The places of the pair with a number are those of no other pair. -/
lemma number_unique {k' : Nat} (hk : k < n * (n - 1)) (hk' : k' < n * (n - 1))
    (first : k % n = k' % n)
    (second : (k % n + (k / n + 1)) % n = (k' % n + (k' / n + 1)) % n) : k = k' := by
  have some_jobs : 0 < n := Nat.pos_of_mul_pos_right (Nat.zero_lt_of_lt hk)
  have place : k % n < n := Nat.mod_lt _ some_jobs
  have turn : k / n < n - 1 := Nat.div_lt_of_lt_mul hk
  have turn' : k' / n < n - 1 := Nat.div_lt_of_lt_mul hk'
  rw [← first] at second
  have turns : k / n + 1 = k' / n + 1 :=
    (Nat.ModEq.add_left_cancel' _ second).eq_of_lt_of_lt (by omega) (by omega)
  rw [← Nat.div_add_mod k n, ← Nat.div_add_mod k' n, Nat.succ.inj turns, first]

/-- Two different places are those of a pair. -/
lemma exists_number (hi : i < n) (hj : j < n) (ne : i ≠ j) :
    ∃ k < n * (n - 1), k % n = i ∧ (k % n + (k / n + 1)) % n = j := by
  -- The number of places from the first job to the second one, around the ring.
  obtain ⟨turn, short, reached⟩ : ∃ turn, turn + 1 < n ∧ (i + (turn + 1)) % n = j := by
    rcases Nat.lt_or_gt_of_ne ne with before | behind
    · refine ⟨j - i - 1, by omega, ?_⟩
      rw [Nat.mod_eq_of_lt (by omega)]
      omega
    · refine ⟨j + n - i - 1, by omega, ?_⟩
      rw [show i + (j + n - i - 1 + 1) = j + n by omega, Nat.add_mod_right, Nat.mod_eq_of_lt hj]
  have place : (n * turn + i) % n = i := by rw [Nat.mul_add_mod, Nat.mod_eq_of_lt hi]
  have turns : (n * turn + i) / n = turn := by
    rw [Nat.mul_add_div (by omega), Nat.div_eq_of_lt hi, Nat.add_zero]
  refine ⟨n * turn + i, ?_, place, ?_⟩
  · calc n * turn + i < n * turn + n := Nat.add_lt_add_left hi _
      _ = n * (turn + 1) := (Nat.mul_succ n turn).symm
      _ ≤ n * (n - 1) := Nat.mul_le_mul_left n (by omega)
  · rw [place, turns, reached]

/-- The pair with a number. -/
def pairAt (jobs : Array Nat) (k : Nat) : Nat × Nat :=
  (jobs.getD (k % jobs.size) 0, jobs.getD ((k % jobs.size + (k / jobs.size + 1)) % jobs.size) 0)

/-- The jobs of a pair are listed at its places. -/
lemma pairAt_eq (inside : k < jobs.size * (jobs.size - 1)) :
    fetch jobs (k % jobs.size) = .ok (pairAt jobs k).1 ∧
      fetch jobs ((k % jobs.size + (k / jobs.size + 1)) % jobs.size) = .ok (pairAt jobs k).2 ∧
      (pairAt jobs k).1 ∈ jobs.toList ∧ (pairAt jobs k).2 ∈ jobs.toList := by
  obtain ⟨first, second, -⟩ := places_of_pair inside
  have entry : ∀ {i}, i < jobs.size → fetch jobs i = .ok (jobs.getD i 0) ∧ jobs.getD i 0 ∈ jobs.toList := by
    intro i hi
    rw [Array.getD_eq_getD_getElem?, Array.getElem?_eq_getElem hi, Option.getD_some]
    exact ⟨fetch_of_lt hi, Array.mem_toList_iff.2 (Array.getElem_mem hi)⟩
  exact ⟨(entry first).1, (entry second).1, (entry first).2, (entry second).2⟩

/-- All ordered pairs of the jobs, in the order of the scan. -/
def ordered (jobs : Array Nat) : List (Nat × Nat) :=
  (List.range (jobs.size * (jobs.size - 1))).map (pairAt jobs)

/-- No pair of different jobs has two numbers. -/
lemma nodup_ordered (distinct : jobs.toList.Nodup) : (ordered jobs).Nodup := by
  refine List.Nodup.map_on (fun k hk k' hk' same => ?_) List.nodup_range
  have inside := List.mem_range.1 hk
  have inside' := List.mem_range.1 hk'
  have places : ∀ {i j}, i < jobs.size → j < jobs.size → jobs.getD i 0 = jobs.getD j 0 → i = j := by
    intro i j hi hj same
    rw [Array.getD_eq_getD_getElem?, Array.getD_eq_getD_getElem?, Array.getElem?_eq_getElem hi,
      Array.getElem?_eq_getElem hj] at same
    exact (List.Nodup.getElem_inj_iff distinct).1 same
  obtain ⟨first, second, -⟩ := places_of_pair inside
  obtain ⟨first', second', -⟩ := places_of_pair inside'
  obtain ⟨sources, targets⟩ := Prod.mk.inj same
  exact number_unique inside inside' (places first first' sources) (places second second' targets)

/-- A pair has a number if and only if it joins different jobs of the list. -/
lemma mem_ordered (distinct : jobs.toList.Nodup) :
    (s, t) ∈ ordered jobs ↔ s ≠ t ∧ s ∈ jobs.toList ∧ t ∈ jobs.toList := by
  unfold ordered
  rw [List.mem_map]
  constructor
  · rintro ⟨k, member, same⟩
    have inside := List.mem_range.1 member
    obtain ⟨first, second, hs, ht⟩ := pairAt_eq inside
    rw [same] at first second hs ht
    refine ⟨fun alike => ?_, hs, ht⟩
    obtain ⟨hi, source⟩ := fetch_eq_ok_iff.1 first
    obtain ⟨hj, target⟩ := fetch_eq_ok_iff.1 second
    have same_job : jobs.toList[(k % jobs.size + (k / jobs.size + 1)) % jobs.size] =
        jobs.toList[k % jobs.size] := target.trans (alike.symm.trans source.symm)
    exact (places_of_pair inside).2.2 (distinct.getElem_inj_iff.1 same_job)
  · rintro ⟨ne, hs, ht⟩
    obtain ⟨i, hi, source⟩ := List.getElem_of_mem hs
    obtain ⟨j, hj, target⟩ := List.getElem_of_mem ht
    have apart : i ≠ j := by
      rintro rfl
      exact ne (source.symm.trans target)
    obtain ⟨k, inside, first, second⟩ := exists_number hi hj apart
    rw [Array.length_toList] at inside
    obtain ⟨source', target', -⟩ := pairAt_eq inside
    refine ⟨k, List.mem_range.2 inside, Prod.ext ?_ ?_⟩
    · rw [Array.length_toList] at first
      rw [first, fetch_of_lt hi] at source'
      exact (Except.ok.inj source').symm.trans source
    · rw [Array.length_toList] at second
      rw [second, fetch_of_lt hj] at target'
      exact (Except.ok.inj target').symm.trans target

/-- The pairs with the numbers from `lo` on, up to `hi` without it, that overlap and fit. -/
def offered (b : Bounds) (jobs : Array Nat) (lo hi : Nat) : List (Nat × Nat) :=
  ((List.range' lo (hi - lo)).map (pairAt jobs)).filter fun p =>
    b.overlap p.1 p.2 = .ok true ∧ b.fitsAfter p.1 p.2 = .ok true

/-- There are no numbers from a number up to itself. -/
lemma offered_self : offered b jobs lo lo = [] := by
  unfold offered
  rw [Nat.sub_self]
  rfl

/-- The pairs up to a number and those from there on. -/
lemma offered_append (first : lo ≤ mid) (second : mid ≤ hi) :
    offered b jobs lo mid ++ offered b jobs mid hi = offered b jobs lo hi := by
  unfold offered
  rw [← List.filter_append, ← List.map_append, show hi - lo = (mid - lo) + (hi - mid) by omega,
    ← List.range'_append_1, show lo + (mid - lo) = mid by omega]

/-- The pairs from a number on start with the pair that has it. -/
lemma offered_cons (more : lo < hi) : offered b jobs lo hi =
    (if b.overlap (pairAt jobs lo).1 (pairAt jobs lo).2 = .ok true then
      b.fitting (pairAt jobs lo).1 (pairAt jobs lo).2 else []) ++ offered b jobs (lo + 1) hi := by
  rw [← offered_append (Nat.le_succ lo) more]
  congr 1
  unfold offered Bounds.fitting
  rw [Nat.succ_eq_add_one, Nat.add_sub_cancel_left, List.range'_one, List.map_singleton, List.filter_cons,
    List.filter_nil]
  by_cases overlaps : b.overlap (pairAt jobs lo).1 (pairAt jobs lo).2 = .ok true
  · simp only [overlaps, true_and, if_true, decide_eq_true_iff]
  · simp only [overlaps, false_and, if_false, decide_false, Bool.false_eq_true]

/-- The pairs of some numbers are among those of all numbers. -/
lemma offered_subset (first : lo ≤ mid) (second : mid ≤ hi) :
    offered b jobs lo mid ⊆ offered b jobs 0 hi := by
  intro p member
  rw [← offered_append (Nat.zero_le lo) (first.trans second), ← offered_append first second]
  exact List.mem_append_right _ (List.mem_append_left _ member)

/-- The pairs of all numbers are those that are offered in the range, each of them once. -/
lemma offered_all (distinct : jobs.toList.Nodup)
    (mem_iff : ∀ v, v ∈ jobs.toList ↔ b.RunsIn range v) :
    (offered b jobs 0 (jobs.size * (jobs.size - 1))).Nodup ∧
      ∀ s t, (s, t) ∈ offered b jobs 0 (jobs.size * (jobs.size - 1)) ↔ b.Offers range s t := by
  have all : offered b jobs 0 (jobs.size * (jobs.size - 1)) = (ordered jobs).filter fun p =>
      b.overlap p.1 p.2 = .ok true ∧ b.fitsAfter p.1 p.2 = .ok true := by
    unfold offered ordered
    rw [List.range_eq_range', Nat.sub_zero]
  rw [all]
  refine ⟨(nodup_ordered distinct).filter _, fun s t => ?_⟩
  rw [List.mem_filter, mem_ordered distinct, mem_iff, mem_iff, decide_eq_true_iff]
  unfold Bounds.Offers
  rw [and_assoc, and_assoc]

/-! ## Batches -/

omit [Scalar α] in
/-- A pool has as many pairs as candidates. -/
lemma length_pairs : pool.pairs.length = pool.entries.size := by
  unfold CandidatePool.pairs
  rw [List.length_map, Array.length_toList]

/-- What the scan has looked at when it stops: all pairs from one number up to another, which is the last
one unless the pool is full. -/
structure Scanned (b : Bounds) (jobs : Array Nat) (size scanned : Nat) (pool pool' : CandidatePool α) :
    Prop where
  listed : pool'.jobs = pool.jobs
  pairs : pool'.pairs = pool.pairs ++ offered b jobs scanned pool'.scanned
  onward : scanned ≤ pool'.scanned
  inside : pool'.scanned ≤ jobs.size * (jobs.size - 1)
  small : pool'.entries.size ≤ max size pool.entries.size
  full : pool'.scanned < jobs.size * (jobs.size - 1) → size ≤ pool'.entries.size

variable {scanned : Nat}

omit [Scalar α] in
/-- The scan stops after the last pair and when the pool is full. -/
lemma Scanned.nil (inside : scanned ≤ jobs.size * (jobs.size - 1))
    (done : ¬(scanned < jobs.size * (jobs.size - 1) ∧ pool.entries.size < size)) :
    Scanned b jobs size scanned pool { pool with scanned } := by
  refine ⟨rfl, ?_, le_rfl, inside, Nat.le_max_right _ _, fun more => ?_⟩
  · rw [offered_self, List.append_nil]
    rfl
  · exact Nat.not_lt.1 fun room => done ⟨more, room⟩

omit [Scalar α] in
/-- Otherwise it looks at a pair and goes on. -/
lemma Scanned.cons {pool'' : CandidatePool α} (room : pool.entries.size < size)
    (added : Added pool (if b.overlap (pairAt jobs scanned).1 (pairAt jobs scanned).2 = .ok true then
      b.fitting (pairAt jobs scanned).1 (pairAt jobs scanned).2 else []) pool')
    (rest : Scanned b jobs size (scanned + 1) pool' pool'') :
    Scanned b jobs size scanned pool pool'' := by
  have one : pool'.entries.size ≤ pool.entries.size + 1 := by
    rw [← length_pairs, ← length_pairs, added.pairs, List.length_append]
    refine Nat.add_le_add_left ?_ _
    unfold Bounds.fitting
    split
    · split
      · exact le_rfl
      · exact Nat.zero_le _
    · exact Nat.zero_le _
  have small := rest.small
  refine ⟨rest.listed.trans added.jobs, ?_, Nat.le_of_succ_le rest.onward, rest.inside, by omega,
    rest.full⟩
  rw [rest.pairs, added.pairs, offered_cons rest.onward, List.append_assoc]

omit [RandomSource ρ] in
/-- The scan looks at pairs until there are no more or the pool is full. -/
lemma scanFrom_ensures : ∀ (pool : CandidatePool α) (scorer : Scorer ρ α),
    scanned ≤ jobs.size * (jobs.size - 1) →
      (scanFrom b jobs (jobs.size * (jobs.size - 1)) size scanned pool scorer).Ensures fun r =>
        Scanned b jobs size scanned pool r.1 := by
  -- The induction is on the number of pairs that are left.
  induction rest : jobs.size * (jobs.size - 1) - scanned generalizing scanned with
  | zero =>
    intro pool scorer within
    unfold CandidatePool.scanFrom
    rw [dif_neg (by omega)]
    exact .pure (.nil within (by omega))
  | succ left ih =>
    intro pool scorer within
    unfold CandidatePool.scanFrom
    split
    · rename_i more
      obtain ⟨first, second, -⟩ := pairAt_eq more.1
      dsimp only
      rw [first, ok_bind, second, ok_bind]
      refine Ensures.same.bind fun overlaps answer => ?_
      have step : ∀ {pool' : CandidatePool α} (scorer' : Scorer ρ α), Added pool
          (if overlaps = true then b.fitting (pairAt jobs scanned).1 (pairAt jobs scanned).2 else [])
            pool' →
          (scanFrom b jobs (jobs.size * (jobs.size - 1)) size (scanned + 1) pool' scorer').Ensures fun r =>
            Scanned b jobs size scanned pool r.1 := by
        intro pool' scorer' added
        refine (ih (by omega) pool' scorer' more.1).imp fun r scanned => scanned.cons more.2 ?_
        simpa only [answer, Except.ok.injEq] using added
      cases overlaps with
      | true => exact (addFitting_ensures pool scorer).bind fun r added => step r.2 added
      | false => exact step scorer .nil
    · rename_i done
      exact .pure (.nil within done)

/-- What a batch does from the state that another one has left: it fills the emptied pool with pairs of
the numbers that come next, and shuffles the jobs only if it looks at the first number. -/
structure Batched (b : Bounds) (size : Nat) (pool pool' : CandidatePool α) : Prop where
  perm : pool'.jobs.toList.Perm pool.jobs.toList
  kept : 0 < pool.scanned → pool'.jobs = pool.jobs
  pairs : pool'.pairs = offered b pool'.jobs pool.scanned pool'.scanned
  onward : pool.scanned ≤ pool'.scanned
  inside : pool'.scanned ≤ pool'.jobs.size * (pool'.jobs.size - 1)
  small : pool'.entries.size ≤ size
  full : pool'.scanned < pool'.jobs.size * (pool'.jobs.size - 1) → size ≤ pool'.entries.size

/-- A scan of the jobs in the order in which they are listed from now on is a batch. -/
lemma batched_of_scanned (pool : CandidatePool α)
    (scanned : Scanned b jobs size pool.scanned { pool.clear with jobs } pool')
    (perm : jobs.toList.Perm pool.jobs.toList) (kept : 0 < pool.scanned → jobs = pool.jobs) :
    Batched b size pool pool' := by
  obtain ⟨listed, pairs, onward, inside, small, full⟩ := scanned
  obtain rfl : pool'.jobs = jobs := listed
  exact ⟨perm, kept, pairs, onward, inside, small.trans (max_le le_rfl (Nat.zero_le _)), full⟩

/-- A batch goes on where the last one ended. -/
lemma buildBatch_ensures (pool : CandidatePool α) (b : Bounds) (scorer : Scorer ρ α)
    (inside : pool.scanned ≤ pool.jobs.size * (pool.jobs.size - 1)) (size : Nat) (randomize : Bool)
    (source : ρ) : (pool.buildBatch b scorer size randomize source).Ensures fun r =>
      Batched b size pool r.1 := by
  obtain ⟨none, few⟩ | ⟨jobs, source', perm, kept, scan⟩ :=
    buildBatch_eq pool b scorer size randomize source
  · have all : pool.jobs.size * (pool.jobs.size - 1) = 0 := by
      rw [Nat.mul_eq_zero]
      omega
    rw [none]
    exact .pure ⟨.refl _, fun _ => rfl, offered_self.symm, le_rfl, inside, Nat.zero_le _,
      fun more => absurd (all ▸ more) (Nat.not_lt_zero _)⟩
  · have same : jobs.size = pool.jobs.size := perm.length_eq
    rw [scan]
    refine (pairCount_answersIf jobs.size).ensures.bind fun total all => ?_
    subst all
    refine (scanFrom_ensures _ _ ?_).bind fun r scanned =>
      .pure (batched_of_scanned pool scanned perm kept)
    rw [same]
    exact inside

omit [Scalar α] in
/-- A batch is left as long as there are numbers that were not looked at. -/
lemma hasBatchLeft_iff :
    pool.hasBatchLeft = true ↔ pool.scanned < pool.jobs.size * (pool.jobs.size - 1) := by
  unfold hasBatchLeft
  dsimp only
  rw [Bool.and_eq_true, decide_eq_true_iff, decide_eq_true_iff]
  refine and_iff_right_of_imp fun more => ?_
  have several : 0 < pool.jobs.size - 1 := Nat.pos_of_mul_pos_left (Nat.zero_lt_of_lt more)
  omega

omit [Scalar α] in
/-- It is found out whether a batch is left, unless there are too many jobs. -/
lemma batchPending_answersIf (pool : CandidatePool α) :
    pool.batchPending.AnswersIf (pool.jobs.size ≤ 4294967296) (· = pool.hasBatchLeft) := by
  unfold batchPending hasBatchLeft
  dsimp only
  by_cases several : 2 ≤ pool.jobs.size
  · rw [if_neg (Nat.not_lt.2 several), decide_eq_true several, Bool.true_and]
    exact (pairCount_answersIf _).bind fun total all => .pure (by rw [all])
  · rw [if_pos (Nat.lt_of_not_le several), decide_eq_false several, Bool.false_and]
    exact .pure rfl

omit [RandomSource ρ] [Scalar α] in
/-- A batch that has room for a candidate looks at a pair if there is one. -/
lemma Batched.advances (batched : Batched b size pool pool') (positive : 0 < size)
    (more : pool.scanned < pool'.jobs.size * (pool'.jobs.size - 1)) :
    pool.scanned < pool'.scanned := by
  refine lt_of_le_of_ne batched.onward fun same => ?_
  have full := batched.full (same ▸ more)
  rw [← length_pairs, batched.pairs, ← same, offered_self] at full
  exact absurd (positive.trans_le full) (Nat.lt_irrefl 0)

/-- Batches, each of which goes on where the last one ended, until none is left.  At most `count` batches
are made. -/
def batches (b : Bounds) (size : Nat) (randomize : Bool) :
    (count : Nat) → CandidatePool α → Scorer ρ α → ρ → Checked (List (CandidatePool α))
  | 0, _, _, _ => .ok []
  | count + 1, pool, scorer, source => do
    if ← pool.batchPending then
      let (pool, scorer, source) ← pool.buildBatch b scorer size randomize source
      return pool :: (← batches b size randomize count pool scorer source)
    else return []

/-- The pools of all batches that follow a pool. -/
structure Follows (b : Bounds) (size : Nat) (pool : CandidatePool α) (pools : List (CandidatePool α)) :
    Prop where
  stops : pool.hasBatchLeft = false → pools = []
  ends : (pools.getLastD pool).hasBatchLeft = false
  few : pools.length ≤ pool.jobs.size * (pool.jobs.size - 1) - pool.scanned
  small : ∀ pool' ∈ pools, pool'.entries.size ≤ size
  barren : ∀ before last after, pools = before ++ last :: after → last.entries.size = 0 → after = []
  pairs : ∃ jobs : Array Nat, jobs.toList.Perm pool.jobs.toList ∧ (0 < pool.scanned → jobs = pool.jobs) ∧
    pools.flatMap CandidatePool.pairs = offered b jobs pool.scanned (jobs.size * (jobs.size - 1))

omit [Scalar α] in
/-- Nothing follows the last batch. -/
lemma follows_nil (none : pool.hasBatchLeft = false)
    (inside : pool.scanned ≤ pool.jobs.size * (pool.jobs.size - 1)) : Follows b size pool [] := by
  have done : pool.scanned = pool.jobs.size * (pool.jobs.size - 1) := by
    refine le_antisymm inside (not_lt.1 fun more => ?_)
    rw [hasBatchLeft_iff.2 more] at none
    cases none
  refine ⟨fun _ => rfl, none, Nat.zero_le _, fun _ member => absurd member List.not_mem_nil,
    fun before last after split => ?_, pool.jobs, .refl _, fun _ => rfl, ?_⟩
  · exact absurd split.symm (List.append_ne_nil_of_right_ne_nil _ (List.cons_ne_nil _ _))
  · rw [done, offered_self]
    rfl

omit [Scalar α] in
/-- The batches that follow a batch. -/
lemma Follows.cons {pools : List (CandidatePool α)} (batched : Batched b size pool pool')
    (positive : 0 < size) (more : pool.scanned < pool.jobs.size * (pool.jobs.size - 1))
    (follows : Follows b size pool' pools) : Follows b size pool (pool' :: pools) := by
  have same : pool'.jobs.size = pool.jobs.size := batched.perm.length_eq
  have onward := batched.advances positive (same.symm ▸ more)
  refine ⟨fun none => ?_, ?_, ?_, fun other member => ?_, fun before last after split empty => ?_, ?_⟩
  · rw [hasBatchLeft_iff.2 more] at none
    cases none
  · rw [List.getLastD_cons]
    exact follows.ends
  · have few := follows.few
    rw [same] at few
    rw [List.length_cons]
    omega
  · rcases List.mem_cons.1 member with rfl | later
    · exact batched.small
    · exact follows.small other later
  · cases before with
    | nil =>
      obtain ⟨rfl, rfl⟩ := List.cons.inj split
      refine follows.stops (Bool.eq_false_iff.2 fun left => ?_)
      have full := batched.full (hasBatchLeft_iff.1 left)
      omega
    | cons first before => exact follows.barren before last after (List.cons.inj split).2 empty
  · obtain ⟨jobs, -, kept, pairs⟩ := follows.pairs
    obtain rfl := kept (Nat.zero_lt_of_lt onward)
    refine ⟨pool'.jobs, batched.perm, batched.kept, ?_⟩
    rw [List.flatMap_cons, pairs, batched.pairs, offered_append batched.onward batched.inside]

/-- Batches are made until none is left. -/
lemma batches_ensures (positive : 0 < size) (randomize : Bool) {count : Nat} :
    ∀ {pool : CandidatePool α} (scorer : Scorer ρ α) (source : ρ),
      pool.scanned ≤ pool.jobs.size * (pool.jobs.size - 1) →
      pool.jobs.size * (pool.jobs.size - 1) - pool.scanned ≤ count →
        (batches b size randomize count pool scorer source).Ensures (Follows b size pool) := by
  induction count with
  | zero =>
    intro pool scorer source inside enough
    refine .pure (follows_nil (Bool.eq_false_iff.2 fun left => ?_) inside)
    have more := hasBatchLeft_iff.1 left
    omega
  | succ count ih =>
    intro pool scorer source inside enough
    unfold batches
    refine pool.batchPending_answersIf.ensures.bind fun pending same => ?_
    split
    · rename_i left
      have more := hasBatchLeft_iff.1 (same.symm.trans left)
      refine (buildBatch_ensures pool b scorer inside size randomize source).bind ?_
      rintro ⟨pool', scorer', source'⟩ batched
      have same : pool'.jobs.size = pool.jobs.size := batched.perm.length_eq
      have onward := batched.advances positive (same.symm ▸ more)
      refine (ih scorer' source' batched.inside ?_).bind fun pools follows =>
        .pure (follows.cons batched positive more)
      rw [same]
      omega
    · rename_i none
      exact .pure (follows_nil (same.symm.trans (Bool.eq_false_iff.2 none)) inside)

/-- If the scorer responds, only a finish that is no time stops the batches, or more pairs than can be
counted. -/
lemma batches_answersIf (h : b.Tabled) (size : Nat) (randomize : Bool) {count : Nat} :
    ∀ {pool : CandidatePool α} {scorer : Scorer ρ α} (source : ρ),
      (∀ v ∈ pool.jobs.toList, v < b.numJobs) → pool.jobs.size ≤ b.numJobs →
      pool.scanned ≤ pool.jobs.size * (pool.jobs.size - 1) → scorer.Responds b.numJobs →
        (batches b size randomize count pool scorer source).AnswersIf
          (b.Timed ∧ b.numJobs ≤ 4294967296) fun _ => True := by
  induction count with
  | zero => exact fun _ _ _ _ _ => .ok trivial
  | succ count ih =>
    intro pool scorer source jobs fewer inside responds
    unfold batches
    refine (pool.batchPending_answersIf.mono fun safe => fewer.trans safe.2).bind fun pending _ => ?_
    split
    · have batch := (buildBatch_answersIf (fun _ responds _ hs _ ht => responds.score hs ht) h jobs
        responds size randomize source).mono fun safe : b.Timed ∧ b.numJobs ≤ 4294967296 =>
          ⟨safe.1, fewer.trans safe.2⟩
      refine (batch.and_ensures (buildBatch_ensures pool b scorer inside size randomize source)).bind ?_
      rintro ⟨pool', scorer', source'⟩ ⟨responds', batched⟩
      have same : pool'.jobs.size = pool.jobs.size := batched.perm.length_eq
      exact (ih source' (fun v member => jobs v (batched.perm.subset member)) (same.trans_le fewer)
        batched.inside responds').bind fun _ _ => .pure trivial
    · exact .pure trivial

/-- The full scan of a range, and all batches of the range one after the other. -/
def scanBothWays (b : Bounds) (range : Span) (size : Nat) (randomize : Bool) (count : Nat)
    (pool : CandidatePool α) (scorer : Scorer ρ α) (source : ρ) :
    Checked (CandidatePool α × CandidatePool α × List (CandidatePool α)) := do
  let collected ← pool.collect b range
  let full ← collected.buildFull b scorer
  let pools ← batches b size randomize count collected scorer source
  return (collected, full.1, pools)

/-- The batches after the jobs of a range were collected, compared to the full scan. -/
structure Partition (size : Nat) (collected full : CandidatePool α) (pools : List (CandidatePool α)) :
    Prop where
  /-- The batches come to an end, after a number of batches that is known in advance. -/
  ends : (pools.getLastD collected).hasBatchLeft = false
  few : pools.length ≤ collected.jobs.size * (collected.jobs.size - 1)
  small : ∀ pool ∈ pools, pool.entries.size ≤ size
  /-- Each pair of the full scan is in one of the pools, once, and there are no other pairs. -/
  nodup : (pools.flatMap pairs).Nodup
  perm : (pools.flatMap pairs).Perm full.pairs
  /-- If a pool is empty it is the last one, and all pairs are in the pools before it. -/
  barren : ∀ before last after, pools = before ++ last :: after → last.isEmpty = true →
    after = [] ∧ (before.flatMap pairs).Perm full.pairs

omit [Scalar α] in
/-- There are not more jobs in a range than there are jobs. -/
lemma Gathers.size_le (gathers : pool.Gathers b range) : pool.jobs.size ≤ b.numJobs :=
  length_le_of_nodup gathers.nodup gathers.inside

omit [Scalar α] in
/-- The batches that follow a collection of jobs partition the full scan of these jobs. -/
lemma Follows.partition {pools : List (CandidatePool α)} {full : CandidatePool α}
    (follows : Follows b size pool pools) (gathers : pool.Gathers b range) (begins : pool.scanned = 0)
    (distinct : full.pairs.Nodup) (mem_full : ∀ s t, (s, t) ∈ full.pairs ↔ b.Offers range s t) :
    Partition size pool full pools := by
  obtain ⟨jobs, perm, -, pairs_eq⟩ := follows.pairs
  rw [begins] at pairs_eq
  have runs : ∀ v, v ∈ jobs.toList ↔ b.RunsIn range v := fun v => perm.mem_iff.trans (gathers.mem_iff v)
  obtain ⟨distinct', mem_iff⟩ := offered_all (perm.nodup_iff.2 gathers.nodup) runs
  have same : (pools.flatMap CandidatePool.pairs).Perm full.pairs := by
    rw [pairs_eq]
    refine (List.perm_ext_iff_of_nodup distinct' distinct).2 fun ⟨s, t⟩ => ?_
    rw [mem_iff, mem_full]
  refine ⟨follows.ends, follows.few.trans (Nat.sub_le _ _), follows.small, pairs_eq ▸ distinct', same, ?_⟩
  intro before last after split empty
  have nothing : last.entries.size = 0 := by
    unfold isEmpty at empty
    rwa [Array.isEmpty_iff_size_eq_zero] at empty
  have ended := follows.barren before last after split nothing
  have none : last.pairs = [] := List.eq_nil_of_length_eq_zero (length_pairs.trans nothing)
  refine ⟨ended, ?_⟩
  rwa [split, ended, List.flatMap_append, List.flatMap_singleton, none, List.append_nil] at same

/-- **The batched scan.**  Whatever the bounds, the range, the size of the batches, the scorer and the
random source are, the batches that follow a collection of jobs partition the full scan of these jobs.
If the scorer responds, nothing stops the scans but a finish that is no time, or more pairs than can be
counted. -/
theorem batches_partition_full_scan (tabled : b.Tabled) (range : Span) (positive : 0 < size)
    (randomize : Bool) {count : Nat} (enough : b.numJobs * (b.numJobs - 1) ≤ count)
    (pool : CandidatePool α) (scorer : Scorer ρ α) (source : ρ) :
    ((scanBothWays b range size randomize count pool scorer source).Ensures fun r =>
      Partition size r.1 r.2.1 r.2.2) ∧
    (scorer.Responds b.numJobs →
      (scanBothWays b range size randomize count pool scorer source).AnswersIf
        (b.Timed ∧ b.numJobs ≤ 4294967296) fun _ => True) := by
  have collect := collect_answersIf tabled pool range
  unfold scanBothWays
  refine ⟨collect.ensures.bind fun collected ⟨gathers, begins, _⟩ => ?_, fun responds =>
    (collect.mono And.left).bind fun collected ⟨gathers, begins, _⟩ => ?_⟩
  · have inside : collected.scanned ≤ collected.jobs.size * (collected.jobs.size - 1) := by
      rw [begins]
      exact Nat.zero_le _
    have fewer : collected.jobs.size * (collected.jobs.size - 1) ≤ count :=
      (Nat.mul_le_mul gathers.size_le (Nat.sub_le_sub_right gathers.size_le 1)).trans enough
    refine (gathers.buildFull_ensures tabled scorer).bind fun full ⟨_, distinct, mem_full⟩ => ?_
    refine (batches_ensures positive randomize scorer source inside
      ((Nat.sub_le _ _).trans fewer)).bind fun pools follows => .pure ?_
    exact follows.partition gathers begins distinct mem_full
  · have inside : collected.scanned ≤ collected.jobs.size * (collected.jobs.size - 1) := by
      rw [begins]
      exact Nat.zero_le _
    refine ((gathers.buildFull_answersIf tabled responds).mono And.left).bind fun full _ => ?_
    exact (batches_answersIf tabled size randomize source gathers.inside gathers.size_le inside
      responds).bind fun pools _ => .pure trivial

/-- The pairs of the four jobs come in batches of two, in a shuffled order. -/
theorem batches_partition_full_scan_quartet :
    (scanBothWays quartet ⟨0, 10⟩ 2 true 12 empty quartetScorer (RandomSource.ofSeed 3)).Answers
      fun r => Partition 2 r.1 r.2.1 r.2.2 := by
  have enough : quartet.numJobs * (quartet.numJobs - 1) ≤ 12 := by decide
  obtain ⟨parts, answers⟩ := batches_partition_full_scan quartet_tabled ⟨0, 10⟩ (show 0 < 2 by decide)
    true enough empty quartetScorer (RandomSource.ofSeed 3)
  exact (((answers quartetScorer_responds).answers ⟨quartet_timed, by decide⟩).and_ensures parts).imp
    fun r => And.right

end CandidatePool

end Leveling
