import Leveling.Proofs.Bounds.Offers
import Leveling.Proofs.Network.Lists
import Leveling.Proofs.Search.Scorers
import Leveling.Search.Candidates
import Mathlib.Data.List.Nodup

/-!
# Candidates are pairs of different jobs

The pool lists each job of the range once, and both scans pair jobs at different places of the list
only: the full scan a job with those that came before it, the batched scan the jobs at two places
whose distance is less than the length of the list.  So each candidate joins two different jobs,
and questions about bounds and scores are asked about jobs only.

What scans do to a pool and to a scorer is said once, of any property of pools that candidates between
different jobs keep, and of any property of scorers because of which they answer.
-/

namespace Leveling

open Checked

/-! ## Lists of slots and sorted lists -/

/-- Nothing new is in a list after an entry was taken out. -/
lemma mem_of_mem_swapRemove {β : Type} {xs : Array β} {i : Nat} {x : β}
    (member : x ∈ swapRemove xs i) : x ∈ xs := by
  by_cases inside : i < xs.size
  · obtain ⟨j, found⟩ := Array.mem_iff_getElem?.1 member
    rw [getElem?_swapRemove inside] at found
    split at found
    · cases found
    · split at found
      · exact Array.mem_of_getElem? found
      · exact Array.mem_of_getElem? found
  · unfold swapRemove at member
    rwa [dif_neg inside] at member

/-- Jobs that are sorted by a time are the same jobs. -/
lemma sorted_ensures {jobs : List Nat} (key : Nat → Checked Int)
    (before : Int × Nat → Int × Nat → Bool) :
    (do
      let keyed ← jobs.mapM fun job => do return (← key job, job)
      let sorted := keyed.mergeSort before
      return sorted.map Prod.snd : Checked (List Nat)).Ensures fun sorted => sorted.Perm jobs := by
  have names : ∀ {jobs : List Nat}, (jobs.mapM fun job => do return (← key job, job)).Ensures
      fun keyed => keyed.map Prod.snd = jobs := by
    intro jobs
    induction jobs with
    | nil => exact .pure rfl
    | cons job rest ih =>
      rw [List.mapM_cons]
      refine Ensures.bind (P := fun entry => entry.2 = job) ?_ fun entry named => ?_
      · exact Ensures.any.bind fun time _ => .pure rfl
      · exact ih.bind fun keyed others => .pure (List.cons_eq_cons.2 ⟨named, others⟩)
  refine names.bind fun keyed same => .pure ?_
  rw [← same]
  exact (List.mergeSort_perm keyed before).map Prod.snd

/-- Jobs beside times that are known. -/
lemma keyed_eq {jobs : List Nat} {key : Nat → Checked Int} {time : Nat → Int}
    (keys : ∀ v ∈ jobs, key v = .ok (time v)) :
    (jobs.mapM fun job => do return (← key job, job)) =
      (.ok (jobs.map fun job => (time job, job)) : Checked (List (Int × Nat))) :=
  mapM_eq_ok fun v member => by
    rw [keys v member]
    rfl

/-- Jobs are sorted by times that are known. -/
lemma sorted_answers {jobs : List Nat} {key : Nat → Checked Int} {time : Nat → Int}
    (keys : ∀ v ∈ jobs, key v = .ok (time v)) (before : Int × Nat → Int × Nat → Bool) :
    (do
      let keyed ← jobs.mapM fun job => do return (← key job, job)
      let sorted := keyed.mergeSort before
      return sorted.map Prod.snd : Checked (List Nat)).Answers fun sorted => sorted.Perm jobs := by
  refine Answers.imp (Answers.and_ensures (P := fun _ => True) ?_ (sorted_ensures key before))
    fun sorted both => both.2
  rw [keyed_eq keys]
  exact .pure trivial

namespace CandidatePool

variable {ρ α : Type} [RandomSource ρ] [Scalar α] {F : Frame} {net : Network} {b : Bounds}
  {hidden : Side → Nat → Int → Prop} {pool pool' : CandidatePool α} {scorer : Scorer ρ α}
  {n s t v : Nat}

/-- The listed jobs are different, and candidates join different jobs. -/
structure Orderly (n : Nat) (pool : CandidatePool α) : Prop where
  distinct : pool.jobs.toList.Nodup
  jobs : ∀ v ∈ pool.jobs.toList, v < n
  entries : ∀ c ∈ pool.entries, c.source < n ∧ c.target < n ∧ c.source ≠ c.target

/-- The empty pool is orderly. -/
lemma orderly_empty (n : Nat) : Orderly n (empty : CandidatePool α) :=
  ⟨List.nodup_nil, fun _ member => absurd member List.not_mem_nil,
    fun _ member => absurd member (Array.not_mem_empty _)⟩

/-- A pool without its candidates is orderly. -/
lemma Orderly.clear (h : pool.Orderly n) : pool.clear.Orderly n :=
  ⟨h.distinct, h.jobs, fun _ member => absurd member (Array.not_mem_empty _)⟩

/-! ## The jobs of the range -/

/-- The jobs that run in a range, unless one of them is finished at no time. -/
lemma jobsIn_answersIf (h : b.Tabled) (range : Span) {jobs : List Nat}
    (inside : ∀ v ∈ jobs, v < b.numJobs) :
    (jobsIn b range jobs).AnswersIf b.Timed fun found =>
      found = jobs.filter fun v => b.RunsIn range v := by
  induction jobs with
  | nil => exact .ok rfl
  | cons v rest ih =>
    have hv := inside v List.mem_cons_self
    have others := ih fun w member => inside w (List.mem_cons_of_mem _ member)
    have last : ∀ included : Bool, (included = true ↔ b.RunsIn range v) → (do
        let others ← jobsIn b range rest
        return if included then v :: others else others : Checked (List Nat)).AnswersIf b.Timed
          fun found => found = (v :: rest).filter fun v => b.RunsIn range v := by
      intro included same
      refine others.bind fun found rest_eq => .pure ?_
      simp only [List.filter_cons, decide_eq_true_iff, same, rest_eq]
    unfold jobsIn
    rw [Bounds.duration_eq hv, ok_bind]
    split
    · rename_i positive
      exact (h.intersects hv positive range).bind last
    · rename_i nothing
      refine last false ⟨fun isTrue => ?_, fun runs => absurd runs.positive.2 nothing⟩
      exact absurd isTrue Bool.false_ne_true

/-- The pool lists the jobs of a range, each of them once. -/
structure Gathers (b : Bounds) (range : Span) (pool : CandidatePool α) : Prop where
  nodup : pool.jobs.toList.Nodup
  mem_iff : ∀ v, v ∈ pool.jobs.toList ↔ b.RunsIn range v

omit [Scalar α] in
/-- The jobs of a range are collected, and the batched scan starts anew. -/
lemma collect_answersIf (h : b.Tabled) (pool : CandidatePool α) (range : Span) :
    (pool.collect b range).AnswersIf b.Timed fun pool' =>
      pool'.Gathers b range ∧ pool'.scanned = 0 ∧ pool'.entries = pool.entries := by
  unfold CandidatePool.collect
  refine (jobsIn_answersIf h range fun v => List.mem_range.1).bind fun jobs same => .pure ?_
  refine ⟨⟨?_, fun v => ?_⟩, rfl, rfl⟩
  · rw [same]
    exact List.nodup_range.filter _
  · rw [same, List.mem_filter, List.mem_range, decide_eq_true_iff]
    exact and_iff_right_of_imp fun runs => runs.positive.1

omit [Scalar α] in
/-- Only jobs of the bounds are listed. -/
lemma Gathers.inside (gathers : pool.Gathers b range) : ∀ v ∈ pool.jobs.toList, v < b.numJobs :=
  fun v member => ((gathers.mem_iff v).1 member).positive.1

omit [Scalar α] in
/-- The order in which the jobs are listed does not matter. -/
lemma Gathers.perm (gathers : pool.Gathers b range)
    (perm : pool'.jobs.toList.Perm pool.jobs.toList) : pool'.Gathers b range :=
  ⟨perm.nodup_iff.2 gathers.nodup, fun v => perm.mem_iff.trans (gathers.mem_iff v)⟩

omit [Scalar α] in
/-- The jobs of a range are collected in a pool that is in order. -/
lemma Orderly.collect (orderly : pool.Orderly F.size) (h : Consistent F hidden net b) (range : Span) :
    (pool.collect b range).AnswersIf b.Timed (Orderly F.size) := by
  refine (collect_answersIf h.tabled pool range).imp fun _ ⟨gathers, _, entries⟩ => ?_
  exact ⟨gathers.nodup, h.numJobs ▸ gathers.inside, entries ▸ orderly.entries⟩

/-! ## What the scans keep

Both scans change a pool by pushes only, and each candidate that they push joins jobs at two different
places of the list.  So they keep whatever such pushes keep. -/

omit [Scalar α] in
/-- No job is met anew when finished jobs are dropped. -/
lemma mem_of_mem_dropFinished {start : Int} {k : Nat} {running : Array Running} {r : Running}
    (member : r ∈ dropFinished start k running) : r ∈ running := by
  induction k, running using dropFinished.induct start with
  | case1 k running inside finished ih =>
    rw [dropFinished, dif_pos inside, if_pos finished] at member
    exact mem_of_mem_swapRemove (ih member)
  | case2 k running inside unfinished ih =>
    rw [dropFinished, dif_pos inside, if_neg unfinished] at member
    exact ih member
  | case3 k running outside =>
    rwa [dropFinished, dif_neg outside] at member

/-- Two places of a list at a distance less than its length are different. -/
lemma add_mod_ne {first step n : Nat} (inside : first < n) (positive : 0 < step)
    (short : step < n) : (first + step) % n ≠ first := by
  intro same
  by_cases within : first + step < n
  · rw [Nat.mod_eq_of_lt within] at same
    omega
  · rw [Nat.mod_eq_sub_mod (Nat.not_lt.1 within), Nat.mod_eq_of_lt (by omega)] at same
    omega

/-- The two places of a pair, by its number in the batched scan, are different places of the list. -/
lemma places_of_pair {n scanned : Nat} (more : scanned < n * (n - 1)) :
    scanned % n < n ∧ (scanned % n + (scanned / n + 1)) % n < n ∧
      (scanned % n + (scanned / n + 1)) % n ≠ scanned % n := by
  have some_jobs : 0 < n := by
    by_contra none
    rw [Nat.eq_zero_of_not_pos none, Nat.zero_mul] at more
    exact absurd more (Nat.not_lt_zero _)
  have first_lt : scanned % n < n := Nat.mod_lt _ some_jobs
  have step_lt : scanned / n + 1 < n := by
    have quotient : scanned / n < n - 1 := Nat.div_lt_of_lt_mul more
    omega
  exact ⟨first_lt, Nat.mod_lt _ some_jobs, add_mod_ne first_lt (Nat.succ_pos _) step_lt⟩

omit [Scalar α] in
/-- The pairs of jobs are counted unless there are too many jobs. -/
lemma pairCount_answersIf (n : Nat) : (pairCount n).AnswersIf (n ≤ 4294967296) (· = n * (n - 1)) := by
  refine .of_eq_or (asCount_eq_or _) (fun few => if_pos ?_) rfl
  calc n * (n - 1) ≤ 4294967296 * (4294967296 - 1) := Nat.mul_le_mul few (Nat.sub_le_sub_right few 1)
    _ < 18446744073709551616 := by decide

/-- A batch is a scan of the jobs, shuffled or not. -/
lemma buildBatch_eq (pool : CandidatePool α) (b : Bounds) (scorer : Scorer ρ α) (size : Nat)
    (randomize : Bool) (source : ρ) :
    pool.buildBatch b scorer size randomize source = .ok (pool.clear, scorer, source) ∧
        pool.jobs.size < 2 ∨
      ∃ jobs source', jobs.toList.Perm pool.jobs.toList ∧ (0 < pool.scanned → jobs = pool.jobs) ∧
        pool.buildBatch b scorer size randomize source = (do
          let total ← pairCount jobs.size
          let r ← scanFrom b jobs total size pool.scanned { pool.clear with jobs } scorer
          return (r.1, r.2, source')) := by
  unfold CandidatePool.buildBatch
  dsimp only
  by_cases few : pool.jobs.size < 2
  · exact .inl ⟨if_pos few, few⟩
  · refine .inr ?_
    rw [if_neg (show ¬pool.clear.jobs.size < 2 from few)]
    split
    · rename_i begins
      exact ⟨_, _, RandomSource.perm_shuffle pool.jobs source,
        fun positive => absurd begins.1 (Nat.ne_of_gt positive), rfl⟩
    · exact ⟨pool.jobs, source, .refl _, fun _ => rfl, rfl⟩

section

variable {Inv : CandidatePool α → Prop} {Joins : Nat → Nat → Prop}
  (symm : ∀ {s t : Nat}, Joins s t → Joins t s)
  (push : ∀ {pool : CandidatePool α} {s t : Nat} (weight : α), Joins s t → Inv pool →
    Inv (pool.push ⟨s, t, weight⟩))

include push

omit [RandomSource ρ] in
/-- A candidate is added by a push, or not at all. -/
lemma addFitting_keeps (joins : Joins s t) (h : Inv pool) :
    (addFitting b s t pool scorer).Ensures fun r => Inv r.1 := by
  unfold CandidatePool.addFitting add
  refine Ensures.any.bind fun fits _ => ?_
  split
  · split
    · exact .pure (push _ joins h)
    · exact Ensures.any.bind fun r _ => .pure (push _ joins h)
  · exact .pure h

include symm

omit [RandomSource ρ] in
/-- A job is joined with the running jobs by pushes. -/
lemma addPairs_keeps {running : List Running} :
    ∀ {pool : CandidatePool α} {scorer : Scorer ρ α}, (∀ r ∈ running, Joins r.job v) → Inv pool →
      (addPairs b v running pool scorer).Ensures fun r => Inv r.1 := by
  induction running with
  | nil => exact fun _ h => .pure h
  | cons other rest ih =>
    intro pool scorer joins h
    have joined := joins other List.mem_cons_self
    unfold CandidatePool.addPairs
    refine (addFitting_keeps push joined h).bind fun r₁ h₁ => ?_
    refine (addFitting_keeps push (symm joined) h₁).bind fun r₂ h₂ => ?_
    exact ih (fun r member => joins r (List.mem_cons_of_mem _ member)) h₂

omit [RandomSource ρ] in
/-- The full scan joins each job with jobs before it, some of which may be running already. -/
lemma sweep_keeps {jobs : List Nat} :
    ∀ {running : Array Running} {pool : CandidatePool α} {scorer : Scorer ρ α},
      jobs.Pairwise Joins → (∀ r ∈ running, ∀ v ∈ jobs, Joins r.job v) → Inv pool →
        (sweep b running jobs pool scorer).Ensures fun r => Inv r.1 := by
  induction jobs with
  | nil => exact fun _ _ h => .pure h
  | cons v rest ih =>
    intro running pool scorer apart others h
    obtain ⟨first, apart⟩ := List.pairwise_cons.1 apart
    have still : ∀ start, ∀ r ∈ dropFinished start 0 running, ∀ w ∈ v :: rest, Joins r.job w :=
      fun start r member => others r (mem_of_mem_dropFinished member)
    unfold CandidatePool.sweep
    refine Ensures.any.bind fun start _ => ?_
    refine (addPairs_keeps symm push (fun r member => ?_) h).bind fun r h' => ?_
    · exact still start r (Array.mem_toList_iff.1 member) v List.mem_cons_self
    refine Ensures.any.bind fun finish _ => ih apart (fun r member w later => ?_) h'
    rcases Array.mem_push.1 member with old | rfl
    · exact still start r old w (List.mem_cons_of_mem _ later)
    · exact first w later

variable (stop : ∀ {pool : CandidatePool α} (scanned : Nat), Inv pool → Inv { pool with scanned })

include stop

omit [RandomSource ρ] in
/-- The batched scan joins jobs at different places of the list. -/
lemma scanFrom_keeps {jobs : Array Nat} (apart : jobs.toList.Pairwise Joins) {size scanned : Nat} :
    ∀ {pool : CandidatePool α} {scorer : Scorer ρ α}, Inv pool →
      (scanFrom b jobs (jobs.size * (jobs.size - 1)) size scanned pool scorer).Ensures
        fun r => Inv r.1 := by
  have joins : ∀ {i j} (hi : i < jobs.size) (hj : j < jobs.size), j ≠ i → Joins jobs[i] jobs[j] := by
    intro i j hi hj ne
    rcases Nat.lt_or_gt_of_ne ne with before | behind
    · exact symm (List.pairwise_iff_getElem.1 apart j i hj hi before)
    · exact List.pairwise_iff_getElem.1 apart i j hi hj behind
  -- The induction is on the number of pairs that are left.
  induction left : jobs.size * (jobs.size - 1) - scanned generalizing scanned with
  | zero =>
    intro pool scorer h
    unfold CandidatePool.scanFrom
    rw [dif_neg (by omega)]
    exact .pure (stop scanned h)
  | succ left ih =>
    intro pool scorer h
    unfold CandidatePool.scanFrom
    split
    · rename_i more
      obtain ⟨first, second, ne⟩ := places_of_pair more.1
      dsimp only
      rw [fetch_of_lt first, ok_bind, fetch_of_lt second, ok_bind]
      refine Ensures.any.bind fun overlaps _ => ?_
      split
      · exact (addFitting_keeps push (joins first second ne) h).bind fun r h' => ih (by omega) h'
      · exact ih (by omega) h
    · exact .pure (stop scanned h)

omit stop

variable (apart : pool.jobs.toList.Pairwise Joins)
  (start : ∀ jobs : Array Nat, jobs.toList.Perm pool.jobs.toList → Inv { pool.clear with jobs })

include apart start

omit [RandomSource ρ] in
/-- The full scan starts from a pool without candidates. -/
lemma buildFull_keeps : (pool.buildFull b scorer).Ensures fun r => Inv r.1 := by
  unfold CandidatePool.buildFull byStart
  refine (sorted_ensures _ _).bind fun jobs perm => ?_
  exact sweep_keeps symm push ((perm.pairwise_iff symm).2 apart)
    (fun r member => absurd member (Array.not_mem_empty r)) (start jobs.toArray perm)

include stop

/-- A batch starts from a pool without candidates. -/
lemma buildBatch_keeps {size : Nat} {randomize : Bool} {source : ρ} :
    (pool.buildBatch b scorer size randomize source).Ensures fun r => Inv r.1 := by
  obtain ⟨none, -⟩ | ⟨jobs, source', perm, -, scan⟩ := buildBatch_eq pool b scorer size randomize source
  · rw [none]
    exact .pure (start pool.jobs (.refl _))
  · rw [scan]
    refine (pairCount_answersIf jobs.size).ensures.bind fun total same => ?_
    subst same
    exact (scanFrom_keeps symm push stop ((perm.pairwise_iff symm).2 apart) (start jobs perm)).bind
      fun r h => .pure h

end

/-! ## When the scans answer

If the scorer answers all questions about jobs, nothing stops a scan but a finish that is no time, and the
batched scan besides more pairs than can be counted. -/

section

variable {Good : Scorer ρ α → Prop}
  (answers : ∀ scorer : Scorer ρ α, Good scorer → ∀ s < b.numJobs, ∀ t < b.numJobs,
    (scorer.score s t).Answers fun r => Good r.2)
  (tabled : b.Tabled)

include answers tabled

omit [RandomSource ρ] in
/-- A candidate is added if the target fits in after the source. -/
lemma addFitting_answersIf (hs : s < b.numJobs) (ht : t < b.numJobs) (good : Good scorer)
    (pool : CandidatePool α) :
    (addFitting b s t pool scorer).AnswersIf b.Timed fun r => Good r.2 := by
  unfold CandidatePool.addFitting add
  refine (tabled.fitsAfter hs ht).bind fun fits _ => ?_
  split
  · split
    · exact .pure good
    · exact (answers scorer good s hs t ht).answersIf.bind fun r good' => .pure good'
  · exact .pure good

omit [RandomSource ρ] in
/-- All arcs between a job and the running jobs are scored. -/
lemma addPairs_answersIf (hv : v < b.numJobs) {running : List Running}
    (inside : ∀ r ∈ running, r.job < b.numJobs) :
    ∀ {scorer : Scorer ρ α}, Good scorer → ∀ pool : CandidatePool α,
      (addPairs b v running pool scorer).AnswersIf b.Timed fun r => Good r.2 := by
  induction running with
  | nil => exact fun good _ => .ok good
  | cons other rest ih =>
    intro scorer good pool
    have ho := inside other List.mem_cons_self
    unfold CandidatePool.addPairs
    refine (addFitting_answersIf answers tabled ho hv good pool).bind fun r₁ good₁ => ?_
    refine (addFitting_answersIf answers tabled hv ho good₁ r₁.1).bind fun r₂ good₂ => ?_
    exact ih (fun r member => inside r (List.mem_cons_of_mem _ member)) good₂ r₂.1

omit [RandomSource ρ] in
/-- The full scan of jobs asks about jobs only. -/
lemma sweep_answersIf {jobs : List Nat} (inside : ∀ v ∈ jobs, v < b.numJobs) :
    ∀ {running : Array Running} {scorer : Scorer ρ α}, Good scorer →
      (∀ r ∈ running, r.job < b.numJobs) → ∀ pool : CandidatePool α,
        (sweep b running jobs pool scorer).AnswersIf b.Timed fun r => Good r.2 := by
  induction jobs with
  | nil => exact fun good _ _ => .ok good
  | cons v rest ih =>
    intro running scorer good others pool
    have hv := inside v List.mem_cons_self
    have still : ∀ r ∈ dropFinished (valueAt b.early.value v) 0 running, r.job < b.numJobs :=
      fun r member => others r (mem_of_mem_dropFinished member)
    unfold CandidatePool.sweep
    rw [tabled.earliestStart hv, ok_bind]
    refine (addPairs_answersIf answers tabled hv
      (fun r member => still r (Array.mem_toList_iff.1 member)) good pool).bind fun r₁ good₁ => ?_
    refine (tabled.earliestFinish hv).bind fun finish _ => ?_
    refine ih (fun w later => inside w (List.mem_cons_of_mem _ later)) good₁ (fun r member => ?_) r₁.1
    rcases Array.mem_push.1 member with old | rfl
    · exact still r old
    · exact hv

omit [RandomSource ρ] in
/-- The batched scan asks about jobs only. -/
lemma scanFrom_answersIf {jobs : Array Nat} (inside : ∀ v ∈ jobs.toList, v < b.numJobs)
    {size scanned : Nat} :
    ∀ {scorer : Scorer ρ α}, Good scorer → ∀ pool : CandidatePool α,
      (scanFrom b jobs (jobs.size * (jobs.size - 1)) size scanned pool scorer).AnswersIf b.Timed
        fun r => Good r.2 := by
  induction left : jobs.size * (jobs.size - 1) - scanned generalizing scanned with
  | zero =>
    intro scorer good pool
    unfold CandidatePool.scanFrom
    rw [dif_neg (by omega)]
    exact .ok good
  | succ left ih =>
    intro scorer good pool
    unfold CandidatePool.scanFrom
    split
    · rename_i more
      obtain ⟨first, second, -⟩ := places_of_pair more.1
      have hs := inside _ (Array.mem_toList_iff.2 (Array.getElem_mem first))
      have ht := inside _ (Array.mem_toList_iff.2 (Array.getElem_mem second))
      dsimp only
      rw [fetch_of_lt first, ok_bind, fetch_of_lt second, ok_bind]
      refine (tabled.overlaps hs ht).bind fun overlaps _ => ?_
      split
      · exact (addFitting_answersIf answers tabled hs ht good pool).bind fun r good' =>
          ih (by omega) good' r.1
      · exact ih (by omega) good pool
    · exact .ok good

variable (inside : ∀ v ∈ pool.jobs.toList, v < b.numJobs) (good : Good scorer)

include inside good

omit [RandomSource ρ] in
/-- The full scan refills the pool. -/
lemma buildFull_answersIf : (pool.buildFull b scorer).AnswersIf b.Timed fun r => Good r.2 := by
  unfold CandidatePool.buildFull byStart
  refine (sorted_answers (fun v member => tabled.earliestStart (inside v member)) _).answersIf.bind ?_
  intro jobs perm
  exact sweep_answersIf answers tabled (fun v member => inside v (perm.subset member)) good
    (fun r member => absurd member (Array.not_mem_empty r)) _

/-- The next batch refills the pool. -/
lemma buildBatch_answersIf (size : Nat) (randomize : Bool) (source : ρ) :
    (pool.buildBatch b scorer size randomize source).AnswersIf
      (b.Timed ∧ pool.jobs.size ≤ 4294967296) fun r => Good r.2.1 := by
  obtain ⟨none, -⟩ | ⟨jobs, source', perm, -, scan⟩ := buildBatch_eq pool b scorer size randomize source
  · rw [none]
    exact .ok good
  · have same : jobs.size = pool.jobs.size := perm.length_eq
    rw [scan, ← same]
    refine ((pairCount_answersIf jobs.size).mono And.right).bind fun total all => ?_
    subst all
    exact ((scanFrom_answersIf answers tabled (fun v member => inside v (perm.subset member)) good _).mono
      And.left).bind fun r good' => .pure good'

end

/-! ## Pools that are in order

Whatever the scorer answers, candidates are only added between different jobs.  It answers if it fits the
instance and the deadlines are not too late. -/

/-- A pool in which all jobs and candidates are in order, and a scorer that fits. -/
def Scored (F : Frame) (r : CandidatePool α × Scorer ρ α) : Prop :=
  r.1.Orderly F.size ∧ r.2.Fit F

/-- Two different jobs. -/
def Different (n s t : Nat) : Prop := s < n ∧ t < n ∧ s ≠ t

/-- Two different jobs may be exchanged. -/
lemma Different.symm (h : Different n s t) : Different n t s := ⟨h.2.1, h.1, h.2.2.symm⟩

omit [Scalar α] in
/-- The jobs at any two places of the list are different. -/
lemma Orderly.pairwise (orderly : pool.Orderly n) : pool.jobs.toList.Pairwise (Different n) :=
  orderly.distinct.imp_of_mem fun hs ht ne => ⟨orderly.jobs _ hs, orderly.jobs _ ht, ne⟩

omit [Scalar α] in
/-- There are not more jobs in a pool than there are jobs. -/
lemma Orderly.size_le (orderly : pool.Orderly n) : pool.jobs.size ≤ n :=
  length_le_of_nodup orderly.distinct orderly.jobs

/-- Without its candidates, and with its jobs in another order, a pool is still in order. -/
lemma Orderly.restart (orderly : pool.Orderly n) (jobs : Array Nat)
    (perm : jobs.toList.Perm pool.jobs.toList) : Orderly n { pool.clear with jobs } :=
  ⟨perm.nodup_iff.2 orderly.distinct, fun v member => orderly.jobs v (perm.subset member),
    orderly.clear.entries⟩

/-- One more candidate between different jobs. -/
lemma Orderly.push (weight : α) (pair : Different n s t) (h : pool.Orderly n) :
    (pool.push ⟨s, t, weight⟩).Orderly n := by
  refine ⟨h.distinct, h.jobs, fun c member => ?_⟩
  rcases Array.mem_push.1 member with old | rfl
  · exact h.entries c old
  · exact pair

omit [RandomSource ρ] in
/-- The full scan refills the pool with candidates between different jobs. -/
lemma Orderly.buildFull (orderly : pool.Orderly n) :
    (pool.buildFull b scorer).Ensures fun r => r.1.Orderly n :=
  buildFull_keeps Different.symm Orderly.push orderly.pairwise orderly.restart

/-- The next batch refills the pool with candidates between different jobs. -/
lemma Orderly.buildBatch (orderly : pool.Orderly n) (size : Nat) (randomize : Bool) (source : ρ) :
    (pool.buildBatch b scorer size randomize source).Ensures fun r => r.1.Orderly n :=
  buildBatch_keeps Different.symm Orderly.push (fun _ h => ⟨h.distinct, h.jobs, h.entries⟩)
    orderly.pairwise orderly.restart

section

variable (orderly : pool.Orderly F.size) (fit : scorer.Fit F) (h : Consistent F hidden net b)
  (modest : F.Modest) (few : F.size ≤ 4294967296)

include h few

omit [RandomSource ρ] in
/-- A scorer that fits answers all questions about jobs. -/
lemma fit_answers : ∀ scorer : Scorer ρ α, scorer.Fit F → ∀ s < b.numJobs, ∀ t < b.numJobs,
    (scorer.score s t).Answers fun r => r.2.Fit F := by
  rw [h.numJobs]
  exact fun scorer fit s hs t ht => fit.score few hs ht

include orderly fit modest

omit [RandomSource ρ] in
/-- The full scan refills the pool. -/
lemma Orderly.buildFull_answers : (pool.buildFull b scorer).Answers (Scored F) := by
  have scored := buildFull_answersIf (fit_answers h few) h.tabled (h.numJobs.symm ▸ orderly.jobs) fit
  exact ((scored.answers (h.timed modest)).and_ensures orderly.buildFull).imp fun r both => both.symm

/-- The next batch refills the pool. -/
lemma Orderly.buildBatch_answers (size : Nat) (randomize : Bool) (source : ρ) :
    (pool.buildBatch b scorer size randomize source).Answers fun r =>
      r.1.Orderly F.size ∧ r.2.1.Fit F := by
  have scored := buildBatch_answersIf (fit_answers h few) h.tabled (h.numJobs.symm ▸ orderly.jobs) fit
    size randomize source
  exact ((scored.answers ⟨h.timed modest, orderly.size_le.trans few⟩).and_ensures
    (orderly.buildBatch size randomize source)).imp fun r both => both.symm

end

/-! ## Drawing -/

/-- A draw takes out a candidate that was in the pool, and leaves the others there. -/
lemma Orderly.draw (orderly : pool.Orderly n) {weighted : Bool} {source source' : ρ}
    {drawn : Option (Candidate α)} (h : pool.draw weighted source = (drawn, pool', source')) :
    pool'.Orderly n ∧ ∀ c ∈ drawn, c.source < n ∧ c.target < n ∧ c.source ≠ c.target := by
  unfold CandidatePool.draw at h
  split at h
  · cases h
    exact ⟨orderly, fun _ member => nomatch member⟩
  · dsimp only at h
    split at h
    · cases h
      exact ⟨orderly, fun _ member => nomatch member⟩
    · rename_i found
      cases h
      refine ⟨⟨orderly.distinct, orderly.jobs, fun c member =>
        orderly.entries c (mem_of_mem_swapRemove member)⟩, fun c member => ?_⟩
      rw [← Option.mem_some_iff.1 member]
      exact orderly.entries _ (Array.mem_of_getElem? found)

end CandidatePool

end Leveling
