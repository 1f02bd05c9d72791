import Leveling.Proofs.Exact
import Leveling.Proofs.Search.Candidates
import Leveling.Random.ChaCha

/-!
# The full scan meets each pair once

The full scan never asks whether two jobs overlap.  It goes through the jobs by earliest start and
keeps those that are still running when the next one starts: of two jobs that overlap, the one that
starts first is still running when the other one starts, and of two jobs that do not, it has been
dropped by then.  That jobs are dropped in place, and that the last job of the list takes the place
of a dropped one, changes the order in which pairs are met and nothing else.

What carries the argument is the set of pairs that the rest of the scan is going to add: all pairs
that overlap and fit of which at least one job is still to come (`Swept`).

Nothing is assumed of the earliest starts and the latest finishes here.  If a sum of times leaves the
range of times the scan may stop with an overflow; otherwise it answers.
-/

namespace Leveling

open Checked

/-- An entry that is taken out of a list and the entries that are left are those of the list. -/
lemma perm_swapRemove {β : Type} {xs : Array β} {i : Nat} (inside : i < xs.size) :
    (xs[i] :: (swapRemove xs i).toList).Perm xs.toList := by
  classical
  refine List.perm_iff_count.2 fun x => ?_
  have counted := countP_swapRemove (c := (· == x)) inside
  rw [List.count_cons, List.count_eq_countP, List.count_eq_countP, ← counted]
  rfl

/-! ## Scorers that answer -/

namespace Scorer

variable {ρ α : Type} [RandomSource ρ] [Scalar α] {F : Frame} {n s t : Nat} {scorer : Scorer ρ α}

/-- The scorer answers all questions about jobs, however many are asked one after the other. -/
def Responds (n : Nat) (scorer : Scorer ρ α) : Prop :=
  ∀ questions : List (Nat × Nat), (∀ q ∈ questions, q.1 < n ∧ q.2 < n) →
    (questions.foldlM (fun (scorer : Scorer ρ α) (q : Nat × Nat) => do return (← scorer.score q.1 q.2).2)
      scorer).Answers fun _ => True

omit [RandomSource ρ] in
/-- After an answer the scorer goes on answering. -/
lemma Responds.score (responds : scorer.Responds n) (hs : s < n) (ht : t < n) :
    (scorer.score s t).Answers fun r => r.2.Responds n := by
  obtain ⟨_, asked, -⟩ := responds [(s, t)] fun q member => by
    rw [List.mem_singleton.1 member]
    exact ⟨hs, ht⟩
  rw [List.foldlM_cons] at asked
  obtain ⟨scorer', first, -⟩ := bind_eq_ok.1 asked
  obtain ⟨r, answer, same⟩ := bind_eq_ok.1 first
  obtain rfl := Except.ok.inj same
  refine ⟨r, answer, fun questions inside => ?_⟩
  have all := responds ((s, t) :: questions) fun q member => by
    rcases List.mem_cons.1 member with rfl | member
    · exact ⟨hs, ht⟩
    · exact inside q member
  rwa [List.foldlM_cons, first, ok_bind] at all

omit [RandomSource ρ] in
/-- A scorer that answers and thereby keeps the property because of which it answers. -/
lemma responds_of_invariant {P : Scorer ρ α → Prop} (keeps : ∀ scorer : Scorer ρ α, P scorer →
    ∀ s < n, ∀ t < n, (scorer.score s t).Answers fun r => P r.2) (h : P scorer) :
    scorer.Responds n := by
  intro questions inside
  refine (Answers.foldlM P (fun scorer h q member => ?_) h).imp fun _ _ => trivial
  obtain ⟨hs, ht⟩ := inside q member
  exact (keeps scorer h q.1 hs q.2 ht).bind fun r h' => .pure h'

omit [RandomSource ρ] in
/-- A scorer that fits an instance answers all questions about its jobs. -/
lemma Fit.responds (few : F.size ≤ 4294967296) (fit : scorer.Fit F) : scorer.Responds F.size :=
  responds_of_invariant (fun _ fit _ hs _ ht => fit.score few hs ht) fit

omit [RandomSource ρ] in
/-- A reinforcement matrix answers all questions about the jobs for which it has cells. -/
lemma responds_matrix {m : MatrixScorer α} (fit : m.Fit n) (few : n ≤ 4294967296) :
    (matrix m : Scorer ρ α).Responds n := by
  refine responds_of_invariant (P := (· = matrix m)) (fun scorer same s hs t ht => ?_) rfl
  subst same
  exact (fit.score few hs ht).bind fun _ _ => .pure rfl

end Scorer

namespace CandidatePool

variable {ρ α : Type} [RandomSource ρ] [Scalar α] {b : Bounds} {range : Span}
  {pool pool' pool'' : CandidatePool α} {scorer : Scorer ρ α} {l l' : List (Nat × Nat)} {s t v : Nat}

/-! ## Pairs that are added -/

/-- The arcs of the candidates, in the order in which they were added. -/
def pairs (pool : CandidatePool α) : List (Nat × Nat) :=
  pool.entries.toList.map fun c => (c.source, c.target)

/-- The second pool is the first one with more candidates, for the listed pairs. -/
structure Added (pool : CandidatePool α) (l : List (Nat × Nat)) (pool' : CandidatePool α) : Prop where
  jobs : pool'.jobs = pool.jobs
  scanned : pool'.scanned = pool.scanned
  pairs : pool'.pairs = pool.pairs ++ l

omit [Scalar α] in
/-- No pair is added. -/
lemma Added.nil : Added pool [] pool := ⟨rfl, rfl, (List.append_nil _).symm⟩

omit [Scalar α] in
/-- Pairs that are added one list after the other. -/
lemma Added.trans (first : Added pool l pool') (second : Added pool' l' pool'') :
    Added pool (l ++ l') pool'' :=
  ⟨second.jobs.trans first.jobs, second.scanned.trans first.scanned,
    by rw [second.pairs, first.pairs, List.append_assoc]⟩

/-- One more candidate. -/
lemma added_push (weight : α) : Added pool [(s, t)] (pool.push ⟨s, t, weight⟩) :=
  ⟨rfl, rfl, by
    unfold CandidatePool.pairs CandidatePool.push
    rw [Array.toList_push, List.map_append, List.map_singleton]⟩

omit [RandomSource ρ] in
/-- The candidate for a pair is added if the pair fits. -/
lemma addFitting_ensures (pool : CandidatePool α) (scorer : Scorer ρ α) :
    (addFitting b s t pool scorer).Ensures fun r => Added pool (b.fitting s t) r.1 := by
  unfold CandidatePool.addFitting Bounds.fitting
  refine Ensures.same.bind fun fits answer => ?_
  rw [answer]
  cases fits with
  | false => exact .pure .nil
  | true =>
    rw [if_pos rfl, if_pos rfl]
    unfold add
    split
    · exact .pure (added_push _)
    · exact Ensures.any.bind fun r _ => .pure (added_push _)

/-- The pairs of a job and each of the listed jobs that fit, in both directions. -/
def joined (b : Bounds) (v : Nat) (jobs : List Nat) : List (Nat × Nat) :=
  jobs.flatMap fun u => b.fitting u v ++ b.fitting v u

omit [RandomSource ρ] in
/-- A job is joined with the running jobs. -/
lemma addPairs_ensures {running : List Running} : ∀ (pool : CandidatePool α) (scorer : Scorer ρ α),
    (addPairs b v running pool scorer).Ensures fun r =>
      Added pool (joined b v (running.map Running.job)) r.1 := by
  induction running with
  | nil => exact fun pool _ => .pure .nil
  | cons other rest ih =>
    intro pool scorer
    unfold CandidatePool.addPairs
    refine (addFitting_ensures pool scorer).bind fun r₁ first => ?_
    refine (addFitting_ensures r₁.1 r₁.2).bind fun r₂ second => ?_
    refine (ih r₂.1 r₂.2).imp fun r₃ others => ?_
    unfold joined
    rw [List.map_cons, List.flatMap_cons]
    exact (first.trans second).trans others

/-- A pair is joined if one of its jobs is the job itself and the other one is listed. -/
lemma mem_joined {jobs : List Nat} : (s, t) ∈ joined b v jobs ↔
    (s ∈ jobs ∧ t = v ∨ s = v ∧ t ∈ jobs) ∧ b.fitsAfter s t = .ok true := by
  unfold joined
  rw [List.mem_flatMap]
  constructor
  · rintro ⟨u, listed, member⟩
    rw [List.mem_append, Bounds.mem_fitting, Bounds.mem_fitting] at member
    obtain ⟨⟨rfl, rfl⟩, fits⟩ | ⟨⟨rfl, rfl⟩, fits⟩ := member
    · exact ⟨.inl ⟨listed, rfl⟩, fits⟩
    · exact ⟨.inr ⟨rfl, listed⟩, fits⟩
  · rintro ⟨⟨listed, rfl⟩ | ⟨rfl, listed⟩, fits⟩
    · exact ⟨s, listed, List.mem_append_left _ (Bounds.mem_fitting.2 ⟨⟨rfl, rfl⟩, fits⟩)⟩
    · exact ⟨t, listed, List.mem_append_right _ (Bounds.mem_fitting.2 ⟨⟨rfl, rfl⟩, fits⟩)⟩

/-- A job is joined once with each of different jobs. -/
lemma nodup_joined {jobs : List Nat} (distinct : jobs.Nodup) (fresh : v ∉ jobs) :
    (joined b v jobs).Nodup := by
  unfold joined
  refine List.nodup_flatMap.2 ⟨fun u listed => List.nodup_append'.2
    ⟨Bounds.nodup_fitting, Bounds.nodup_fitting, ?_⟩, distinct.imp_of_mem ?_⟩
  · rintro ⟨s, t⟩ there back
    rw [Bounds.mem_fitting] at there back
    exact fresh (back.1.1 ▸ there.1.1 ▸ listed)
  · rintro u w listed listed' ne ⟨s, t⟩ first second
    rw [List.mem_append, Bounds.mem_fitting, Bounds.mem_fitting] at first second
    rcases first with ⟨⟨rfl, rfl⟩, -⟩ | ⟨⟨rfl, rfl⟩, -⟩ <;>
      rcases second with ⟨⟨same, same'⟩, -⟩ | ⟨⟨same, same'⟩, -⟩
    · exact ne same
    · exact fresh (same ▸ listed)
    · exact fresh (same ▸ listed')
    · exact ne same'

/-! ## The running jobs -/

/-- Running jobs are listed with their earliest finishes. -/
def Clocked (b : Bounds) (running : List Running) : Prop :=
  ∀ r ∈ running, r.finish = valueAt b.early.value r.job + valueAt b.durations r.job

omit [RandomSource ρ] [Scalar α] in
/-- The jobs that have finished are dropped, and no other ones. -/
lemma perm_dropFinished {start : Int} {k : Nat} {running : Array Running}
    (unfinished : ∀ i < k, ∀ r, running[i]? = some r → start < r.finish) :
    (dropFinished start k running).toList.Perm
      (running.toList.filter fun r => start < r.finish) := by
  induction k, running using dropFinished.induct start with
  | case1 k running inside finished ih =>
    rw [dropFinished, dif_pos inside, if_pos finished]
    have before : ∀ i < k, ∀ r, (swapRemove running k)[i]? = some r → start < r.finish := by
      intro i earlier r found
      rw [getElem?_swapRemove inside, if_neg (by omega), if_neg (Nat.ne_of_lt earlier)] at found
      exact unfinished i earlier r found
    have removed := (perm_swapRemove inside).filter fun r => start < r.finish
    rw [List.filter_cons_of_neg (by rw [decide_eq_true_iff]; omega)] at removed
    exact (ih before).trans removed
  | case2 k running inside unfinished' ih =>
    rw [dropFinished, dif_pos inside, if_neg unfinished']
    refine ih fun i earlier r found => ?_
    rcases Nat.lt_succ_iff_lt_or_eq.1 earlier with earlier | rfl
    · exact unfinished i earlier r found
    · rw [Array.getElem?_eq_getElem inside, Option.some.injEq] at found
      exact found ▸ not_le.1 unfinished'
  | case3 k running outside =>
    rw [dropFinished, dif_neg outside, List.filter_eq_self.2 fun r member => ?_]
    obtain ⟨i, found⟩ := Array.mem_iff_getElem?.1 (Array.mem_toList_iff.1 member)
    obtain ⟨inside, -⟩ := Array.getElem?_eq_some_iff.1 found
    exact decide_eq_true (unfinished i (by omega) r found)

omit [RandomSource ρ] [Scalar α] in
/-- The jobs that go on running at a time are those that finish later. -/
lemma Clocked.drop {running : Array Running} (clocked : Clocked b running.toList) (start : Int) :
    Clocked b (dropFinished start 0 running).toList ∧
      ((dropFinished start 0 running).toList.map Running.job).Perm
        ((running.toList.map Running.job).filter fun u =>
          start < valueAt b.early.value u + valueAt b.durations u) := by
  have perm : (dropFinished start 0 running).toList.Perm
      (running.toList.filter fun r => start < r.finish) :=
    perm_dropFinished fun i earlier => absurd earlier (Nat.not_lt_zero i)
  refine ⟨fun r member => clocked r (List.mem_filter.1 (perm.subset member)).1, ?_⟩
  rw [List.filter_map, List.filter_congr fun r member => ?_]
  · exact perm.map Running.job
  · rw [Function.comp_apply, ← clocked r member]

/-- Jobs that wait for their turn: different ones with a duration, by earliest start. -/
structure Queued (b : Bounds) (jobs : List Nat) : Prop where
  nodup : jobs.Nodup
  inside : ∀ v ∈ jobs, v < b.numJobs
  lasting : ∀ v ∈ jobs, 0 < valueAt b.durations v
  sorted : jobs.Pairwise fun v w => valueAt b.early.value v ≤ valueAt b.early.value w

/-- The running jobs have started before those that are still to come. -/
structure Beside (b : Bounds) (running jobs : List Nat) : Prop where
  nodup : running.Nodup
  inside : ∀ u ∈ running, u < b.numJobs
  apart : ∀ u ∈ running, u ∉ jobs
  started : ∀ u ∈ running, ∀ v ∈ jobs, valueAt b.early.value u ≤ valueAt b.early.value v

variable {running kept rest : List Nat}

omit [RandomSource ρ] [Scalar α] in
/-- The jobs behind the one whose turn it is. -/
lemma Queued.tail (h : Queued b (v :: rest)) : Queued b rest :=
  ⟨(List.nodup_cons.1 h.nodup).2, fun w later => h.inside w (List.mem_cons_of_mem _ later),
    fun w later => h.lasting w (List.mem_cons_of_mem _ later), h.sorted.of_cons⟩

omit [RandomSource ρ] [Scalar α] in
/-- A job whose turn is over is running beside those that are still to come. -/
lemma Beside.push (h : Beside b running (v :: rest)) (queued : Queued b (v :: rest))
    (sub : kept ⊆ running) (distinct : kept.Nodup) : Beside b (kept ++ [v]) rest := by
  have either : ∀ u ∈ kept ++ [v], u ∈ running ∨ u = v := fun u member =>
    (List.mem_append.1 member).imp (fun member => sub member) List.mem_singleton.1
  constructor
  · refine List.nodup_append'.2 ⟨distinct, List.nodup_singleton _, fun u earlier same => ?_⟩
    exact h.apart u (sub earlier) (List.mem_singleton.1 same ▸ List.mem_cons_self)
  · intro u member
    rcases either u member with member | rfl
    · exact h.inside u member
    · exact queued.inside u List.mem_cons_self
  · intro u member
    rcases either u member with member | rfl
    · exact fun later => h.apart u member (List.mem_cons_of_mem _ later)
    · exact (List.nodup_cons.1 queued.nodup).1
  · intro u member w later
    rcases either u member with member | rfl
    · exact h.started u member w (List.mem_cons_of_mem _ later)
    · exact List.rel_of_pairwise_cons queued.sorted later

/-- The pairs that the rest of the scan adds: those of jobs that meet, one of which is still to come. -/
structure Swept (b : Bounds) (running jobs : List Nat) (l : List (Nat × Nat)) : Prop where
  nodup : l.Nodup
  mem_iff : ∀ s t, (s, t) ∈ l ↔ (s ≠ t ∧ b.Meets s t) ∧
    (s ∈ jobs ∧ t ∈ jobs ∨ s ∈ jobs ∧ t ∈ running ∨ s ∈ running ∧ t ∈ jobs)

omit [RandomSource ρ] [Scalar α] in
/-- A job that comes next meets those running jobs that go on running. -/
lemma Beside.mem_joined_iff (beside : Beside b running (v :: rest)) (queued : Queued b (v :: rest))
    (mem_kept : ∀ u, u ∈ kept ↔ u ∈ running ∧
      valueAt b.early.value v < valueAt b.early.value u + valueAt b.durations u) :
    (s, t) ∈ joined b v kept ↔
      (s ≠ t ∧ b.Meets s t) ∧ (s = v ∧ t ∈ running ∨ s ∈ running ∧ t = v) := by
  have apart : ∀ u ∈ running, u ≠ v := fun u member same =>
    beside.apart u member (same ▸ List.mem_cons_self)
  have lasting := queued.lasting v List.mem_cons_self
  have started : ∀ u ∈ running, valueAt b.early.value u <
      valueAt b.early.value v + valueAt b.durations v := fun u member =>
    (beside.started u member v List.mem_cons_self).trans_lt (Int.lt_add_of_pos_right _ lasting)
  rw [mem_joined]
  constructor
  · rintro ⟨⟨member, rfl⟩ | ⟨rfl, member⟩, fits⟩
    · obtain ⟨member, lasts⟩ := (mem_kept s).1 member
      exact ⟨⟨apart s member, ⟨lasts, started s member⟩, fits⟩, .inr ⟨member, rfl⟩⟩
    · obtain ⟨member, lasts⟩ := (mem_kept t).1 member
      exact ⟨⟨(apart t member).symm, ⟨started t member, lasts⟩, fits⟩, .inl ⟨rfl, member⟩⟩
  · rintro ⟨⟨-, ⟨first, second⟩, fits⟩, ⟨rfl, member⟩ | ⟨member, rfl⟩⟩
    · exact ⟨.inr ⟨rfl, (mem_kept t).2 ⟨member, second⟩⟩, fits⟩
    · exact ⟨.inl ⟨(mem_kept s).2 ⟨member, first⟩, rfl⟩, fits⟩

section

variable (queued : Queued b (v :: rest)) (beside : Beside b running (v :: rest))
  (mem_kept : ∀ u, u ∈ kept ↔ u ∈ running ∧
    valueAt b.early.value v < valueAt b.early.value u + valueAt b.durations u)
  (swept : Swept b (kept ++ [v]) rest l)

include queued beside mem_kept swept

omit [RandomSource ρ] [Scalar α] in
/-- No pair of the job whose turn it is comes again. -/
lemma Swept.disjoint : (joined b v kept).Disjoint l := by
  have fresh : v ∉ rest := (List.nodup_cons.1 queued.nodup).1
  have apart : ∀ u ∈ running, u ∉ rest := fun u member later =>
    beside.apart u member (List.mem_cons_of_mem _ later)
  rintro ⟨s, t⟩ now later
  obtain ⟨-, now⟩ := (beside.mem_joined_iff queued mem_kept).1 now
  obtain ⟨-, later⟩ := (swept.mem_iff s t).1 later
  have hs : s ∉ rest := by
    rcases now with ⟨rfl, -⟩ | ⟨member, -⟩
    · exact fresh
    · exact apart s member
  have ht : t ∉ rest := by
    rcases now with ⟨-, member⟩ | ⟨-, rfl⟩
    · exact apart t member
    · exact fresh
  rcases later with ⟨later, -⟩ | ⟨later, -⟩ | ⟨-, later⟩
  · exact hs later
  · exact hs later
  · exact ht later

omit [RandomSource ρ] [Scalar α] in
/-- A pair that is still to come is a pair of the job whose turn it is or comes later. -/
lemma Swept.mem_append_iff : (s, t) ∈ joined b v kept ++ l ↔ (s ≠ t ∧ b.Meets s t) ∧
    (s ∈ v :: rest ∧ t ∈ v :: rest ∨ s ∈ v :: rest ∧ t ∈ running ∨ s ∈ running ∧ t ∈ v :: rest) := by
  -- a job that has finished meets none of those that are still to come
  have lasts : ∀ u ∈ running, ∀ w ∈ rest,
      valueAt b.early.value w < valueAt b.early.value u + valueAt b.durations u → u ∈ kept :=
    fun u member w later before => (mem_kept u).2
      ⟨member, (List.rel_of_pairwise_cons queued.sorted later).trans_lt before⟩
  rw [List.mem_append, beside.mem_joined_iff queued mem_kept, swept.mem_iff, ← and_or_left]
  refine and_congr_right fun ⟨ne, ⟨first, second⟩, fits⟩ => ?_
  simp only [List.mem_cons, List.mem_append, List.not_mem_nil, or_false]
  constructor
  · rintro ((⟨rfl, ht⟩ | ⟨hs, rfl⟩) | ⟨hs, ht⟩ | ⟨hs, ht | rfl⟩ | ⟨hs | rfl, ht⟩)
    · exact .inr (.inl ⟨.inl rfl, ht⟩)
    · exact .inr (.inr ⟨hs, .inl rfl⟩)
    · exact .inl ⟨.inr hs, .inr ht⟩
    · exact .inr (.inl ⟨.inr hs, ((mem_kept t).1 ht).1⟩)
    · exact .inl ⟨.inr hs, .inl rfl⟩
    · exact .inr (.inr ⟨((mem_kept s).1 hs).1, .inr ht⟩)
    · exact .inl ⟨.inl rfl, .inr ht⟩
  · rintro (⟨rfl | hs, rfl | ht⟩ | ⟨rfl | hs, ht⟩ | ⟨hs, rfl | ht⟩)
    · exact absurd rfl ne
    · exact .inr (.inr (.inr ⟨.inr rfl, ht⟩))
    · exact .inr (.inr (.inl ⟨hs, .inr rfl⟩))
    · exact .inr (.inl ⟨hs, ht⟩)
    · exact .inl (.inl ⟨rfl, ht⟩)
    · exact .inr (.inr (.inl ⟨hs, .inl (lasts t ht s hs second)⟩))
    · exact .inl (.inr ⟨hs, rfl⟩)
    · exact .inr (.inr (.inr ⟨.inl (lasts s hs t ht first), ht⟩))

end

omit [RandomSource ρ] [Scalar α] in
/-- The pairs of the job whose turn it is come first, then those of the jobs behind it. -/
lemma Swept.cons (queued : Queued b (v :: rest)) (beside : Beside b running (v :: rest))
    (perm : kept.Perm (running.filter fun u =>
      valueAt b.early.value v < valueAt b.early.value u + valueAt b.durations u))
    (swept : Swept b (kept ++ [v]) rest l) :
    Swept b running (v :: rest) (joined b v kept ++ l) := by
  have mem_kept : ∀ u, u ∈ kept ↔ u ∈ running ∧
      valueAt b.early.value v < valueAt b.early.value u + valueAt b.durations u := fun u => by
    rw [perm.mem_iff, List.mem_filter, decide_eq_true_iff]
  have distinct : (joined b v kept).Nodup := by
    refine nodup_joined (perm.nodup_iff.2 (beside.nodup.filter _)) fun member => ?_
    exact beside.apart v ((mem_kept v).1 member).1 List.mem_cons_self
  exact ⟨List.nodup_append'.2 ⟨distinct, swept.nodup, swept.disjoint queued beside mem_kept⟩,
    fun _ _ => swept.mem_append_iff queued beside mem_kept⟩

omit [RandomSource ρ] in
/-- The scan adds the pairs of jobs that meet, one of which is still to come. -/
lemma sweep_ensures (h : b.Tabled) {jobs : List Nat} :
    ∀ {running : Array Running}, Queued b jobs → Clocked b running.toList →
      Beside b (running.toList.map Running.job) jobs →
        ∀ (pool : CandidatePool α) (scorer : Scorer ρ α),
          (sweep b running jobs pool scorer).Ensures fun r =>
            ∃ l, Added pool l r.1 ∧ Swept b (running.toList.map Running.job) jobs l := by
  induction jobs with
  | nil =>
    intro running queued clocked beside pool scorer
    refine .pure ⟨[], .nil, List.nodup_nil, fun s t => ?_⟩
    simp only [List.not_mem_nil, false_and, and_false, or_self]
  | cons v rest ih =>
    intro running queued clocked beside pool scorer
    have hv := queued.inside v List.mem_cons_self
    obtain ⟨clocked', perm⟩ := clocked.drop (valueAt b.early.value v)
    have sub : (dropFinished (valueAt b.early.value v) 0 running).toList.map Running.job ⊆
        running.toList.map Running.job := fun u member =>
      (List.mem_filter.1 (perm.subset member)).1
    have beside' := beside.push queued sub (perm.nodup_iff.2 (beside.nodup.filter _))
    unfold CandidatePool.sweep
    rw [h.earliestStart hv, ok_bind]
    refine (addPairs_ensures pool scorer).bind fun r₁ first => ?_
    refine Ensures.same.bind fun finish answer => ?_
    have pushed : ((dropFinished (valueAt b.early.value v) 0 running).push ⟨v, finish⟩).toList =
        (dropFinished (valueAt b.early.value v) 0 running).toList ++ [⟨v, finish⟩] :=
      Array.toList_push
    have names : ((dropFinished (valueAt b.early.value v) 0 running).push ⟨v, finish⟩).toList.map
        Running.job = (dropFinished (valueAt b.early.value v) 0 running).toList.map Running.job ++
          [v] := by
      rw [pushed, List.map_append, List.map_singleton]
    refine (ih queued.tail ?_ (names ▸ beside') r₁.1 r₁.2).imp ?_
    · intro r member
      rw [pushed, List.mem_append, List.mem_singleton] at member
      rcases member with member | rfl
      · exact clocked' r member
      · exact Bounds.earliestFinish_eq_ok answer
    · rintro r₂ ⟨l, added, swept⟩
      exact ⟨_, first.trans added, .cons queued beside perm (names ▸ swept)⟩

/-! ## The scan of the jobs of a range -/

omit [RandomSource ρ] [Scalar α] in
/-- Jobs are sorted by their earliest starts. -/
lemma byStart_answers (h : b.Tabled) {jobs : List Nat} (inside : ∀ v ∈ jobs, v < b.numJobs) :
    (byStart b jobs).Answers fun sorted => sorted.Perm jobs ∧
      sorted.Pairwise fun v w => valueAt b.early.value v ≤ valueAt b.early.value w := by
  unfold byStart
  rw [keyed_eq fun v member => h.earliestStart (inside v member), ok_bind]
  refine .pure ?_
  set entries := jobs.map fun job => (valueAt b.early.value job, job) with entries_eq
  set before := fun p q : Int × Nat => p.1 < q.1 || (p.1 == q.1 && p.2 ≤ q.2) with before_eq
  have before_iff : ∀ p q, before p q = true ↔ p.1 < q.1 ∨ p.1 = q.1 ∧ p.2 ≤ q.2 := fun p q => by
    rw [before_eq, Bool.or_eq_true, Bool.and_eq_true, decide_eq_true_iff, beq_iff_eq,
      decide_eq_true_iff]
  have perm := List.mergeSort_perm entries before
  have sorted : (entries.mergeSort before).Pairwise fun p q => before p q = true := by
    refine List.pairwise_mergeSort (fun p q r => ?_) (fun p q => ?_) entries
    · rw [before_iff, before_iff, before_iff]
      omega
    · rw [Bool.or_eq_true, before_iff, before_iff]
      omega
  have keys : ∀ p ∈ entries.mergeSort before, p.1 = valueAt b.early.value p.2 := fun p member => by
    obtain ⟨v, -, rfl⟩ := List.mem_map.1 (perm.subset member)
    rfl
  have names : entries.map Prod.snd = jobs := by
    rw [entries_eq, List.map_map]
    exact List.map_id jobs
  refine ⟨names ▸ perm.map Prod.snd, List.pairwise_map.2 (sorted.imp_of_mem ?_)⟩
  intro p q hp hq earlier
  rw [before_iff, keys p hp, keys q hq] at earlier
  omega

omit [RandomSource ρ] in
/-- The full scan of the jobs of a range finds the pairs that are offered in the range. -/
lemma Gathers.buildFull_ensures (h : b.Tabled) (gathers : pool.Gathers b range)
    (scorer : Scorer ρ α) : (pool.buildFull b scorer).Ensures fun r =>
      (r.1.Gathers b range ∧ r.1.scanned = pool.scanned) ∧
        r.1.pairs.Nodup ∧ ∀ s t, (s, t) ∈ r.1.pairs ↔ b.Offers range s t := by
  unfold CandidatePool.buildFull
  refine (byStart_answers h gathers.inside).ensures.bind fun jobs ⟨perm, sorted⟩ => ?_
  have queued : Queued b jobs :=
    ⟨perm.nodup_iff.2 gathers.nodup, fun v member => gathers.inside v (perm.subset member),
      fun v member => ((gathers.mem_iff v).1 (perm.subset member)).positive.2, sorted⟩
  have nobody : Clocked b (#[] : Array Running).toList := fun r member =>
    absurd member List.not_mem_nil
  have beside : Beside b ((#[] : Array Running).toList.map Running.job) jobs :=
    ⟨List.nodup_nil, fun u member => absurd member List.not_mem_nil,
      fun u member => absurd member List.not_mem_nil, fun u member => absurd member List.not_mem_nil⟩
  refine (sweep_ensures h queued nobody beside _ _).imp ?_
  rintro r ⟨l, added, swept⟩
  have pairs_eq : r.1.pairs = l := added.pairs
  have jobs_eq : r.1.jobs = jobs.toArray := added.jobs
  refine ⟨⟨gathers.perm ?_, added.scanned⟩, pairs_eq ▸ swept.nodup, fun s t => ?_⟩
  · rw [jobs_eq]
    exact perm
  · rw [pairs_eq, swept.mem_iff, Bounds.offers_iff, perm.mem_iff, perm.mem_iff, gathers.mem_iff,
      gathers.mem_iff, Array.toList_empty, List.map_nil]
    simp only [List.not_mem_nil, and_false, false_and, or_false]
    tauto

omit [RandomSource ρ] in
/-- If the scorer responds, only a finish that is no time stops the full scan. -/
lemma Gathers.buildFull_answersIf (h : b.Tabled) (gathers : pool.Gathers b range)
    (responds : scorer.Responds b.numJobs) :
    (pool.buildFull b scorer).AnswersIf b.Timed fun r => r.2.Responds b.numJobs :=
  CandidatePool.buildFull_answersIf (fun _ responds _ hs _ ht => responds.score hs ht) h gathers.inside
    responds

/-- Collects the jobs of a range, and refills the pool with all candidates among them. -/
def scanRange (b : Bounds) (range : Span) (pool : CandidatePool α) (scorer : Scorer ρ α) :
    Checked (CandidatePool α × Scorer ρ α) := do
  let pool ← pool.collect b range
  pool.buildFull b scorer

omit [RandomSource ρ] in
/-- **The full scan.**  Whatever the bounds, the range and the scorer are, the full scan fills the pool
with one candidate for each pair that is offered in the range, and with no other candidates.  If the
scorer responds, nothing stops the scan but a finish that is no time. -/
theorem full_scan_finds_pairs_once (tabled : b.Tabled) (range : Span) (pool : CandidatePool α)
    (scorer : Scorer ρ α) :
    ((scanRange b range pool scorer).Ensures fun r =>
      ∀ s t, r.1.pairs.count (s, t) = if b.Offers range s t then 1 else 0) ∧
    (scorer.Responds b.numJobs →
      (scanRange b range pool scorer).AnswersIf b.Timed fun r => r.2.Responds b.numJobs) := by
  have collected := collect_answersIf tabled pool range
  unfold scanRange
  refine ⟨collected.ensures.bind fun pool' ⟨gathers, _⟩ => ?_, fun responds =>
    collected.bind fun pool' ⟨gathers, _⟩ => gathers.buildFull_answersIf tabled responds⟩
  refine (gathers.buildFull_ensures tabled scorer).imp fun r ⟨_, distinct, mem_iff⟩ s t => ?_
  rw [distinct.count]
  exact if_congr (mem_iff s t) rfl rfl

/-- Four jobs, of which the second one has to be finished early and the last one takes no time. -/
def quartet : Bounds where
  durations := #[3, 2, 4, 0]
  early := { limit := #[0, 0, 0, 0], base := #[0, 1, 2, 1], value := #[0, 1, 2, 1], deferred := [] }
  late := { limit := #[9, 9, 9, 9], base := #[9, 5, 9, 9], value := #[9, 5, 9, 9], deferred := [] }

/-- A matrix in which the four jobs have earned nothing. -/
def quartetScorer : Scorer ChaCha ℚ := .matrix (.empty 4 ⟨5, 1 / 2, 0⟩)

/-- The four jobs have durations and bounds. -/
lemma quartet_tabled : quartet.Tabled := ⟨by decide, by decide, by decide⟩

/-- The four jobs are finished at times. -/
lemma quartet_timed : quartet.Timed := ⟨by decide, by decide⟩

/-- The matrix has cells for the four jobs. -/
lemma quartetScorer_responds : quartetScorer.Responds quartet.numJobs :=
  Scorer.responds_matrix (MatrixScorer.fit_empty 4 _) (by decide)

/-- All pairs of the jobs that take time are offered, except for the one in which the second job would
be finished too late. -/
theorem full_scan_finds_pairs_once_quartet :
    ((scanRange quartet ⟨0, 10⟩ empty quartetScorer).Answers fun r =>
      ∀ s t, r.1.pairs.count (s, t) = if quartet.Offers ⟨0, 10⟩ s t then 1 else 0) ∧
    quartet.Offers ⟨0, 10⟩ 0 1 ∧ quartet.Offers ⟨0, 10⟩ 1 2 ∧ ¬quartet.Offers ⟨0, 10⟩ 2 1 := by
  obtain ⟨found, answers⟩ := full_scan_finds_pairs_once quartet_tabled ⟨0, 10⟩ empty quartetScorer
  refine ⟨?_, by decide, by decide, by decide⟩
  exact (((answers quartetScorer_responds).answers quartet_timed).and_ensures found).imp fun r => And.right

end CandidatePool

end Leveling
