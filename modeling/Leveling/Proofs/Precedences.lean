import Leveling.Problem
import Leveling.Proofs.Order
import Leveling.Proofs.Runs
import Mathlib.Algebra.BigOperators.Group.Finset.Piecewise
import Mathlib.Algebra.Order.BigOperators.Group.List
import Mathlib.Algebra.Ring.Int.Defs
import Mathlib.Data.Prod.Lex

/-!
# The precedences of an instance

Sorting the given precedences and keeping the first one of each run leaves one precedence for
each pair of jobs that has any.  The number of precedences that lead into a job is the number
of times that the job is listed among the targets of all jobs, which is what the search for a
topological order asks for.

In a topological order an arc that is looked at later never leads to a job at which an earlier
one begins.  This is why one pass over the jobs is enough to compute all bounds.
-/

namespace Leveling

open Checked

/-! ## Orders -/

section

variable {succ : Nat → List Nat} {n v w : Nat} {order : List Nat}

/-- The successors of the jobs of a list whose arcs point ahead are in the list. -/
lemma PointsAhead.mem (h : PointsAhead succ order) (hv : v ∈ order) (hw : w ∈ succ v) :
    w ∈ order := by
  induction order with
  | nil => exact absurd hv List.not_mem_nil
  | cons u rest ih =>
    rcases List.mem_cons.1 hv with rfl | hv
    · exact List.mem_cons_of_mem _ (h.1 w hw)
    · exact List.mem_cons_of_mem _ (ih h.2 hv)

/-- No job is a successor of itself or of a job behind it. -/
lemma PointsAhead.not_mem (h : PointsAhead succ order) (nodup : order.Nodup) :
    (∀ v ∈ order, v ∉ succ v) ∧ order.Pairwise fun v v' => v ∉ succ v' := by
  induction order with
  | nil => exact ⟨fun v hv => absurd hv List.not_mem_nil, .nil⟩
  | cons u rest ih =>
    obtain ⟨fresh, nodup⟩ := List.nodup_cons.1 nodup
    obtain ⟨own, later⟩ := ih h.2 nodup
    refine ⟨fun v hv => ?_, List.pairwise_cons.2 ⟨fun v' hv' member => ?_, later⟩⟩
    · rcases List.mem_cons.1 hv with rfl | hv
      · exact fun member => fresh (h.1 v member)
      · exact own v hv
    · exact fresh (h.2.mem hv' member)

/-- Along an arc the position in the order grows. -/
lemma PointsAhead.idxOf_lt (h : PointsAhead succ order) (nodup : order.Nodup) (hv : v ∈ order)
    (hw : w ∈ succ v) : order.idxOf v < order.idxOf w := by
  induction order with
  | nil => exact absurd hv List.not_mem_nil
  | cons u rest ih =>
    obtain ⟨fresh, nodup⟩ := List.nodup_cons.1 nodup
    have behind : w ∈ rest := by
      rcases List.mem_cons.1 hv with rfl | hv
      · exact h.1 w hw
      · exact h.2.mem hv hw
    have differs : u ≠ w := fun same => fresh (same ▸ behind)
    rw [List.idxOf_cons_ne _ differs]
    rcases List.mem_cons.1 hv with rfl | hv
    · rw [List.idxOf_cons_self]
      exact Nat.succ_pos _
    · have differs' : u ≠ v := fun same => fresh (same ▸ hv)
      rw [List.idxOf_cons_ne _ differs']
      exact Nat.succ_lt_succ (ih h.2 nodup hv)

/-- Arcs that have a topological order close no cycle. -/
lemma IsOrder.acyclic {R : Nat → Nat → Int → Prop} (h : IsOrder succ n order)
    (arcs : ∀ {u w lag}, R u w lag → u < n ∧ w ∈ succ u) : Acyclic R := by
  refine acyclic_of_lt order.idxOf fun arc => ?_
  exact h.ahead.idxOf_lt h.nodup ((h.mem _).2 (arcs arc).1) (arcs arc).2

end

namespace Precedence

variable {p q r : Precedence} {given precedences : List Precedence} {u v w n : Nat} {lag : Int}

/-! ## Merging -/

/-- The ends of a precedence, by the source first. -/
def pair (p : Precedence) : Nat ×ₗ Nat := toLex (p.source, p.target)

/-- Precedences are of the same pair if their ends are the same. -/
lemma samePair_iff : samePair p q = true ↔ p.pair = q.pair := by
  simp [samePair, pair]

/-- The order of the precedences, written out. -/
lemma comesBefore_iff : comesBefore p q = true ↔ p.source < q.source ∨ p.source = q.source ∧
    (p.target < q.target ∨ p.target = q.target ∧ q.lag ≤ p.lag) := by
  simp [comesBefore]

/-- The order of the precedences goes by their pairs first. -/
lemma pair_le_of_comesBefore (h : comesBefore p q = true) : p.pair ≤ q.pair := by
  rw [comesBefore_iff] at h
  refine Prod.Lex.toLex_le_toLex.2 ?_
  dsimp only
  omega

/-- The order of the precedences is transitive. -/
lemma comesBefore_trans (hpq : comesBefore p q = true) (hqr : comesBefore q r = true) :
    comesBefore p r = true := by
  rw [comesBefore_iff] at *
  omega

/-- Any two precedences are ordered. -/
lemma comesBefore_total (p q : Precedence) : (comesBefore p q || comesBefore q p) = true := by
  rw [Bool.or_eq_true, comesBefore_iff, comesBefore_iff]
  omega

/-- Merging keeps only precedences that were given. -/
lemma mem_of_mem_merge (h : p ∈ merge given) : p ∈ given :=
  (List.mergeSort_perm given comesBefore).mem_iff.1 (mem_of_mem_firstOfRuns h)

/-- Sorting arranges the precedences in their order. -/
lemma pairwise_mergeSort_comesBefore (given : List Precedence) :
    (given.mergeSort comesBefore).Pairwise fun p q => comesBefore p q = true := by
  refine List.pairwise_mergeSort ?_ comesBefore_total given
  exact fun _ _ _ => comesBefore_trans

/-- After merging the pairs are different and increase. -/
lemma pairwise_merge (given : List Precedence) : (merge given).Pairwise fun p q => p.pair < q.pair := by
  have hsame : ∀ p q, samePair p q = true ↔ pair p = pair q := fun _ _ => samePair_iff
  refine pairwise_firstOfRuns hsame ?_
  exact (pairwise_mergeSort_comesBefore given).imp pair_le_of_comesBefore

/-- For each precedence that was given one of the same pair is kept that asks for no less. -/
lemma exists_mem_merge (h : p ∈ given) :
    ∃ lag, ⟨p.source, p.target, lag⟩ ∈ merge given ∧ p.lag ≤ lag := by
  have hsame : ∀ p q, samePair p q = true ↔ pair p = pair q := fun _ _ => samePair_iff
  have sorted := pairwise_mergeSort_comesBefore given
  have member : p ∈ given.mergeSort comesBefore := (List.mergeSort_perm _ _).mem_iff.2 h
  obtain ⟨q, kept, same, before⟩ := exists_mem_firstOfRuns_not_behind hsame sorted member
  obtain ⟨source, target⟩ := Prod.mk.inj (toLex_inj.1 same)
  refine ⟨q.lag, ?_, ?_⟩
  · rw [← source, ← target]
    exact kept
  · rcases before with rfl | before
    · exact Int.le_refl _
    · rw [comesBefore_iff] at before
      omega

/-- The listed precedences as arcs. -/
def Among (precedences : List Precedence) (u w : Nat) (lag : Int) : Prop :=
  ⟨u, w, lag⟩ ∈ precedences

/-- The kept precedences close a cycle only if the given ones do. -/
lemma acyclic_merge : Acyclic (Among (merge given)) ↔ Acyclic (Among given) := by
  constructor
  · intro acyclic
    refine acyclic.of_joined fun arc => ?_
    obtain ⟨lag, kept, -⟩ := exists_mem_merge arc
    exact ⟨lag, kept⟩
  · intro acyclic
    exact acyclic.mono mem_of_mem_merge

/-- The lags of the kept precedences sum up to no more than those of the given ones. -/
lemma sum_lag_merge_le (nonneg : ∀ p ∈ given, 0 ≤ p.lag) :
    ((merge given).map Precedence.lag).sum ≤ (given.map Precedence.lag).sum := by
  have sorted : (given.mergeSort comesBefore).Perm given := List.mergeSort_perm given comesBefore
  rw [← (sorted.map Precedence.lag).sum_eq]
  refine ((firstOfRuns_sublist _).map Precedence.lag).sum_le_sum fun x member => ?_
  obtain ⟨p, given, rfl⟩ := List.mem_map.1 member
  exact nonneg p (sorted.mem_iff.1 given)

/-! ## Targets -/

/-- The targets of a job are the jobs to which its precedences lead. -/
lemma mem_targetsOf : (w, lag) ∈ targetsOf precedences v ↔ ⟨v, w, lag⟩ ∈ precedences := by
  unfold targetsOf
  rw [List.mem_map]
  constructor
  · rintro ⟨q, member, same⟩
    obtain ⟨member, source⟩ := List.mem_filter.1 member
    obtain ⟨rfl, rfl⟩ := Prod.mk.inj same
    rw [beq_iff_eq] at source
    rwa [← source]
  · intro member
    exact ⟨_, List.mem_filter.2 ⟨member, beq_self_eq_true v⟩, rfl⟩

/-- The jobs that follow a job. -/
def followers (precedences : List Precedence) (v : Nat) : List Nat :=
  (targetsOf precedences v).map Prod.fst

/-- A job follows another one if a precedence leads there. -/
lemma mem_followers : w ∈ followers precedences v ↔ ∃ lag, ⟨v, w, lag⟩ ∈ precedences := by
  unfold followers
  rw [List.mem_map]
  constructor
  · rintro ⟨⟨_, lag⟩, member, rfl⟩
    exact ⟨lag, mem_targetsOf.1 member⟩
  · rintro ⟨lag, member⟩
    exact ⟨(w, lag), mem_targetsOf.2 member, rfl⟩

/-- The jobs that follow a job, when a precedence is put in front. -/
lemma count_followers_cons : (followers (p :: precedences) u).count w =
    (if p.source = u then if p.target = w then 1 else 0 else 0) +
      (followers precedences u).count w := by
  unfold followers targetsOf
  by_cases source : p.source = u
  · rw [List.filter_cons_of_pos (by simpa using source), if_pos source, List.map_cons, List.map_cons,
      List.count_cons, Nat.add_comm]
    simp only [beq_iff_eq]
  · rw [List.filter_cons_of_neg (by simpa using source), if_neg source, Nat.zero_add]

/-- The precedences that lead into a job are counted at their sources. -/
lemma sum_count_followers (inside : ∀ p ∈ precedences, p.source < n) (w : Nat) :
    ∑ u ∈ Finset.range n, (followers precedences u).count w = inDegree precedences w := by
  induction precedences with
  | nil => simp [followers, targetsOf, inDegree]
  | cons p rest ih =>
    have source := inside p List.mem_cons_self
    have others := ih fun q member => inside q (List.mem_cons_of_mem _ member)
    simp only [count_followers_cons, Finset.sum_add_distrib, others]
    rw [Finset.sum_ite_eq, if_pos (Finset.mem_range.2 source), inDegree, inDegree, List.countP_cons,
      Nat.add_comm]
    simp only [beq_iff_eq]

/-- The sum of the lags of the precedences that lead from a job. -/
def lagFrom (precedences : List Precedence) (v : Nat) : Int :=
  ((targetsOf precedences v).map Prod.snd).sum

/-- The sum of the lags from a job, when a precedence is put in front. -/
lemma lagFrom_cons : lagFrom (p :: precedences) u =
    (if p.source = u then p.lag else 0) + lagFrom precedences u := by
  unfold lagFrom targetsOf
  by_cases here : p.source = u
  · simp [here]
  · simp [here]

/-- The lags of the precedences are summed up at their sources. -/
lemma sum_lagFrom (inside : ∀ p ∈ precedences, p.source < n) :
    ∑ u ∈ Finset.range n, lagFrom precedences u = (precedences.map Precedence.lag).sum := by
  induction precedences with
  | nil => simp [lagFrom, targetsOf]
  | cons p rest ih =>
    have source := inside p List.mem_cons_self
    have others := ih fun q member => inside q (List.mem_cons_of_mem _ member)
    simp only [lagFrom_cons, Finset.sum_add_distrib, others]
    rw [Finset.sum_ite_eq, if_pos (Finset.mem_range.2 source), List.map_cons, List.sum_cons]

/-- The degrees with which the search for a topological order starts. -/
lemma degreesAre_inDegree (inside : ∀ p ∈ precedences, p.source < n) :
    DegreesAre ((Array.range n).map (inDegree precedences)) n
      fun w => ∑ u ∈ Finset.range n, (followers precedences u).count w where
  size := by rw [Array.size_map, Array.size_range]
  entry w hw := by
    rw [Array.getElem?_map, Array.getElem?_range, if_pos hw, sum_count_followers inside]
    rfl

end Precedence

end Leveling
