import Leveling.Proofs.Search.Stocking

/-!
# Draws lose no candidate

The pool keeps the sum of its weights next to its candidates and adjusts it with every candidate that
comes or goes, and a draw moves the last candidate into the slot that became free.  Whatever was done
with a pool before (`Handled`), a draw from it takes out one candidate and leaves all others, and over
exact numbers the recorded sum is the sum of the weights.

A weighted draw lays the weights out one after the other, from zero to their sum, and takes the candidate
on whose stretch a random point lies.  The stretches cover the whole length without overlap, so there is
always exactly one such candidate, and the last one is never taken for want of another.
-/

namespace Leveling

open Checked

namespace CandidatePool

/-! ## Histories of a pool -/

/-- The pools that pushes, scans and draws lead to, with any bounds, scorers and random numbers. -/
inductive Handled {α : Type} [Scalar α] : CandidatePool α → Prop
  | empty : Handled empty
  | push {pool : CandidatePool α} (c : Candidate α) (h : Handled pool) : Handled (pool.push c)
  | clear {pool : CandidatePool α} (h : Handled pool) : Handled pool.clear
  | collect {pool pool' : CandidatePool α} {b : Bounds} {range : Span} (h : Handled pool)
    (answer : pool.collect b range = .ok pool') : Handled pool'
  | full {ρ : Type} {pool : CandidatePool α} {b : Bounds} {scorer : Scorer ρ α}
    {r : CandidatePool α × Scorer ρ α} (h : Handled pool)
    (answer : pool.buildFull b scorer = .ok r) : Handled r.1
  | batch {ρ : Type} [RandomSource ρ] {pool : CandidatePool α} {b : Bounds} {scorer : Scorer ρ α}
    {size : Nat} {randomize : Bool} {source : ρ} {r : CandidatePool α × Scorer ρ α × ρ}
    (h : Handled pool) (answer : pool.buildBatch b scorer size randomize source = .ok r) :
    Handled r.1
  | draw {ρ : Type} [RandomSource ρ] {pool : CandidatePool α} (weighted : Bool) (source : ρ)
    (h : Handled pool) : Handled (pool.draw weighted source).2.1

/-! ## One candidate goes, the others stay -/

section

variable {ρ α : Type} [RandomSource ρ] [Scalar α] {pool : CandidatePool α} {c : Candidate α}
  {i : Nat} {weighted : Bool} {source : ρ}

/-- The pool without the candidate of a slot. -/
def without (pool : CandidatePool α) (i : Nat) (c : Candidate α) : CandidatePool α :=
  let entries := swapRemove pool.entries i
  { pool with entries, weightSum := if entries.isEmpty then 0 else pool.weightSum - c.weight }

/-- The candidate of a slot and those that are left without it are those of the pool. -/
lemma perm_without (found : pool.entries[i]? = some c) :
    (c :: (pool.without i c).entries.toList).Perm pool.entries.toList := by
  obtain ⟨inside, rfl⟩ := Array.getElem?_eq_some_iff.1 found
  exact perm_swapRemove inside

/-- A draw takes out the candidate of the position that was drawn. -/
lemma draw_eq {source' : ρ} (position : pool.drawPosition weighted source = (i, source'))
    (found : pool.entries[i]? = some c) :
    pool.draw weighted source = (some c, pool.without i c, source') := by
  have some_left : ¬pool.entries.isEmpty = true := by
    intro none
    rw [Array.isEmpty_iff.1 none] at found
    cases found
  unfold draw
  rw [if_neg some_left, position]
  dsimp only
  rw [found]
  rfl

/-- A draw from a pool that is not empty takes out one of its candidates. -/
lemma draw_of_not_isEmpty (some_left : pool.isEmpty = false) (weighted : Bool) (source : ρ) :
    ∃ i c source', pool.entries[i]? = some c ∧
      pool.draw weighted source = (some c, pool.without i c, source') := by
  have positive : 0 < pool.entries.size := by
    rw [Array.size_pos_iff, ne_eq, ← Array.isEmpty_iff, show pool.entries.isEmpty = false from some_left]
    exact Bool.false_ne_true
  have found := Array.getElem?_eq_getElem (drawPosition_lt positive weighted source)
  exact ⟨_, _, _, found, draw_eq rfl found⟩

/-- Draws a candidate for each flag, by weight or all alike, until there is none. -/
def drawMany : List Bool → CandidatePool α → ρ → List (Candidate α) × CandidatePool α
  | [], pool, _ => ([], pool)
  | weighted :: rest, pool, source =>
    match pool.draw weighted source with
    | (none, pool, _) => ([], pool)
    | (some c, pool, source) =>
      let (drawn, pool) := drawMany rest pool source
      (c :: drawn, pool)

/-- What was drawn and what is left are the candidates of the pool, and as many are drawn as there are
flags or candidates. -/
lemma drawMany_perm (flags : List Bool) : ∀ (pool : CandidatePool α) (source : ρ),
    ((drawMany flags pool source).1 ++ (drawMany flags pool source).2.entries.toList).Perm
        pool.entries.toList ∧
      (drawMany flags pool source).1.length = min flags.length pool.entries.size := by
  induction flags with
  | nil => exact fun pool source => ⟨.refl _, (Nat.zero_min _).symm⟩
  | cons weighted rest ih =>
    intro pool source
    cases left : pool.isEmpty with
    | true =>
      have none : pool.entries.size = 0 := Array.isEmpty_iff_size_eq_zero.1 left
      rw [drawMany, draw_of_isEmpty left, none]
      exact ⟨.refl _, rfl⟩
    | false =>
      obtain ⟨i, c, source', found, drawn⟩ := draw_of_not_isEmpty left weighted source
      obtain ⟨perm, length⟩ := ih (pool.without i c) source'
      have taken := perm_without found
      have size : (pool.without i c).entries.size + 1 = pool.entries.size := taken.length_eq
      rw [drawMany, drawn]
      refine ⟨(perm.cons c).trans taken, ?_⟩
      rw [List.length_cons, length, List.length_cons]
      omega

end

/-! ## The sum of the weights -/

/-- The sum of the weights of the candidates before a slot. -/
def weightBefore {α : Type} [Scalar α] (pool : CandidatePool α) (i : Nat) : α :=
  Scalar.sum ((pool.entries.toList.take i).map Candidate.weight)

/-- The point at the fraction `u` of the sum of the weights lies on the stretch of the candidate of
slot `i`. -/
def Selects {α : Type} [Scalar α] (pool : CandidatePool α) (u : α) (i : Nat) : Prop :=
  pool.weightBefore i ≤ u * pool.weightSum ∧ u * pool.weightSum < pool.weightBefore (i + 1)

section

variable {ρ α : Type} [RandomSource ρ] [ExactScalar α] {pool : CandidatePool α} {c : Candidate α}
  {i : Nat} {weighted : Bool} {source : ρ}

/-- The sum of the weights of listed candidates. -/
def total (entries : List (Candidate α)) : α := (entries.map Candidate.weight).sum

/-- The weights of a list whose first entry is known. -/
@[simp] lemma total_cons (entries : List (Candidate α)) :
    total (c :: entries) = c.weight + total entries := by
  unfold total
  rw [List.map_cons, List.sum_cons]

/-- The weights before a slot are summed up exactly. -/
lemma weightBefore_eq : pool.weightBefore i = total (pool.entries.toList.take i) :=
  ExactScalar.sum_eq _

/-- The recorded sum is that of the weights. -/
def Weighed (pool : CandidatePool α) : Prop := pool.weightSum = total pool.entries.toList

/-- A push adds its weight. -/
lemma Weighed.push (c : Candidate α) (h : pool.Weighed) : (pool.push c).Weighed := by
  unfold Weighed at h ⊢
  unfold total at h ⊢
  unfold CandidatePool.push
  rw [Array.toList_push, List.map_append, List.sum_append, List.map_singleton, List.sum_singleton, ← h]

/-- Without a candidate there is less weight, or none at all. -/
lemma Weighed.without (h : pool.Weighed) (found : pool.entries[i]? = some c) :
    (pool.without i c).Weighed := by
  have taken : c.weight + total (pool.without i c).entries.toList = pool.weightSum := by
    rw [← total_cons, h]
    exact ((perm_without found).map _).sum_eq
  unfold Weighed
  by_cases last : (swapRemove pool.entries i).isEmpty
  · have none : (pool.without i c).entries = #[] := Array.isEmpty_iff.1 last
    rw [none]
    exact if_pos last
  · rw [show (pool.without i c).weightSum = pool.weightSum - c.weight from if_neg last, ← taken]
    exact add_sub_cancel_left _ _

/-- The recorded sum is that of the weights, whatever was done with the pool. -/
lemma Handled.weighed (handled : Handled pool) : pool.Weighed := by
  have push : ∀ {pool : CandidatePool α} {s t : Nat} (weight : α), True → pool.Weighed →
      Weighed (pool.push ⟨s, t, weight⟩) := fun _ _ h => h.push _
  have apart : ∀ jobs : List Nat, jobs.Pairwise fun _ _ => True :=
    fun jobs => List.pairwise_of_forall fun _ _ => trivial
  induction handled with
  | empty => rfl
  | push c _ ih => exact ih.push c
  | clear => rfl
  | collect _ answer ih =>
    obtain ⟨jobs, -, same⟩ := bind_eq_ok.1 answer
    cases same
    exact ih
  | full _ answer =>
    exact buildFull_keeps id push (apart _) (fun _ _ => rfl) _ answer
  | batch _ answer =>
    exact buildBatch_keeps id push (fun _ h => h) (apart _) (fun _ _ => rfl) _ answer
  | @draw ρ _ pool weighted source _ ih =>
    cases left : pool.isEmpty with
    | true =>
      rw [draw_of_isEmpty left]
      exact ih
    | false =>
      obtain ⟨i, c, source', found, drawn⟩ := draw_of_not_isEmpty left weighted source
      rw [drawn]
      exact ih.without found

/-! ## The candidate that is selected -/

/-- A point before the end of all weights lies on a stretch, and the scan finds it. -/
lemma exists_pick {entries : List (Candidate α)} : ∀ {x : α} {k : Nat}, 0 ≤ x → x < total entries →
    ∃ i, pick x k entries = some (k + i) ∧ total (entries.take i) ≤ x ∧
      x < total (entries.take (i + 1)) := by
  induction entries with
  | nil => exact fun nonneg below => absurd (nonneg.trans_lt below) (lt_irrefl 0)
  | cons c rest ih =>
    intro x k nonneg below
    by_cases here : x - c.weight < 0
    · refine ⟨0, if_pos here, nonneg, ?_⟩
      rw [List.take_succ_cons, total_cons, List.take_zero]
      exact (sub_neg.1 here).trans_eq (add_zero _).symm
    · have rest_below : x - c.weight < total rest := by
        rw [total_cons] at below
        exact sub_left_lt_of_lt_add below
      obtain ⟨i, picked, above, under⟩ := ih (k := k + 1) (not_lt.1 here) rest_below
      refine ⟨i + 1, ?_, ?_, ?_⟩
      · rw [pick, if_neg here, picked, Nat.add_assoc, Nat.add_comm 1]
      · rw [List.take_succ_cons, total_cons]
        exact le_sub_iff_add_le'.1 above
      · rw [List.take_succ_cons, total_cons]
        exact sub_lt_iff_lt_add'.1 under

/-- Weights from zero on never lower the sum. -/
lemma total_take_le {entries : List (Candidate α)} (nonneg : ∀ c ∈ entries, 0 ≤ c.weight) {j : Nat}
    (le : i ≤ j) : total (entries.take i) ≤ total (entries.take j) := by
  have part : (entries.take i).Sublist (entries.take j) := (List.take_prefix_take_left le).sublist
  refine (part.map Candidate.weight).sum_le_sum fun x member => ?_
  obtain ⟨c, listed, rfl⟩ := List.mem_map.1 member
  exact nonneg c (List.mem_of_mem_take listed)

/-- A point lies on one stretch only. -/
lemma Selects.unique (nonneg : ∀ c ∈ pool.entries.toList, 0 ≤ c.weight) {u : α} {j : Nat}
    (hi : pool.Selects u i) (hj : pool.Selects u j) : i = j := by
  have not_lt : ∀ {i j : Nat}, pool.Selects u i → pool.Selects u j → ¬i < j := by
    intro i j hi hj less
    have next : pool.weightBefore (i + 1) ≤ pool.weightBefore j := by
      rw [weightBefore_eq, weightBefore_eq]
      exact total_take_le nonneg less
    exact absurd (hi.2.trans_le (next.trans hj.1)) (lt_irrefl _)
  exact Nat.le_antisymm (Nat.not_lt.1 (not_lt hj hi)) (Nat.not_lt.1 (not_lt hi hj))

/-- A fraction lies in the unit interval without its right end. -/
lemma fraction_mem (source : ρ) :
    0 ≤ (RandomSource.fraction source : α × ρ).1 ∧ (RandomSource.fraction source : α × ρ).1 < 1 := by
  have positive : (0 : α) < ((9007199254740992 : Nat) : α) := Nat.cast_pos.2 (by decide)
  refine ⟨div_nonneg (Nat.cast_nonneg _) positive.le, (div_lt_one positive).2 ?_⟩
  exact Nat.cast_lt.2 (RandomSource.numerator_lt source)

/-- If no weight is zero or less, the scan selects one candidate for each fraction. -/
lemma Weighed.exists_selects (h : pool.Weighed) (some_left : pool.isEmpty = false)
    (positive : ∀ c ∈ pool.entries, 0 < c.weight) {u : α} (nonneg : 0 ≤ u) (below : u < 1) :
    0 < pool.weightSum ∧ ∃ i, pick (u * pool.weightSum) 0 pool.entries.toList = some i ∧
      ∀ j, pool.Selects u j ↔ j = i := by
  have some_weight : 0 < pool.weightSum := by
    rw [h]
    refine List.sum_pos _ (fun x member => ?_) fun none => ?_
    · obtain ⟨c, listed, rfl⟩ := List.mem_map.1 member
      exact positive c (Array.mem_toList_iff.1 listed)
    · rw [List.map_eq_nil_iff, Array.toList_eq_nil_iff] at none
      rw [show pool.isEmpty = true from Array.isEmpty_iff.2 none] at some_left
      cases some_left
  have inside : u * pool.weightSum < total pool.entries.toList := by
    rw [← h]
    exact mul_lt_of_lt_one_left some_weight below
  obtain ⟨i, picked, above, under⟩ :=
    exists_pick (k := 0) (mul_nonneg nonneg some_weight.le) inside
  have selects : pool.Selects u i := by
    unfold Selects
    rw [weightBefore_eq, weightBefore_eq]
    exact ⟨above, under⟩
  refine ⟨some_weight, i, ?_, fun j => ⟨fun other => ?_, fun same => same ▸ selects⟩⟩
  · rw [picked, Nat.zero_add]
  · exact other.unique (fun c listed => (positive c (Array.mem_toList_iff.1 listed)).le) selects

/-- A weighted draw takes the candidate that is selected. -/
lemma draw_of_selects (some_weight : 0 < pool.weightSum)
    (picked : pick ((RandomSource.fraction source : α × ρ).1 * pool.weightSum) 0
      pool.entries.toList = some i) :
    ∃ c, pool.entries[i]? = some c ∧ pool.draw true source =
      (some c, pool.without i c, (RandomSource.fraction source : α × ρ).2) := by
  have inside : i < pool.entries.size := by
    have := pick_lt picked
    rwa [Nat.zero_add, Array.length_toList] at this
  have position : pool.drawPosition true source = (i, (RandomSource.fraction source : α × ρ).2) := by
    unfold drawPosition
    rw [if_pos ⟨rfl, some_weight⟩]
    dsimp only
    rw [picked]
    rfl
  have found := Array.getElem?_eq_getElem inside
  exact ⟨_, found, draw_eq position found⟩

end

/-- **Drawing is a weighted selection that loses nothing.**  Whatever was done with a pool before, a draw
from it takes out exactly one of its candidates, by weight or all alike, and nothing is drawn from an
empty pool; so draws to exhaustion give the candidates of the pool in some order.  If scalars are exact,
the recorded sum is the sum of the weights.  If the weights are positive besides, each random value in
the unit interval selects one candidate, which the scan finds without falling back to the last one, and
this is the candidate that a weighted draw takes. -/
theorem draws_lossless {ρ α : Type} [RandomSource ρ] [Scalar α] {pool : CandidatePool α}
    (handled : Handled pool) :
    (∀ (weighted : Bool) (source : ρ),
      (pool.isEmpty = true → pool.draw weighted source = (none, pool, source)) ∧
      (pool.isEmpty = false → ∃ c pool' source', pool.draw weighted source = (some c, pool', source') ∧
        (c :: pool'.entries.toList).Perm pool.entries.toList)) ∧
    (∀ (flags : List Bool) (source : ρ), pool.entries.size ≤ flags.length →
      (drawMany flags pool source).1.Perm pool.entries.toList ∧
      (drawMany flags pool source).2.isEmpty = true) ∧
    (Scalar.IsExact α → pool.weightSum = pool.weightBefore pool.entries.size ∧
      (pool.isEmpty = false → (∀ c ∈ pool.entries, 0 < c.weight) →
        (∀ u : α, 0 ≤ u → u < 1 → ∃ i, pick (u * pool.weightSum) 0 pool.entries.toList = some i ∧
          ∀ j, pool.Selects u j ↔ j = i) ∧
        ∀ source : ρ, ∃ (u : α) (source' : ρ), RandomSource.fraction source = (u, source') ∧
          0 ≤ u ∧ u < 1 ∧ ∃ i c pool', pool.Selects u i ∧ pool.entries[i]? = some c ∧
            pool.draw true source = (some c, pool', source') ∧
            pool'.entries = swapRemove pool.entries i)) := by
  refine ⟨fun weighted source => ⟨fun none => draw_of_isEmpty none weighted source, fun some_left => ?_⟩,
    fun flags source enough => ?_, ?_⟩
  · obtain ⟨i, c, source', found, drawn⟩ := draw_of_not_isEmpty some_left weighted source
    exact ⟨c, _, source', drawn, perm_without found⟩
  · obtain ⟨perm, length⟩ := drawMany_perm flags pool source
    rw [Nat.min_eq_right enough] at length
    have left : (drawMany flags pool source).2.entries.toList = [] := by
      have sizes := perm.length_eq
      rw [List.length_append, length, ← Array.length_toList, Nat.add_eq_left] at sizes
      exact List.length_eq_zero_iff.1 sizes
    rw [left, List.append_nil] at perm
    exact ⟨perm, Array.isEmpty_iff.2 (Array.toList_eq_nil_iff.1 left)⟩
  · rintro ⟨exact_scalar, rfl⟩
    have weighed := handled.weighed
    refine ⟨?_, fun some_left positive => ⟨fun u nonneg below => ?_, fun source => ?_⟩⟩
    · rw [weightBefore_eq, ← Array.length_toList, List.take_length]
      exact weighed
    · exact (weighed.exists_selects some_left positive nonneg below).2
    · obtain ⟨nonneg, below⟩ : 0 ≤ (RandomSource.fraction source : α × ρ).1 ∧
        (RandomSource.fraction source : α × ρ).1 < 1 := fraction_mem source
      obtain ⟨some_weight, i, picked, selects⟩ :=
        weighed.exists_selects some_left positive nonneg below
      obtain ⟨c, found, drawn⟩ := draw_of_selects some_weight picked
      exact ⟨_, _, rfl, nonneg, below, i, c, _, (selects i).2 rfl, found, drawn, rfl⟩

/-- Three candidates of different weights. -/
def trio : CandidatePool ℚ := ((empty.push ⟨0, 1, 1⟩).push ⟨1, 2, 5⟩).push ⟨2, 0, 2⟩

/-- All three candidates are drawn by weight, all alike, and by weight again.  The middle of the weights
lies on the stretch of the heaviest one, which is therefore picked. -/
theorem draws_lossless_trio : Handled trio ∧ trio.weightSum = trio.weightBefore 3 ∧
    (drawMany [true, false, true] trio (ChaCha.ofSeed 8)).1.Perm trio.entries.toList ∧
    pick (1 / 2 * trio.weightSum) 0 trio.entries.toList = some 1 ∧ trio.Selects (1 / 2) 1 := by
  have handled : Handled trio := ((Handled.empty.push _).push _).push _
  obtain ⟨-, exhausts, exactly⟩ := @draws_lossless ChaCha ℚ _ _ _ handled
  obtain ⟨weighed, selects⟩ := exactly ExactScalar.isExact
  obtain ⟨selects, -⟩ := selects rfl (by decide +kernel)
  obtain ⟨i, picked, only⟩ := selects (1 / 2) (by norm_num) (by norm_num)
  have second : pick (1 / 2 * trio.weightSum) 0 trio.entries.toList = some 1 := by decide +kernel
  have same : 1 = i := Option.some.inj (second.symm.trans picked)
  exact ⟨handled, weighed, (exhausts _ _ le_rfl).1, second, (only 1).2 same⟩

end CandidatePool

end Leveling
