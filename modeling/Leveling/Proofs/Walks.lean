import Mathlib.Data.Finset.Card
import Mathlib.Logic.Relation
import Mathlib.Order.Bounds.Basic
import Mathlib.Tactic.Common

/-!
# Longest walks

Jobs are joined by arcs with lags.  The arcs are given as a relation: `R u w lag` says that an
arc of lag `lag` leads from `u` to `w`.  If each job has a *floor*, the height that a job needs
is the largest sum of a floor and the lags of a walk that leads from there to the job.  This
file is about such heights: that they are the only ones without slack if the arcs close no
cycle, and how much of them is known while some of the arcs are still to be looked at.
-/

namespace Leveling

open Relation

variable {R S : Nat → Nat → Int → Prop} {k u v w n : Nat} {len len' lag x y : Int}

/-- A walk of arcs leads from `k` to a job, and the lags of its arcs sum up to a length. -/
inductive Walk (R : Nat → Nat → Int → Prop) (k : Nat) : Nat → Int → Prop
  | nil : Walk R k k 0
  | snoc {u w : Nat} {len lag : Int} : Walk R k u len → R u w lag → Walk R k w (len + lag)

/-- The arcs with their ends exchanged. -/
def reversed (R : Nat → Nat → Int → Prop) (u w : Nat) (lag : Int) : Prop := R w u lag

/-- An arc of some lag leads from one job to another. -/
def Joined (R : Nat → Nat → Int → Prop) (u w : Nat) : Prop := ∃ lag, R u w lag

/-- The arcs close no cycle. -/
def Acyclic (R : Nat → Nat → Int → Prop) : Prop := ∀ v, ¬TransGen (Joined R) v v

/-- No chain of arcs leads from one of two jobs to the other, and they are not the same. -/
def Unordered (R : Nat → Nat → Int → Prop) (u w : Nat) : Prop :=
  ¬ReflTransGen (Joined R) u w ∧ ¬ReflTransGen (Joined R) w u

/-! ## Walks -/

/-- An arc in front of a walk. -/
lemma Walk.cons (h : R u v lag) (walk : Walk R v w len) : Walk R u w (lag + len) := by
  induction walk with
  | nil => simpa using Walk.nil.snoc h
  | snoc _ last ih =>
    rw [← Int.add_assoc]
    exact ih.snoc last

/-- A walk behind a walk. -/
lemma Walk.trans (walk : Walk R u v len) (walk' : Walk R v w len') : Walk R u w (len + len') := by
  induction walk' with
  | nil => simpa using walk
  | snoc _ last ih =>
    rw [← Int.add_assoc]
    exact ih.snoc last

/-- A walk backwards. -/
lemma Walk.reverse (walk : Walk R u v len) : Walk (reversed R) v u len := by
  induction walk with
  | nil => exact .nil
  | snoc _ last ih =>
    rw [Int.add_comm]
    exact ih.cons last

/-- The walks over the exchanged arcs are the walks backwards. -/
lemma walk_reversed : Walk (reversed R) u v len ↔ Walk R v u len :=
  ⟨Walk.reverse, Walk.reverse⟩

/-- A walk stays a walk when arcs are added. -/
lemma Walk.mono (sub : ∀ {u w lag}, R u w lag → S u w lag) (walk : Walk R u v len) :
    Walk S u v len := by
  induction walk with
  | nil => exact .nil
  | snoc _ last ih => exact ih.snoc (sub last)

/-- Without negative lags no walk has a negative length. -/
lemma Walk.nonneg (lags : ∀ {u w lag}, R u w lag → 0 ≤ lag) (walk : Walk R u v len) :
    0 ≤ len := by
  induction walk with
  | nil => exact Int.le_refl 0
  | snoc _ last ih => exact Int.add_nonneg ih (lags last)

/-- A chain of arcs is a walk. -/
lemma exists_walk (chain : TransGen (Joined R) u v) : ∃ len, Walk R u v len := by
  induction chain with
  | single last =>
    obtain ⟨lag, last⟩ := last
    exact ⟨_, Walk.nil.snoc last⟩
  | tail _ last ih =>
    obtain ⟨len, walk⟩ := ih
    obtain ⟨lag, last⟩ := last
    exact ⟨_, walk.snoc last⟩

/-! ## Arcs without cycles -/

/-- No arc leads from a job to itself. -/
lemma Acyclic.ne (h : Acyclic R) (arc : R u w lag) : u ≠ w := by
  rintro rfl
  exact h u (.single ⟨lag, arc⟩)

/-- Arcs close no cycle if other arcs join the same jobs and close none. -/
lemma Acyclic.of_joined (h : Acyclic S) (sub : ∀ {u w lag}, R u w lag → Joined S u w) :
    Acyclic R := by
  intro v cycle
  refine h v (TransGen.mono (fun u w joined => ?_) v v cycle)
  obtain ⟨lag, arc⟩ := joined
  exact sub arc

/-- Fewer arcs close no more cycles. -/
lemma Acyclic.mono (h : Acyclic S) (sub : ∀ {u w lag}, R u w lag → S u w lag) : Acyclic R :=
  h.of_joined fun arc => ⟨_, sub arc⟩

/-- Unordered jobs are different, and neither comes behind the other. -/
lemma unordered_iff :
    Unordered R u w ↔ u ≠ w ∧ ¬TransGen (Joined R) u w ∧ ¬TransGen (Joined R) w u := by
  unfold Unordered
  rw [reflTransGen_iff_eq_or_transGen, reflTransGen_iff_eq_or_transGen]
  grind

/-- No arc joins unordered jobs. -/
lemma Unordered.not_joined (h : Unordered R u w) : ¬Joined R u w := fun joined => h.1 (.single joined)

/-- Arcs along which a number grows close no cycle. -/
lemma acyclic_of_lt (f : Nat → Nat) (grows : ∀ {u w lag}, R u w lag → f u < f w) : Acyclic R := by
  have chains : ∀ {u w}, TransGen (Joined R) u w → f u < f w := by
    intro u w chain
    induction chain with
    | single last =>
      obtain ⟨lag, arc⟩ := last
      exact grows arc
    | tail _ last ih =>
      obtain ⟨lag, arc⟩ := last
      exact ih.trans (grows arc)
  exact fun v cycle => lt_irrefl _ (chains cycle)

/-- The exchange of the ends closes no cycles. -/
lemma Acyclic.reversed (h : Acyclic R) : Acyclic (reversed R) := by
  intro v cycle
  exact h v (transGen_swap.1 cycle)

/-- The number of jobs below `n` from which a chain of arcs leads to a job. -/
noncomputable def rank (R : Nat → Nat → Int → Prop) (n v : Nat) : Nat :=
  open Classical in ((Finset.range n).filter fun u => TransGen (Joined R) u v).card

/-- An arc leads to a job of a higher rank. -/
lemma Acyclic.rank_lt (h : Acyclic R) (arc : R u w lag) (hu : u < n) :
    rank R n u < rank R n w := by
  classical
  refine Finset.card_lt_card (Finset.ssubset_iff_subset_ne.2 ⟨fun k hk => ?_, fun same => ?_⟩)
  · rw [Finset.mem_filter] at hk ⊢
    exact ⟨hk.1, hk.2.tail ⟨lag, arc⟩⟩
  · have above : u ∈ (Finset.range n).filter fun k => TransGen (Joined R) k w :=
      Finset.mem_filter.2 ⟨Finset.mem_range.2 hu, .single ⟨lag, arc⟩⟩
    rw [← same] at above
    exact h u (Finset.mem_filter.1 above).2

/-- The rank of a job is less than the number of jobs. -/
lemma Acyclic.rank_lt_of_lt (h : Acyclic R) (hv : v < n) : rank R n v < n := by
  classical
  have below : rank R n v < (Finset.range n).card := by
    refine Finset.card_lt_card (Finset.ssubset_iff_subset_ne.2 ⟨Finset.filter_subset _ _, ?_⟩)
    intro same
    have itself : v ∈ (Finset.range n).filter fun k => TransGen (Joined R) k v := by
      rw [same]
      exact Finset.mem_range.2 hv
    exact h v (Finset.mem_filter.1 itself).2
  rwa [Finset.card_range] at below

/-- What holds of a job when it holds of all jobs with arcs to it, holds of all jobs. -/
lemma Acyclic.induction (h : Acyclic R) (inside : ∀ {u w lag}, R u w lag → u < n)
    {P : Nat → Prop} (step : ∀ w, (∀ u lag, R u w lag → P u) → P w) (v : Nat) : P v := by
  induction rank : rank R n v using Nat.strongRecOn generalizing v with
  | ind r ih =>
    refine step v fun u lag arc => ih _ ?_ u rfl
    rw [← rank]
    exact h.rank_lt arc (inside arc)

/-! ## Heights -/

variable {floor h : Nat → Int}

/-- The largest sum of a floor and the length of a walk from there to `v` is `x`. -/
def IsLongest (R : Nat → Nat → Int → Prop) (floor : Nat → Int) (v : Nat) (x : Int) : Prop :=
  IsGreatest {y | ∃ k len, Walk R k v len ∧ y = floor k + len} x

/-- What is demanded of the height of `v`: its floor, and what the heights of the jobs with arcs to
it imply. -/
def demands (R : Nat → Nat → Int → Prop) (floor h : Nat → Int) (v : Nat) : Set Int :=
  {y | y = floor v ∨ ∃ u lag, R u v lag ∧ y = h u + lag}

/-- The height of `v` is the largest one that is demanded. -/
def IsTight (R : Nat → Nat → Int → Prop) (floor h : Nat → Int) (v : Nat) : Prop :=
  IsGreatest (demands R floor h v) (h v)

/-- The height of `v` is the sum of a floor and the length of a walk from there. -/
def Attained (R : Nat → Nat → Int → Prop) (floor h : Nat → Int) (v : Nat) : Prop :=
  ∃ k len, Walk R k v len ∧ h v = floor k + len

/-- There is only one largest sum. -/
lemma IsLongest.unique (hx : IsLongest R floor v x) (hy : IsLongest R floor v y) : x = y :=
  IsGreatest.unique hx hy

/-- A walk is no longer than the largest sum allows. -/
lemma IsLongest.le (hx : IsLongest R floor v x) (walk : Walk R k v len) : floor k + len ≤ x :=
  hx.2 ⟨k, len, walk, rfl⟩

/-- A floor is passed on along each walk if it is along each arc. -/
lemma Walk.le_of_arcs (below : ∀ k, floor k ≤ h k) (arcs : ∀ {u w lag}, R u w lag → h u + lag ≤ h w)
    (walk : Walk R k v len) : floor k + len ≤ h v := by
  induction walk with
  | nil => simpa using below k
  | snoc _ last ih =>
    have := arcs last
    omega

/-- Heights may be too low at hidden jobs only: if an arc demands more of its target, the target is
hidden, and every other arc from a hidden job leads to a hidden one. -/
lemma Walk.le_of_hidden {hidden : Nat → Prop} (below : ∀ k, floor k ≤ h k)
    (stale : ∀ {u w lag}, R u w lag → h w < h u + lag → hidden w)
    (travels : ∀ {u w lag}, R u w lag → h u + lag ≤ h w → hidden u → hidden w)
    (walk : Walk R k v len) (seen : ¬hidden v) : floor k + len ≤ h v := by
  induction walk with
  | nil => simpa using below k
  | snoc _ last ih =>
    have enough := not_lt.1 fun less => seen (stale last less)
    have before := ih fun hiddenBefore => seen (travels last enough hiddenBefore)
    omega

/-- Heights that no arc demands to be larger and that walks attain are the largest sums. -/
lemma isLongest_of_arcs (below : ∀ k, floor k ≤ h k)
    (arcs : ∀ {u w lag}, R u w lag → h u + lag ≤ h w) (attained : Attained R floor h v) :
    IsLongest R floor v (h v) := by
  refine ⟨attained, ?_⟩
  rintro _ ⟨k, len, walk, rfl⟩
  exact walk.le_of_arcs below arcs

/-- Tight heights are demanded by the arcs. -/
lemma IsTight.le (tight : IsTight R floor h w) (arc : R u w lag) : h u + lag ≤ h w :=
  tight.2 (.inr ⟨u, lag, arc, rfl⟩)

/-- No walk demands more than tight heights below `n`. -/
lemma Walk.le_of_tight (inside : ∀ {u w lag}, R u w lag → u < n)
    (tight : ∀ v < n, IsTight R floor h v) (walk : Walk R k v len) (hv : v < n) :
    floor k + len ≤ h v := by
  induction walk with
  | nil => simpa using (tight k hv).2 (.inl rfl)
  | snoc _ last ih =>
    have before := ih (inside last)
    have enough := (tight _ hv).le last
    omega

/-- If no cycle is closed, tight heights are attained by walks.  It is enough to know the heights of
a set of jobs that arcs do not lead into. -/
lemma Acyclic.attained_of_tight {D : Nat → Prop} (acyclic : Acyclic R)
    (inside : ∀ {u w lag}, R u w lag → u < n) (closed : ∀ {u w lag}, R u w lag → D w → D u)
    (tight : ∀ v, D v → IsTight R floor h v) (hv : D v) : Attained R floor h v := by
  revert hv
  refine acyclic.induction inside (P := fun v => D v → Attained R floor h v) (fun w ih hw => ?_) v
  rcases (tight w hw).1 with same | ⟨u, lag, arc, same⟩
  · exact ⟨w, 0, .nil, by rw [same, Int.add_zero]⟩
  · obtain ⟨k, len, walk, hu⟩ := ih u lag arc (closed arc hw)
    exact ⟨k, len + lag, walk.snoc arc, by rw [same, hu, Int.add_assoc]⟩

/-- If no cycle is closed, tight heights below `n` are the largest sums. -/
lemma Acyclic.isLongest_of_tight (acyclic : Acyclic R) (inside : ∀ {u w lag}, R u w lag → u < n)
    (tight : ∀ v < n, IsTight R floor h v) (hv : v < n) : IsLongest R floor v (h v) := by
  constructor
  · obtain ⟨k, len, walk, same⟩ := acyclic.attained_of_tight (D := fun v => v < n) inside
      (fun arc _ => inside arc) tight hv
    exact ⟨k, len, walk, same⟩
  · rintro _ ⟨k, len, walk, rfl⟩
    exact walk.le_of_tight inside tight hv

/-- The largest sums are tight. -/
lemma isTight_of_longest {D : Nat → Prop} (closed : ∀ {u w lag}, R u w lag → D w → D u)
    (longest : ∀ v, D v → IsLongest R floor v (h v)) (hv : D v) : IsTight R floor h v := by
  constructor
  · obtain ⟨k, len, walk, same⟩ := (longest v hv).1
    cases walk with
    | nil => exact .inl (by rw [same, Int.add_zero])
    | @snoc u _ len lag walk arc =>
      refine .inr ⟨u, lag, arc, ?_⟩
      -- the walk to `u` is a longest one, since `v` is no higher than it demands
      have upper := (longest u (closed arc hv)).le walk
      obtain ⟨k', len', walk', same'⟩ := (longest u (closed arc hv)).1
      have lower := (longest v hv).le (walk'.snoc arc)
      omega
  · rintro y (rfl | ⟨u, lag, arc, rfl⟩)
    · simpa using (longest v hv).le .nil
    · obtain ⟨k, len, walk, same⟩ := (longest u (closed arc hv)).1
      have := (longest v hv).le (walk.snoc arc)
      omega

end Leveling
