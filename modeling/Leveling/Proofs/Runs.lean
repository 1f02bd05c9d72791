import Leveling.Runs
import Mathlib.Order.Basic
import Mathlib.Tactic.Common

/-!
# First entries of runs

A list that is sorted by a key has the entries of one key next to each other.  The first
entries of the runs of equal keys therefore have each key of the list once, in increasing
order.
-/

namespace Leveling

variable {β κ : Type} {same : β → β → Bool} {key : β → κ}

/-- The first entries of the runs are entries of the list, in the order of the list. -/
lemma firstOfRuns_sublist : ∀ xs : List β, (firstOfRuns same xs).Sublist xs := by
  intro xs
  induction xs with
  | nil => exact .slnil
  | cons x rest ih =>
    unfold firstOfRuns
    cases runs : firstOfRuns same rest with
    | nil => exact (List.nil_sublist rest).cons_cons x
    | cons y kept =>
      rw [runs] at ih
      by_cases hxy : same x y = true
      · simp only [hxy, if_true]
        exact ((List.sublist_cons_self y kept).trans ih).cons_cons x
      · simp only [hxy]
        exact ih.cons_cons x

/-- For every entry of a sorted list an entry with the same key is kept that is not behind it. -/
lemma exists_mem_firstOfRuns_not_behind {R : β → β → Prop}
    (hsame : ∀ x y, same x y = true ↔ key x = key y) {x : β} :
    ∀ {xs : List β}, xs.Pairwise R → x ∈ xs →
      ∃ y ∈ firstOfRuns same xs, key y = key x ∧ (y = x ∨ R y x) := by
  intro xs
  induction xs with
  | nil => exact fun _ member => absurd member List.not_mem_nil
  | cons z rest ih =>
    intro sorted member
    obtain ⟨first, sorted⟩ := List.pairwise_cons.1 sorted
    unfold firstOfRuns
    cases runs : firstOfRuns same rest with
    | nil =>
      rw [runs] at ih
      rcases List.mem_cons.1 member with rfl | later
      · exact ⟨x, List.mem_cons_self, rfl, .inl rfl⟩
      · obtain ⟨y, impossible, _⟩ := ih sorted later
        exact absurd impossible List.not_mem_nil
    | cons y kept =>
      rw [runs] at ih
      by_cases hzy : same z y = true
      · simp only [hzy, if_true]
        rcases List.mem_cons.1 member with rfl | later
        · exact ⟨x, List.mem_cons_self, rfl, .inl rfl⟩
        · obtain ⟨w, hw, hkey, before⟩ := ih sorted later
          rcases List.mem_cons.1 hw with rfl | hw
          · -- `z` takes the place of `w`, and stands in front of all other entries
            exact ⟨z, List.mem_cons_self, ((hsame _ _).1 hzy).trans hkey, .inr (first x later)⟩
          · exact ⟨w, List.mem_cons_of_mem _ hw, hkey, before⟩
      · simp only [hzy]
        rcases List.mem_cons.1 member with rfl | later
        · exact ⟨x, List.mem_cons_self, rfl, .inl rfl⟩
        · obtain ⟨w, hw, hkey, before⟩ := ih sorted later
          exact ⟨w, List.mem_cons_of_mem _ hw, hkey, before⟩

/-- Every key of a list is the key of the first entry of a run. -/
lemma exists_mem_firstOfRuns (hsame : ∀ x y, same x y = true ↔ key x = key y) {x : β}
    {xs : List β} (member : x ∈ xs) : ∃ y ∈ firstOfRuns same xs, key y = key x := by
  have unordered : xs.Pairwise fun _ _ => True := List.pairwise_of_forall fun _ _ => trivial
  obtain ⟨y, hy, hkey, -⟩ := exists_mem_firstOfRuns_not_behind hsame unordered member
  exact ⟨y, hy, hkey⟩

/-- The first entries of the runs of a sorted list have increasing keys. -/
lemma pairwise_firstOfRuns [PartialOrder κ] (hsame : ∀ x y, same x y = true ↔ key x = key y) :
    ∀ {xs : List β}, xs.Pairwise (fun x y => key x ≤ key y) →
      (firstOfRuns same xs).Pairwise fun x y => key x < key y := by
  intro xs
  induction xs with
  | nil => exact fun _ => .nil
  | cons x rest ih =>
    intro sorted
    obtain ⟨first, sorted⟩ := List.pairwise_cons.1 sorted
    have increasing := ih sorted
    unfold firstOfRuns
    cases runs : firstOfRuns same rest with
    | nil => exact List.pairwise_singleton _ _
    | cons y kept =>
      rw [runs] at increasing
      obtain ⟨below, rest_increasing⟩ := List.pairwise_cons.1 increasing
      by_cases hxy : same x y = true
      · simp only [hxy, if_true]
        refine List.pairwise_cons.2 ⟨fun z hz => ?_, rest_increasing⟩
        rw [(hsame _ _).1 hxy]
        exact below z hz
      · simp only [hxy]
        -- the key of `x` is at most that of `y` and not the same
        have hy : y ∈ rest := mem_of_mem_firstOfRuns (runs ▸ List.mem_cons_self)
        have hlt : key x < key y :=
          lt_of_le_of_ne (first y hy) fun h => hxy ((hsame _ _).2 h)
        refine List.pairwise_cons.2 ⟨fun z hz => ?_, increasing⟩
        rcases List.mem_cons.1 hz with rfl | hz
        · exact hlt
        · exact hlt.trans (below z hz)

end Leveling
