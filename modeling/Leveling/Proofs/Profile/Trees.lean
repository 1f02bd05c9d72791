import Leveling.Proofs.Profile.EventTree
import Mathlib.Order.Basic
import Mathlib.Tactic.Common

/-!
# What an event tree holds

Splitting and merging trees splits and appends the lists of their changes, whatever the priorities
are.  In a sorted tree the first part of a split holds the changes that pass the test, so an insertion
puts a change in its place, and an erasure takes away the change of one event.
-/

namespace Leveling

/-! ## The order of events -/

/-- Events of equal places are the same. -/
lemma EventKind.rank_inj {a b : EventKind} (h : a.rank = b.rank) : a = b := by
  cases a <;> cases b <;> first | rfl | cases h

namespace Event

/-- An event comes before another one. -/
lemma lt_def {a b : Event} : a < b ↔ a.time < b.time ∨ (a.time = b.time ∧
    (a.kind.rank < b.kind.rank ∨ (a.kind.rank = b.kind.rank ∧ a.job < b.job))) := Iff.rfl

/-- Events are ordered by time, kind and job, and no two events have all three in common. -/
instance : LinearOrder Event where
  le := (· ≤ ·)
  lt := (· < ·)
  le_refl a := show ¬a < a by
    rw [lt_def]
    omega
  le_trans a b c := by
    change ¬b < a → ¬c < b → ¬c < a
    rw [lt_def, lt_def, lt_def]
    omega
  lt_iff_le_not_ge a b := by
    change a < b ↔ ¬b < a ∧ ¬¬a < b
    rw [lt_def, lt_def]
    omega
  le_antisymm a b := by
    change ¬b < a → ¬a < b → a = b
    rw [lt_def, lt_def]
    intro later earlier
    obtain ⟨time, kind, job⟩ := a
    obtain ⟨time', kind', job'⟩ := b
    dsimp only at later earlier
    obtain rfl : kind = kind' := EventKind.rank_inj (by omega)
    congr <;> omega
  le_total a b := by
    change ¬b < a ∨ ¬a < b
    rw [lt_def, lt_def]
    omega
  toDecidableLE := inferInstance
  toDecidableLT := inferInstance

/-- An event is not before the least event of a time if it has at least that time. -/
lemma first_le_iff {time : Int} {e : Event} : first time ≤ e ↔ time ≤ e.time := by
  change ¬e < first time ↔ time ≤ e.time
  rw [lt_def]
  dsimp only [first, EventKind.rank]
  omega

/-- An event is before the least event of a time if it has an earlier time. -/
lemma lt_first_iff {time : Int} {e : Event} : e < first time ↔ e.time < time := by
  rw [lt_def]
  dsimp only [first, EventKind.rank]
  omega

/-- Events in order have times in order. -/
lemma time_le {a b : Event} (h : a ≤ b) : a.time ≤ b.time := by
  have h : ¬b < a := not_lt.2 h
  rw [lt_def] at h
  omega

/-- Events of different times are ordered by them. -/
lemma lt_of_time_lt {a b : Event} (h : a.time < b.time) : a < b := lt_def.2 (.inl h)

/-- After a start, only starts follow at its time. -/
lemma kind_of_start_lt {a b : Event} (kind : a.kind = .start) (h : a < b) (le : b.time ≤ a.time) :
    b.kind = .start := by
  rw [lt_def, kind] at h
  cases found : b.kind with
  | start => rfl
  | finish =>
    rw [found] at h
    dsimp only [EventKind.rank] at h
    omega

/-- Up to a finish, only finishes happen at its time. -/
lemma kind_of_le_finish {a b : Event} (kind : b.kind = .finish) (h : a ≤ b) (le : b.time ≤ a.time) :
    a.kind = .finish := by
  have h : ¬b < a := not_lt.2 h
  rw [lt_def, kind] at h
  cases found : a.kind with
  | finish => rfl
  | start =>
    rw [found] at h
    dsimp only [EventKind.rank] at h
    omega

/-- A slot belongs to one kind of event of one job. -/
lemma slot_inj {a b : Event} (same : a.slot = b.slot) : a.kind = b.kind ∧ a.job = b.job := by
  obtain ⟨_, kind, job⟩ := a
  obtain ⟨_, kind', job'⟩ := b
  cases kind <;> cases kind' <;> simp [slot] at same ⊢ <;> omega

end Event

namespace EventTree

variable {α : Type} [Scalar α] {t a b : EventTree α} {c d : Change α} {e : Event}

/-! ## Lists of changes -/

/-- The changes of a tree over two subtrees. -/
@[simp] lemma toList_join (c : Change α) (a b : EventTree α) :
    (join c a b).toList = a.toList ++ c :: b.toList := rfl

omit [Scalar α] in
/-- A tree without a summary holds nothing. -/
lemma toList_of_summary? (h : t.summary? = none) : t.toList = [] := by
  cases t with
  | leaf => rfl
  | node c s left right => cases h

/-- A split distributes the changes in their order. -/
lemma toList_split (below : Event → Bool) (t : EventTree α) :
    (t.split below).1.toList ++ (t.split below).2.toList = t.toList := by
  induction t with
  | leaf => rfl
  | node c s left right ihl ihr =>
    unfold split
    split
    · rw [toList, ← ihr]
      simp
    · rw [toList, ← ihl]
      simp

/-- A merge appends the changes. -/
lemma toList_merge (a b : EventTree α) : (a.merge b).toList = a.toList ++ b.toList := by
  induction a, b using merge_induct with
  | first b => rfl
  | last c s l r =>
    rw [merge_leaf]
    exact (List.append_nil _).symm
  | higher c s l r d t l' r' higher ih =>
    rw [merge_of_higher higher, toList_join, ih]
    simp [toList]
  | lower c s l r d t l' r' lower ih =>
    rw [merge_of_lower lower, toList_join, ih]
    simp [toList]

/-- An insertion adds one change. -/
lemma mem_insert : d ∈ (t.insert c).toList ↔ d = c ∨ d ∈ t.toList := by
  have parts := toList_split (fun e => e < c.event) t
  unfold insert
  dsimp only
  rw [toList_merge, toList_merge, ← parts]
  simp only [single, toList_join, toList, List.mem_append, List.mem_cons, List.nil_append,
    List.not_mem_nil, or_false]
  tauto

/-! ## Sorted trees -/

/-- The events of the tree stand in order, each of them once. -/
def Sorted (t : EventTree α) : Prop := t.toList.Pairwise fun c d => c.event < d.event

/-- A split divides the events of a sorted tree by the test, if the test is passed by the first events
only. -/
lemma toList_split_eq (below : Event → Bool) (down : ∀ {e e'}, e < e' → below e' → below e) :
    ∀ {t : EventTree α}, t.Sorted →
      (t.split below).1.toList = t.toList.filter (fun c => below c.event) ∧
        (t.split below).2.toList = t.toList.filter (fun c => !below c.event) := by
  intro t
  induction t with
  | leaf => exact fun _ => ⟨rfl, rfl⟩
  | node c s left right ihl ihr =>
    intro sorted
    obtain ⟨inLeft, inRight, across⟩ := List.pairwise_append.1 sorted
    obtain ⟨after, inRight⟩ := List.pairwise_cons.1 inRight
    unfold split
    split
    · rename_i passed
      have all : left.toList.filter (fun d => below d.event) = left.toList :=
        List.filter_eq_self.2 fun d member => down (across d member c List.mem_cons_self) passed
      have none : left.toList.filter (fun d => !below d.event) = [] := by
        refine List.filter_eq_nil_iff.2 fun d member => ?_
        rw [down (across d member c List.mem_cons_self) passed]
        decide
      refine ⟨?_, ?_⟩
      · rw [toList, List.filter_append, List.filter_cons_of_pos (by simpa using passed), all,
          ← (ihr inRight).1]
        rfl
      · rw [toList, List.filter_append, List.filter_cons_of_neg (by simp [passed]), none,
          ← (ihr inRight).2]
        rfl
    · rename_i failed
      have fails : ∀ d ∈ right.toList, below d.event = false := fun d member =>
        Bool.eq_false_iff.2 fun passed => failed (down (after d member) passed)
      have none : right.toList.filter (fun d => below d.event) = [] :=
        List.filter_eq_nil_iff.2 fun d member => by simp [fails d member]
      have all : right.toList.filter (fun d => !below d.event) = right.toList :=
        List.filter_eq_self.2 fun d member => by simp [fails d member]
      refine ⟨?_, ?_⟩
      · rw [toList, List.filter_append, List.filter_cons_of_neg (by simpa using failed), none,
          List.append_nil, ← (ihl inLeft).1]
      · rw [toList, List.filter_append, List.filter_cons_of_pos (by simp [failed]), all,
          ← (ihl inLeft).2]
        rfl

/-- A new change stands between the changes before its event and the others. -/
lemma toList_insert (sorted : t.Sorted) (c : Change α) : (t.insert c).toList =
    t.toList.filter (fun d => d.event < c.event) ++
      c :: t.toList.filter (fun d => !decide (d.event < c.event)) := by
  have parts := toList_split_eq (fun e => e < c.event)
    (fun less passed => decide_eq_true (less.trans (of_decide_eq_true passed))) sorted
  unfold insert
  dsimp only
  rw [toList_merge, toList_merge, parts.1, parts.2]
  simp [single, toList]

/-- The changes after an erasure. -/
lemma toList_erase (sorted : t.Sorted) (e : Event) : (t.erase e).toList =
    t.toList.filter (fun d => d.event < e) ++ t.toList.filter (fun d => e < d.event) := by
  have parts := toList_split_eq (fun e' => e' < e)
    (fun less passed => decide_eq_true (less.trans (of_decide_eq_true passed))) sorted
  have rest : (t.split fun e' => e' < e).2.Sorted := by
    unfold Sorted
    rw [parts.2]
    exact sorted.filter _
  have parts' := toList_split_eq (fun e' => e' ≤ e)
    (fun less passed => decide_eq_true (less.le.trans (of_decide_eq_true passed))) rest
  unfold erase
  dsimp only
  rw [toList_merge, parts.1, parts'.2, parts.2, List.filter_filter]
  congr 1
  refine List.filter_congr fun d _ => ?_
  by_cases after : e < d.event
  · simp [after, not_le.2 after, not_lt.2 after.le]
  · simp [after, not_lt.1 after]

/-- An insertion at a new event keeps the events in order. -/
lemma Sorted.insert (sorted : t.Sorted) (fresh : ∀ d ∈ t.toList, d.event ≠ c.event) :
    (t.insert c).Sorted := by
  unfold Sorted
  rw [toList_insert sorted]
  refine List.pairwise_append.2 ⟨sorted.filter _, List.pairwise_cons.2 ⟨fun d member => ?_,
    sorted.filter _⟩, fun d member d' member' => ?_⟩
  · obtain ⟨inside, after⟩ := List.mem_filter.1 member
    simp only [Bool.not_eq_true', decide_eq_false_iff_not, not_lt] at after
    exact lt_of_le_of_ne after (fresh d inside).symm
  · have before : d.event < c.event := of_decide_eq_true (List.mem_filter.1 member).2
    rcases List.mem_cons.1 member' with rfl | member'
    · exact before
    · have after := (List.mem_filter.1 member').2
      simp only [Bool.not_eq_true', decide_eq_false_iff_not, not_lt] at after
      exact lt_of_lt_of_le before after

/-- An erasure keeps the events in order. -/
lemma Sorted.erase (sorted : t.Sorted) (e : Event) : (t.erase e).Sorted := by
  unfold Sorted
  rw [toList_erase sorted]
  refine List.pairwise_append.2 ⟨sorted.filter _, sorted.filter _, fun d member d' member' => ?_⟩
  exact lt_trans (of_decide_eq_true (List.mem_filter.1 member).2)
    (of_decide_eq_true (List.mem_filter.1 member').2)

/-- An erasure takes away the change of the event. -/
lemma mem_erase (sorted : t.Sorted) : d ∈ (t.erase e).toList ↔ d ∈ t.toList ∧ d.event ≠ e := by
  rw [toList_erase sorted, List.mem_append, List.mem_filter, List.mem_filter, ← and_or_left,
    decide_eq_true_iff, decide_eq_true_iff, lt_or_lt_iff_ne]

/-! ## Searches -/

/-- A search finds the event of a change in the tree. -/
lemma mem_of_findFirst {start : Event} {threshold : α} {wanted : Wanted} :
    ∀ {t : EventTree α} {level : α}, findFirst start threshold wanted level t = some e →
      ∃ c ∈ t.toList, c.event = e := by
  intro t
  induction t with
  | leaf =>
    intro level h
    cases h
  | node c s left right ihl ihr =>
    intro level h
    unfold findFirst at h
    split at h
    · cases h
    · split at h
      · cases h
      · split at h
        · rename_i found
          cases h
          obtain ⟨d, member, same⟩ := ihl found
          exact ⟨d, List.mem_append_left _ member, same⟩
        · dsimp only at h
          split at h
          · cases h
            exact ⟨c, List.mem_append_right _ List.mem_cons_self, rfl⟩
          · obtain ⟨d, member, same⟩ := ihr h
            exact ⟨d, List.mem_append_right _ (List.mem_cons_of_mem _ member), same⟩

end EventTree

end Leveling
