import Leveling.Network.Basic
import Leveling.Proofs.Answers
import Mathlib.Data.Multiset.Count

/-!
# Lists of lists

A network keeps its arcs in one list per job.  An entry of such a list of lists stands at a
*place*: the number of its list and its slot there.  The network changes its lists in three
ways only.  An entry is pushed behind the last one, an entry is changed at its place, or an
entry is taken out and the last entry of its list moves into the vacated slot.  For each of
them this file says what stands where afterwards, and how the number of entries with a
property changes.
-/

namespace Leveling

open Network Checked

variable {β : Type}

/-- The entry at a place. -/
def entryAt (lists : Array (Array β)) (p : Place) : Option β :=
  lists[p.1]?.bind fun list => list[p.2]?

/-- The number of entries of list `v`. -/
def lengthAt (lists : Array (Array β)) (v : Nat) : Nat := (lists.getD v #[]).size

/-- The number of entries `x` of lists `v` with `c v x`. -/
def tally (c : Nat → β → Bool) (lists : Array (Array β)) : Nat :=
  weight (fun v list => list.toList.countP (c v)) lists

/-- The share of an entry in a number of entries. -/
def share (b : Bool) : Nat := if b then 1 else 0

/-- What stands at a place of a list that exists. -/
lemma entryAt_of_lt {lists : Array (Array β)} {v : Nat} (hv : v < lists.size) (i : Nat) :
    entryAt lists (v, i) = lists[v][i]? := by
  simp [entryAt, hv]

/-- The number of entries of a list that exists. -/
lemma lengthAt_of_lt {lists : Array (Array β)} {v : Nat} (hv : v < lists.size) :
    lengthAt lists v = lists[v].size := by
  simp [lengthAt, hv]

/-- An entry stands in a list that exists. -/
lemma lt_of_entryAt {lists : Array (Array β)} {p : Place} {x : β}
    (h : entryAt lists p = some x) :
    ∃ hv : p.1 < lists.size, ∃ hi : p.2 < lists[p.1].size, lists[p.1][p.2] = x := by
  obtain ⟨list, found, inside⟩ := Option.bind_eq_some_iff.1 h
  obtain ⟨hv, rfl⟩ := Array.getElem?_eq_some_iff.1 found
  obtain ⟨hi, hx⟩ := Array.getElem?_eq_some_iff.1 inside
  exact ⟨hv, hi, hx⟩

/-- There is an entry at a place exactly if the slot is below the number of entries. -/
lemma entryAt_isSome {lists : Array (Array β)} {p : Place} :
    (entryAt lists p).isSome ↔ p.2 < lengthAt lists p.1 := by
  obtain ⟨v, i⟩ := p
  by_cases hv : v < lists.size
  · simp [entryAt_of_lt hv, lengthAt_of_lt hv]
  · simp [entryAt, lengthAt, hv]

/-- Lists of lists with the same entries at the same places are the same. -/
lemma ext_of_entryAt {lists lists' : Array (Array β)} (size : lists.size = lists'.size)
    (entry : ∀ p, entryAt lists p = entryAt lists' p) : lists = lists' := by
  refine Array.ext size fun v hv hv' => Array.ext_getElem? fun i => ?_
  rw [← entryAt_of_lt hv, ← entryAt_of_lt hv', entry]

/-- What stands where after a list was replaced. -/
lemma entryAt_set {lists : Array (Array β)} {v : Nat} (hv : v < lists.size) (list : Array β)
    (p : Place) :
    entryAt (lists.set v list hv) p = if p.1 = v then list[p.2]? else entryAt lists p := by
  unfold entryAt
  by_cases same : p.1 = v
  · subst same
    simp [hv]
  · simp [same, Ne.symm same]

/-- How a replaced list changes the number of entries with a property. -/
lemma tally_set (c : Nat → β → Bool) {lists : Array (Array β)} {v : Nat} (hv : v < lists.size)
    (list : Array β) :
    tally c (lists.set v list hv) + lists[v].toList.countP (c v) =
      tally c lists + list.toList.countP (c v) :=
  weight_set (fun v list => list.toList.countP (c v)) lists v list hv

/-! ## Empty lists -/

/-- Nothing stands in empty lists. -/
@[simp] lemma entryAt_replicate (n : Nat) (p : Place) :
    entryAt (.replicate n (#[] : Array β)) p = none := by
  unfold entryAt
  by_cases h : p.1 < n <;> simp [h]

/-- A sum of nothing is nothing. -/
lemma weightFrom_eq_zero {δ : Type} {f : Nat → δ → Nat} :
    ∀ {l : List δ} {k : Nat}, (∀ x ∈ l, ∀ v, f v x = 0) → weightFrom f k l = 0
  | [], _, _ => rfl
  | x :: l, k, h => by
    have rest := weightFrom_eq_zero (f := f) (l := l) (k := k + 1) fun y hy =>
      h y (List.mem_cons_of_mem _ hy)
    rw [weightFrom, rest, h x List.mem_cons_self k]

/-- No entry of empty lists has the property. -/
@[simp] lemma tally_replicate (c : Nat → β → Bool) (n : Nat) :
    tally c (.replicate n (#[] : Array β)) = 0 := by
  refine weightFrom_eq_zero fun list member v => ?_
  rw [Array.toList_replicate] at member
  simp [(List.mem_replicate.1 member).2]

/-! ## Pushing an entry -/

/-- `lists'` is `lists` with an entry pushed behind those of list `v`. -/
structure Pushed (v : Nat) (x : β) (lists lists' : Array (Array β)) : Prop where
  size : lists'.size = lists.size
  entry : ∀ p, entryAt lists' p = if p = (v, lengthAt lists v) then some x else entryAt lists p
  tally : ∀ c, tally c lists' = tally c lists + share (c v x)

/-- A push into a list that exists. -/
lemma adjust_push {lists : Array (Array β)} {v : Nat} (hv : v < lists.size) (x : β) :
    (adjust lists v fun list => .ok (list.push x)).Answers (Pushed v x lists) := by
  let f : Array β → Checked (Array β) := fun list => .ok (list.push x)
  refine ⟨_, adjust_of_lt (f := f) hv rfl, ⟨Array.size_set hv, fun p => ?_, fun c => ?_⟩⟩
  · obtain ⟨w, i⟩ := p
    rw [entryAt_set, lengthAt_of_lt hv]
    by_cases same : w = v
    · subst same
      rw [if_pos rfl, Array.getElem?_push, entryAt_of_lt hv]
      simp
    · rw [if_neg same, if_neg (by simp [same])]
  · have replaced := tally_set c hv (lists[v].push x)
    rw [Array.toList_push, List.countP_append, List.countP_singleton] at replaced
    unfold share
    omega

/-! ## Changing an entry -/

/-- `lists'` is `lists` with the entry `x` at the place `p` replaced by `y`. -/
structure Replaced (p : Place) (x y : β) (lists lists' : Array (Array β)) : Prop where
  size : lists'.size = lists.size
  entry : ∀ q, entryAt lists' q = if q = p then some y else entryAt lists q
  tally : ∀ c, tally c lists' + share (c p.1 x) = tally c lists + share (c p.1 y)

/-- Replacing an entry exchanges its share in the number of entries with a property. -/
lemma countP_set {c : β → Bool} {l : List β} {i : Nat} (hi : i < l.length) (y : β) :
    (l.set i y).countP c + share (c l[i]) = l.countP c + share (c y) := by
  have removed := List.countP_set (p := c) (l := l) (a := y) hi
  have bound : share (c l[i]) ≤ l.countP c := by
    unfold share
    split
    · rename_i holds
      exact List.countP_pos_iff.2 ⟨_, List.getElem_mem hi, holds⟩
    · exact Nat.zero_le _
  unfold share at bound ⊢
  omega

/-- A change of an entry that exists. -/
lemma adjust_adjust {lists : Array (Array β)} {p : Place} {x : β} (h : entryAt lists p = some x)
    (f : β → β) :
    (adjust lists p.1 fun list => adjust list p.2 fun x => .ok (f x)).Answers
      (Replaced p x (f x) lists) := by
  obtain ⟨hv, hi, rfl⟩ := lt_of_entryAt h
  let g : β → Checked β := fun x => .ok (f x)
  let g' : Array β → Checked (Array β) := fun list => adjust list p.2 g
  have inner : g' lists[p.1] = .ok _ := adjust_of_lt (f := g) hi rfl
  refine ⟨_, adjust_of_lt (f := g') hv inner, ⟨Array.size_set hv, fun q => ?_, fun c => ?_⟩⟩
  · obtain ⟨w, j⟩ := q
    rw [entryAt_set]
    by_cases same : w = p.1
    · subst same
      rw [if_pos rfl, Array.getElem?_set, entryAt_of_lt hv]
      by_cases here : p.2 = j
      · subst here
        simp
      · have : ¬(p.1, j) = p := fun h => here (congrArg Prod.snd h).symm
        rw [if_neg here, if_neg this]
    · have : ¬(w, j) = p := fun h => same (congrArg Prod.fst h)
      rw [if_neg same, if_neg this]
  · have replaced := tally_set c hv (lists[p.1].set p.2 (f lists[p.1][p.2]) hi)
    have counted := countP_set (c := c p.1) (l := lists[p.1].toList) (i := p.2)
      (by simpa using hi) (f lists[p.1][p.2])
    rw [Array.toList_set] at replaced
    simp only [Array.getElem_toList] at counted
    omega

/-! ## Taking an entry out -/

/-- `lists'` is `lists` without the entry `x` at the place `p`, whose slot the last entry of the list
took over. -/
structure Removed (p : Place) (x : β) (lists lists' : Array (Array β)) : Prop where
  size : lists'.size = lists.size
  entry : ∀ q, entryAt lists' q =
    if q.1 = p.1 ∧ lengthAt lists p.1 ≤ q.2 + 1 then none
    else if q = p then entryAt lists (p.1, lengthAt lists p.1 - 1)
    else entryAt lists q
  tally : ∀ c, tally c lists' + share (c p.1 x) = tally c lists

/-- The entries after a removal inside the list. -/
lemma getElem?_swapRemove {xs : Array β} {i : Nat} (h : i < xs.size) (j : Nat) :
    (swapRemove xs i)[j]? =
      if xs.size ≤ j + 1 then none else if j = i then xs[xs.size - 1]? else xs[j]? := by
  simp only [swapRemove, h, dif_pos]
  rw [Array.getElem?_pop, Array.getElem?_set, Array.size_set]
  by_cases beyond : xs.size ≤ j + 1
  · rw [if_pos beyond, if_neg (by omega)]
  · rw [if_neg beyond, if_pos (by omega)]
    by_cases here : i = j
    · subst here
      rw [if_pos rfl, if_pos rfl, Array.back_eq_getElem, Array.getElem?_eq_getElem]
    · rw [if_neg here, if_neg (Ne.symm here)]

/-- A removal takes away the share of the entry that goes. -/
lemma countP_swapRemove {c : β → Bool} {xs : Array β} {i : Nat} (h : i < xs.size) :
    (swapRemove xs i).toList.countP c + share (c xs[i]) = xs.toList.countP c := by
  have nonempty : xs.toList ≠ [] := by
    intro empty
    rw [← Array.length_toList, empty] at h
    exact absurd h (Nat.not_lt_zero _)
  have split : (xs.set i xs.back).toList.countP c =
      (swapRemove xs i).toList.countP c + share (c xs.back) := by
    have whole : (xs.set i xs.back h) = (swapRemove xs i).push xs.back := by
      simp only [swapRemove, h, dif_pos]
      refine Array.ext_getElem? fun j => ?_
      rw [Array.getElem?_push, Array.getElem?_pop, Array.size_pop, Array.size_set]
      by_cases last : j = xs.size - 1
      · subst last
        rw [if_pos rfl, Array.getElem?_set, Array.back_eq_getElem]
        split
        · rfl
        · rw [Array.getElem?_eq_getElem]
      · rw [if_neg last]
        by_cases inside : j < xs.size - 1
        · rw [if_pos inside]
        · rw [if_neg inside, Array.getElem?_eq_none]
          rw [Array.size_set]
          omega
    rw [whole, Array.toList_push, List.countP_append, List.countP_singleton, share]
  have replaced := countP_set (c := c) (l := xs.toList) (i := i) (by simpa using h) xs.back
  rw [Array.toList_set] at split
  simp only [Array.getElem_toList] at replaced
  omega

/-- Storing the list without an entry is a removal at the entry's place. -/
lemma removed_set {lists : Array (Array β)} {p : Place} (hv : p.1 < lists.size)
    (hi : p.2 < lists[p.1].size) :
    Removed p lists[p.1][p.2] lists (lists.set p.1 (swapRemove lists[p.1] p.2) hv) := by
  obtain ⟨v, i⟩ := p
  dsimp only at hv hi ⊢
  refine ⟨Array.size_set hv, fun q => ?_, fun c => ?_⟩
  · obtain ⟨w, j⟩ := q
    rw [entryAt_set, lengthAt_of_lt hv]
    by_cases same : w = v
    · subst same
      rw [if_pos rfl, getElem?_swapRemove hi, entryAt_of_lt hv, entryAt_of_lt hv]
      simp only [Prod.mk.injEq, true_and]
    · simp only [Prod.mk.injEq, same, false_and, if_false]
  · have replaced := tally_set c hv (swapRemove lists[v] i)
    have counted := countP_swapRemove (c := c v) hi
    dsimp only
    omega

end Leveling
