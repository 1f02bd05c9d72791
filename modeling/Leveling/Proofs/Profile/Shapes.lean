import Leveling.Proofs.Profile.Trees

/-!
# The shape of an event tree

The order of its events fixes which lists an event tree may hold, and the priorities fix its shape.
A tree is *shaped* if each node knows the summary of its subtree and stands above all nodes of lower
priority below it, where of two equal priorities the later event goes above.  The root of a shaped
tree is then the last change of the highest priority, so there is one shaped tree at most for a list
of changes, whatever the priorities are.

Splitting and merging keep trees shaped, because every node on a path that is rewritten is joined
anew.
-/

namespace Leveling

namespace EventTree

variable {α : Type} [Scalar α] {t a b : EventTree α} {c d : Change α}

/-- Each node knows the summary of its subtree and has a higher priority than the nodes below it, or
the same one as a node of an earlier event. -/
def Shaped : EventTree α → Prop
  | .leaf => True
  | .node c s left right => s = .over c left.summary? right.summary? ∧
      (∀ d ∈ left.toList, d.priority ≤ c.priority) ∧ (∀ d ∈ right.toList, d.priority < c.priority) ∧
        left.Shaped ∧ right.Shaped

/-- A node over two shaped trees of lower priorities. -/
lemma shaped_join (left : a.Shaped) (right : b.Shaped)
    (first : ∀ d ∈ a.toList, d.priority ≤ c.priority)
    (last : ∀ d ∈ b.toList, d.priority < c.priority) : (join c a b).Shaped :=
  ⟨rfl, first, last, left, right⟩

/-- The tree of one change is shaped. -/
lemma shaped_single (c : Change α) : (single c).Shaped :=
  shaped_join trivial trivial (fun _ member => absurd member List.not_mem_nil)
    fun _ member => absurd member List.not_mem_nil

/-- A split gives shaped trees. -/
lemma Shaped.split (below : Event → Bool) (h : t.Shaped) :
    (t.split below).1.Shaped ∧ (t.split below).2.Shaped := by
  induction t with
  | leaf => exact ⟨trivial, trivial⟩
  | node c s left right ihl ihr =>
    obtain ⟨-, first, last, hl, hr⟩ := h
    have inLeft := toList_split below left
    have inRight := toList_split below right
    unfold EventTree.split
    split
    · refine ⟨shaped_join hl (ihr hr).1 first fun d member => last d ?_, (ihr hr).2⟩
      rw [← inRight]
      exact List.mem_append_left _ member
    · refine ⟨(ihl hl).1, shaped_join (ihl hl).2 hr (fun d member => first d ?_) last⟩
      rw [← inLeft]
      exact List.mem_append_right _ member

/-- A merge of shaped trees is shaped. -/
lemma Shaped.merge (ha : a.Shaped) (hb : b.Shaped) : (a.merge b).Shaped := by
  induction a, b using merge_induct with
  | first b => exact hb
  | last c s l r =>
    rw [merge_leaf]
    exact ha
  | higher c s l r d t l' r' higher ih =>
    obtain ⟨-, first, last, hl, hr⟩ := ha
    have others : ∀ e ∈ (node d t l' r').toList, e.priority ≤ d.priority := by
      intro e member
      rcases List.mem_append.1 member with inLeft | member
      · exact hb.2.1 e inLeft
      · rcases List.mem_cons.1 member with rfl | inRight
        · exact UInt64.le_refl _
        · exact UInt64.le_of_lt (hb.2.2.1 e inRight)
    rw [merge_of_higher higher]
    refine shaped_join hl (ih hr hb) first fun e member => ?_
    rw [toList_merge] at member
    rcases List.mem_append.1 member with inRight | inOther
    · exact last e inRight
    · exact UInt64.lt_of_le_of_lt (others e inOther) higher
  | lower c s l r d t l' r' lower ih =>
    obtain ⟨-, first, last, hl, hr⟩ := hb
    have others : ∀ e ∈ (node c s l r).toList, e.priority ≤ c.priority := by
      intro e member
      rcases List.mem_append.1 member with inLeft | member
      · exact ha.2.1 e inLeft
      · rcases List.mem_cons.1 member with rfl | inRight
        · exact UInt64.le_refl _
        · exact UInt64.le_of_lt (ha.2.2.1 e inRight)
    rw [merge_of_lower lower]
    refine shaped_join (ih ha hl) hr (fun e member => ?_) last
    rw [toList_merge] at member
    rcases List.mem_append.1 member with inOther | inLeft
    · exact UInt64.le_trans (others e inOther) (UInt64.not_lt.1 lower)
    · exact first e inLeft

/-- An insertion keeps a tree shaped. -/
lemma Shaped.insert (h : t.Shaped) (c : Change α) : (t.insert c).Shaped := by
  obtain ⟨less, rest⟩ := h.split fun e => e < c.event
  exact (less.merge (shaped_single c)).merge rest

/-- An erasure keeps a tree shaped. -/
lemma Shaped.erase (h : t.Shaped) (e : Event) : (t.erase e).Shaped := by
  obtain ⟨less, rest⟩ := h.split fun e' => e' < e
  exact less.merge (rest.split fun e' => e' ≤ e).2

omit [Scalar α] in
/-- The last entry of the highest priority stands at one place of a list only: it does not stand later
in the second reading of the list than in the first. -/
lemma highest_not_later {l r l' r' : List (Change α)} (same : l ++ c :: r = l' ++ d :: r')
    (last : ∀ e ∈ r, e.priority < c.priority) (first : ∀ e ∈ l', e.priority ≤ d.priority) :
    ∃ m, l = l' ++ m := by
  rcases List.append_eq_append_iff.1 same with ⟨m, later, rest⟩ | ⟨m, earlier, -⟩
  · cases m with
    | nil => exact ⟨[], by rw [later, List.append_nil, List.append_nil]⟩
    | cons e m =>
      obtain ⟨rfl, others⟩ := List.cons.inj rest
      have above : d.priority < c.priority := last d <| by
        rw [others]
        exact List.mem_append_right _ List.mem_cons_self
      have below : c.priority ≤ d.priority := first c <| by
        rw [later]
        exact List.mem_append_right _ List.mem_cons_self
      exact absurd above (UInt64.not_lt.2 below)
  · exact ⟨m, earlier⟩

/-- Shaped trees with the same changes are the same. -/
theorem Shaped.ext (ht : t.Shaped) : ∀ {u : EventTree α}, u.Shaped → t.toList = u.toList →
    t = u := by
  induction t with
  | leaf =>
    intro u _ same
    cases u with
    | leaf => rfl
    | node d s l r => exact absurd same.symm (List.append_ne_nil_of_right_ne_nil _ (by simp))
  | node c s left right ihl ihr =>
    obtain ⟨own, first, last, hl, hr⟩ := ht
    intro u hu same
    cases u with
    | leaf => exact absurd same (List.append_ne_nil_of_right_ne_nil _ (by simp))
    | node d s' left' right' =>
      obtain ⟨own', first', last', hl', hr'⟩ := hu
      have same : left.toList ++ c :: right.toList = left'.toList ++ d :: right'.toList := same
      obtain ⟨m, longer⟩ := highest_not_later same last first'
      obtain ⟨m', longer'⟩ := highest_not_later same.symm last' first
      have lists : left.toList = left'.toList := by
        have lengths := congrArg List.length longer
        have lengths' := congrArg List.length longer'
        rw [List.length_append] at lengths lengths'
        obtain rfl : m = [] := List.eq_nil_of_length_eq_zero (by omega)
        rw [longer, List.append_nil]
      rw [lists] at same
      obtain ⟨rfl, lists'⟩ := List.cons.inj (List.append_cancel_left same)
      obtain rfl := ihl hl hl' lists
      obtain rfl := ihr hr hr' lists'
      rw [own, own']

/-- Shaped trees that hold the same changes in the order of their events are the same. -/
theorem Shaped.ext_of_mem {u : EventTree α} (ht : t.Shaped) (hu : u.Shaped) (sorted : t.Sorted)
    (sorted' : u.Sorted) (same : ∀ c, c ∈ t.toList ↔ c ∈ u.toList) : t = u := by
  have distinct : ∀ {t : EventTree α}, t.Sorted → t.toList.Nodup := fun sorted =>
    List.Pairwise.imp (fun before equal => before.ne (congrArg Change.event equal)) sorted
  have perm := (List.perm_ext_iff_of_nodup (distinct sorted) (distinct sorted')).2 same
  refine ht.ext hu (perm.eq_of_pairwise (fun c d _ _ before after => ?_) sorted sorted')
  exact absurd after before.asymm

end EventTree

end Leveling
