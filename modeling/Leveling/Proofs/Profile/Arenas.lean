import Leveling.Proofs.Answers
import Leveling.Proofs.Profile.Trees
import Mathlib.Data.List.Nodup
import Mathlib.Data.List.Perm.Subperm
import Mathlib.Order.Nat

/-!
# Trees in arenas

A tree is *laid* in an array of nodes if each of its nodes lies in the slot of its event, with links to
the slots of its children.  Splitting and merging through links then gives what splitting and merging
the tree gives, laid in the array that is left behind: only slots of the tree are written, no slot of a
tree is named twice, and each node on a path that is rewritten is pulled once its child is laid.  What
is left in the other slots plays no part, because no link of the tree leads there.
-/

namespace Leveling

open Checked

variable {α : Type} [Scalar α] {nodes nodes' nodes'' : Array (Node α)} {x y : Node α}
  {listed listed' : List Nat} {slot steps : Nat}

/-! ## Slots that are written -/

/-- Only the listed slots were written, and no priority was changed. -/
structure Rewritten (listed : List Nat) (nodes nodes' : Array (Node α)) : Prop where
  size : nodes'.size = nodes.size
  kept : ∀ slot ∉ listed, nodes'[slot]? = nodes[slot]?
  priority : ∀ slot : Nat, nodes'[slot]?.map Node.priority = nodes[slot]?.map Node.priority

/-- Each node has the priority of its slot. -/
def Prioritized (nodes : Array (Node α)) : Prop :=
  ∀ (slot : Nat) (x : Node α), nodes[slot]? = some x → x.priority = scramble slot.toUInt64

section

omit [Scalar α]

/-- Nothing was written. -/
lemma Rewritten.refl (listed : List Nat) (nodes : Array (Node α)) : Rewritten listed nodes nodes :=
  ⟨rfl, fun _ _ => rfl, fun _ => rfl⟩

/-- Slots were written one time after the other. -/
lemma Rewritten.trans (first : Rewritten listed nodes nodes')
    (second : Rewritten listed nodes' nodes'') : Rewritten listed nodes nodes'' :=
  ⟨second.size.trans first.size, fun slot out => (second.kept slot out).trans (first.kept slot out),
    fun slot => (second.priority slot).trans (first.priority slot)⟩

/-- More slots may be listed than were written. -/
lemma Rewritten.mono (h : Rewritten listed nodes nodes') (subset : listed ⊆ listed') :
    Rewritten listed' nodes nodes' :=
  ⟨h.size, fun slot out => h.kept slot fun inside => out (subset inside), h.priority⟩

/-- Nodes that are written keep the priorities of their slots. -/
lemma Rewritten.prioritized (written : Rewritten listed nodes nodes') (h : Prioritized nodes) :
    Prioritized nodes' := by
  intro slot x there
  have same := written.priority slot
  rw [there, Option.map_some, eq_comm, Option.map_eq_some_iff] at same
  obtain ⟨y, here, priority⟩ := same
  exact priority ▸ h slot y here

/-- A node is written over another one of its priority. -/
lemma store_node (here : nodes[slot]? = some x) (same : y.priority = x.priority) :
    (store nodes slot y).Answers fun nodes' =>
      nodes'[slot]? = some y ∧ Rewritten [slot] nodes nodes' := by
  obtain ⟨inside, found⟩ := Array.getElem?_eq_some_iff.1 here
  rw [store_of_lt y inside]
  refine .ok ⟨Array.getElem?_set_self inside, Array.size_set inside, fun slot' out => ?_,
    fun slot' => ?_⟩
  · exact Array.getElem?_set_ne inside fun equal => out (equal ▸ List.mem_singleton_self _)
  · rcases eq_or_ne slot slot' with rfl | ne
    · rw [Array.getElem?_set_self inside, here, Option.map_some, Option.map_some, same]
    · rw [Array.getElem?_set_ne inside ne]

end

/-! ## Laid trees -/

namespace EventTree

variable {t a b l r : EventTree α} {c : Change α} {s : Summary α} {below : Event → Bool}

section

omit [Scalar α]

/-- The slots of the nodes. -/
def slots (t : EventTree α) : List Nat := t.toList.map fun c => c.event.slot

/-- The link to the root. -/
def link : EventTree α → Option Nat
  | .leaf => none
  | .node c _ _ _ => some c.event.slot

/-- Each node lies in its slot. -/
def Laid (nodes : Array (Node α)) : EventTree α → Prop
  | .leaf => True
  | .node c s l r => nodes[c.event.slot]? = some ⟨c, c.priority, l.link, r.link, s⟩ ∧
      l.Laid nodes ∧ r.Laid nodes

/-- The slots of a node and its subtrees. -/
lemma slots_node (c : Change α) (s : Summary α) (l r : EventTree α) :
    (node c s l r).slots = l.slots ++ c.event.slot :: r.slots := by
  unfold slots
  rw [toList, List.map_append, List.map_cons]

/-- No slot of a node and its subtrees is named twice. -/
lemma nodup_slots_node : (node c s l r).slots.Nodup ↔ (l.slots.Nodup ∧ r.slots.Nodup) ∧
    (c.event.slot ∉ l.slots ∧ c.event.slot ∉ r.slots) ∧ l.slots.Disjoint r.slots := by
  rw [slots_node, List.nodup_append', List.nodup_cons, List.disjoint_cons_right]
  tauto

/-- The slots of a node and of its subtrees are slots of the tree. -/
lemma slots_node_subset (c : Change α) (s : Summary α) (l r : EventTree α) :
    l.slots ⊆ (node c s l r).slots ∧ [c.event.slot] ⊆ (node c s l r).slots ∧
      r.slots ⊆ (node c s l r).slots := by
  rw [slots_node]
  exact ⟨by simp, by simp, by simp⟩

/-- A laid tree stays laid if other slots are written. -/
lemma Laid.frame (h : t.Laid nodes) (written : Rewritten listed nodes nodes')
    (apart : t.slots.Disjoint listed) : t.Laid nodes' := by
  induction t with
  | leaf => trivial
  | node c s l r ihl ihr =>
    obtain ⟨here, left, right⟩ := h
    rw [slots_node, List.disjoint_append_left, List.disjoint_cons_left] at apart
    exact ⟨(written.kept _ apart.2.1).trans here, ihl left apart.1, ihr right apart.2.2⟩

/-- A laid tree stays laid if a slot outside of it is written. -/
lemma Laid.frame_one (h : t.Laid nodes) (written : Rewritten [slot] nodes nodes')
    (out : slot ∉ t.slots) : t.Laid nodes' := h.frame written (List.disjoint_singleton.2 out)

/-- The slots of a laid tree are in the array. -/
lemma Laid.lt_size (h : t.Laid nodes) : ∀ slot ∈ t.slots, slot < nodes.size := by
  induction t with
  | leaf => exact fun slot inside => absurd inside List.not_mem_nil
  | node c s l r ihl ihr =>
    obtain ⟨here, left, right⟩ := h
    intro slot inside
    rw [slots_node, List.mem_append, List.mem_cons] at inside
    obtain inLeft | rfl | inRight := inside
    · exact ihl left slot inLeft
    · exact (Array.getElem?_eq_some_iff.1 here).1
    · exact ihr right slot inRight

/-- The nodes of a tree lie in the same way wherever it is laid. -/
lemma Laid.getElem?_eq (h : t.Laid nodes) (h' : t.Laid nodes') :
    ∀ slot ∈ t.slots, nodes[slot]? = nodes'[slot]? := by
  induction t with
  | leaf => exact fun slot inside => absurd inside List.not_mem_nil
  | node c s l r ihl ihr =>
    obtain ⟨here, left, right⟩ := h
    obtain ⟨here', left', right'⟩ := h'
    intro slot inside
    rw [slots_node, List.mem_append, List.mem_cons] at inside
    obtain inLeft | rfl | inRight := inside
    · exact ihl left left' slot inLeft
    · exact here.trans here'.symm
    · exact ihr right right' slot inRight

/-- What is read at the link of a laid tree is what its root knows. -/
lemma Laid.summaryAt (h : t.Laid nodes) : EventArena.summaryAt nodes t.link = .ok t.summary? := by
  cases t with
  | leaf => rfl
  | node c s l r =>
    unfold EventArena.summaryAt link
    dsimp only
    rw [fetch_of_getElem? h.1]
    rfl

end

/-- A split distributes the slots. -/
lemma slots_split (below : Event → Bool) (t : EventTree α) :
    (t.split below).1.slots ++ (t.split below).2.slots = t.slots := by
  unfold slots
  rw [← List.map_append, toList_split]

/-- A split gives slots of the tree. -/
lemma slots_split_subset (below : Event → Bool) (t : EventTree α) :
    (t.split below).1.slots ⊆ t.slots ∧ (t.split below).2.slots ⊆ t.slots := by
  rw [← slots_split below t]
  exact ⟨List.subset_append_left _ _, List.subset_append_right _ _⟩

/-- A merge puts the slots together. -/
lemma slots_merge (a b : EventTree α) : (a.merge b).slots = a.slots ++ b.slots := by
  unfold slots
  rw [toList_merge, List.map_append]

/-- A node is pulled over two laid trees. -/
lemma pull_answers (here : nodes[c.event.slot]? = some ⟨c, c.priority, l.link, r.link, s⟩)
    (left : l.Laid nodes) (right : r.Laid nodes)
    (out : c.event.slot ∉ l.slots ∧ c.event.slot ∉ r.slots) :
    (EventArena.pull nodes c.event.slot).Answers fun nodes' =>
      (join c l r).Laid nodes' ∧ Rewritten [c.event.slot] nodes nodes' := by
  unfold EventArena.pull
  rw [fetch_of_getElem? here, ok_bind]
  dsimp only
  rw [left.summaryAt, ok_bind, right.summaryAt, ok_bind]
  obtain ⟨nodes', stored, there, written⟩ := store_node here
    (y := ⟨c, c.priority, l.link, r.link, .over c l.summary? r.summary?⟩) rfl
  exact ⟨nodes', stored, ⟨there, left.frame_one written out.1, right.frame_one written out.2⟩,
    written⟩

/-- A node is linked to two laid trees and pulled. -/
lemma adjust_pull_answers {f : Node α → Checked (Node α)} (here : nodes[c.event.slot]? = some x)
    (answer : f x = .ok ⟨c, c.priority, l.link, r.link, s⟩) (priority : x.priority = c.priority)
    (left : l.Laid nodes) (right : r.Laid nodes)
    (out : c.event.slot ∉ l.slots ∧ c.event.slot ∉ r.slots) :
    (do EventArena.pull (← adjust nodes c.event.slot f) c.event.slot).Answers fun nodes' =>
      (join c l r).Laid nodes' ∧ Rewritten [c.event.slot] nodes nodes' := by
  unfold adjust
  rw [fetch_of_getElem? here, ok_bind, answer, ok_bind]
  refine (store_node here priority.symm).bind fun nodes₁ spec => ?_
  obtain ⟨there, written⟩ := spec
  refine (pull_answers there (left.frame_one written out.1) (right.frame_one written out.2) out).imp ?_
  exact fun nodes' spec => ⟨spec.1, written.trans spec.2⟩

/-- A change is put into its slot, whatever lay there. -/
lemma plant_answers (here : nodes[c.event.slot]? = some x) (same : x.priority = c.priority) :
    (EventArena.plant nodes c).Answers fun nodes' =>
      (single c).Laid nodes' ∧ Rewritten [c.event.slot] nodes nodes' := by
  refine adjust_pull_answers (l := .leaf) (r := .leaf) (s := x.summary) here ?_ same trivial trivial
    ⟨List.not_mem_nil, List.not_mem_nil⟩
  rw [same]
  rfl

/-! ## Splits and merges -/

omit [Scalar α] in
/-- A laid tree has not more nodes than the arena. -/
lemma Laid.length_le (laid : t.Laid nodes) (distinct : t.slots.Nodup) :
    t.slots.length ≤ nodes.size := length_le_of_nodup distinct laid.lt_size

/-- The first part of a split of a node that belongs to it. -/
lemma split_of_below (passed : below c.event = true) (s : Summary α) (l r : EventTree α) :
    (node c s l r).split below = (join c l (r.split below).1, (r.split below).2) := if_pos passed

/-- The second part of a split of a node that belongs to it. -/
lemma split_of_not_below (failed : ¬below c.event = true) (s : Summary α) (l r : EventTree α) :
    (node c s l r).split below = ((l.split below).1, join c (l.split below).2 r) := if_neg failed

/-- A split gives the two parts of the tree if there are steps for its nodes. -/
lemma split_of_length_le (distinct : t.slots.Nodup) :
    ∀ {steps : Nat} {nodes : Array (Node α)}, t.Laid nodes → t.slots.length ≤ steps →
      (EventArena.split below steps nodes t.link).Answers fun parts =>
        parts.2 = ((t.split below).1.link, (t.split below).2.link) ∧
          ((t.split below).1.Laid parts.1 ∧ (t.split below).2.Laid parts.1) ∧
            Rewritten t.slots nodes parts.1 := by
  induction t with
  | leaf =>
    intro steps nodes laid _
    cases steps <;> exact .ok ⟨rfl, ⟨trivial, trivial⟩, .refl _ _⟩
  | node c s l r ihl ihr =>
    intro steps nodes laid short
    obtain ⟨here, left, right⟩ := laid
    obtain ⟨⟨nodupLeft, nodupRight⟩, ⟨outLeft, outRight⟩, apart⟩ := nodup_slots_node.1 distinct
    obtain ⟨inLeft, own, inRight⟩ := slots_node_subset c s l r
    rw [slots_node, List.length_append, List.length_cons] at short
    obtain ⟨steps, rfl⟩ : ∃ n, steps = n + 1 := ⟨steps - 1, by omega⟩
    unfold EventArena.split link
    dsimp only
    rw [fetch_of_getElem? here, ok_bind]
    dsimp only
    by_cases passed : below c.event = true
    · rw [if_pos passed, split_of_below passed]
      refine (ihr nodupRight right (by omega)).bind fun parts spec => ?_
      obtain ⟨nodes₁, links⟩ := parts
      obtain ⟨rfl, ⟨first, last⟩, written⟩ := spec
      obtain ⟨inFirst, inLast⟩ := slots_split_subset below r
      refine (adjust_pull_answers (l := l) (r := (r.split below).1)
        ((written.kept _ outRight).trans here) rfl rfl (left.frame written apart) first
        ⟨outLeft, fun inside => outRight (inFirst inside)⟩).bind ?_
      rintro nodes₂ ⟨joined, written'⟩
      exact .pure ⟨rfl, ⟨joined, last.frame_one written' fun inside => outRight (inLast inside)⟩,
        (written.mono inRight).trans (written'.mono own)⟩
    · rw [if_neg passed, split_of_not_below passed]
      refine (ihl nodupLeft left (by omega)).bind fun parts spec => ?_
      obtain ⟨nodes₁, links⟩ := parts
      obtain ⟨rfl, ⟨first, last⟩, written⟩ := spec
      obtain ⟨inFirst, inLast⟩ := slots_split_subset below l
      refine (adjust_pull_answers (l := (l.split below).2) (r := r)
        ((written.kept _ outLeft).trans here) rfl rfl last (right.frame written (List.disjoint_comm.1 apart))
        ⟨fun inside => outLeft (inLast inside), outRight⟩).bind ?_
      rintro nodes₂ ⟨joined, written'⟩
      exact .pure ⟨rfl, ⟨first.frame_one written' fun inside => outLeft (inFirst inside), joined⟩,
        (written.mono inLeft).trans (written'.mono own)⟩

/-- A split through links gives the two parts of the tree. -/
lemma split_answers (below : Event → Bool) (laid : t.Laid nodes) (distinct : t.slots.Nodup)
    (enough : nodes.size ≤ steps) : (EventArena.split below steps nodes t.link).Answers fun parts =>
      parts.2 = ((t.split below).1.link, (t.split below).2.link) ∧
        ((t.split below).1.Laid parts.1 ∧ (t.split below).2.Laid parts.1) ∧
          Rewritten t.slots nodes parts.1 := by
  exact split_of_length_le distinct laid ((laid.length_le distinct).trans enough)

/-- A merge gives the merged tree if there are steps for the nodes of both trees. -/
lemma merge_of_length_le (a b : EventTree α) : ∀ {steps : Nat} {nodes : Array (Node α)},
    a.Laid nodes → b.Laid nodes → (a.slots ++ b.slots).Nodup → (a.slots ++ b.slots).length ≤ steps →
      (EventArena.merge steps nodes a.link b.link).Answers fun merged =>
        merged.2 = (a.merge b).link ∧ (a.merge b).Laid merged.1 ∧
          Rewritten (a.slots ++ b.slots) nodes merged.1 := by
  induction a, b using merge_induct with
  | first b =>
    intro steps nodes _ laid _ _
    cases steps <;> exact .ok ⟨rfl, laid, .refl _ _⟩
  | last c s l r =>
    intro steps nodes laid _ _ _
    rw [merge_leaf]
    cases steps <;> exact .ok ⟨rfl, laid, .refl _ _⟩
  | higher c s l r d t l' r' higher ih =>
    intro steps nodes laid laid' distinct short
    obtain ⟨here, left, right⟩ := laid
    have slots : (node c s l r).slots ++ (node d t l' r').slots =
        l.slots ++ c.event.slot :: (r.slots ++ (node d t l' r').slots) := by
      rw [slots_node c, List.append_assoc, List.cons_append]
    rw [slots] at distinct short ⊢
    rw [List.nodup_append', List.nodup_cons, List.disjoint_cons_right] at distinct
    obtain ⟨-, ⟨outRight, distinct⟩, outLeft, apart⟩ := distinct
    rw [List.length_append, List.length_cons] at short
    obtain ⟨steps, rfl⟩ : ∃ n, steps = n + 1 := ⟨steps - 1, by omega⟩
    have above : d.priority < c.priority := higher
    rw [merge_of_higher higher]
    unfold EventArena.merge link
    dsimp only
    rw [fetch_of_getElem? here, ok_bind, fetch_of_getElem? laid'.1, ok_bind]
    dsimp only
    rw [if_pos above]
    refine (ih right laid' distinct (by omega)).bind fun merged spec => ?_
    obtain ⟨nodes₁, link⟩ := merged
    obtain ⟨rfl, joined, written⟩ := spec
    refine (adjust_pull_answers (l := l) (r := r.merge (node d t l' r'))
      ((written.kept _ outRight).trans here) rfl rfl (left.frame written apart) joined
      ⟨outLeft, by rwa [slots_merge]⟩).bind ?_
    rintro nodes₂ ⟨rooted, written'⟩
    exact .pure ⟨rfl, rooted, (written.mono (by simp)).trans (written'.mono (by simp))⟩
  | lower c s l r d t l' r' lower ih =>
    intro steps nodes laid laid' distinct short
    obtain ⟨here, left, right⟩ := laid'
    have slots : (node c s l r).slots ++ (node d t l' r').slots =
        ((node c s l r).slots ++ l'.slots) ++ d.event.slot :: r'.slots := by
      rw [slots_node d, List.append_assoc]
    rw [slots] at distinct short ⊢
    rw [List.nodup_append', List.nodup_cons, List.disjoint_cons_right] at distinct
    obtain ⟨distinct, ⟨outRight, -⟩, outLeft, apart⟩ := distinct
    rw [List.length_append, List.length_cons] at short
    obtain ⟨steps, rfl⟩ : ∃ n, steps = n + 1 := ⟨steps - 1, by omega⟩
    rw [merge_of_lower lower]
    unfold EventArena.merge link
    dsimp only
    rw [fetch_of_getElem? laid.1, ok_bind, fetch_of_getElem? here, ok_bind]
    dsimp only
    rw [if_neg lower]
    refine (ih laid left distinct (by omega)).bind fun merged spec => ?_
    obtain ⟨nodes₁, link⟩ := merged
    obtain ⟨rfl, joined, written⟩ := spec
    refine (adjust_pull_answers (l := (node c s l r).merge l') (r := r')
      ((written.kept _ outLeft).trans here) rfl rfl joined
      (right.frame written (List.disjoint_comm.1 apart)) ⟨by rwa [slots_merge], outRight⟩).bind ?_
    rintro nodes₂ ⟨rooted, written'⟩
    exact .pure ⟨rfl, rooted, (written.mono (by simp)).trans (written'.mono (by simp))⟩

/-- A merge through links gives the merged tree. -/
lemma merge_answers (laid : a.Laid nodes) (laid' : b.Laid nodes)
    (distinct : (a.slots ++ b.slots).Nodup) (enough : nodes.size ≤ steps) :
    (EventArena.merge steps nodes a.link b.link).Answers fun merged =>
      merged.2 = (a.merge b).link ∧ (a.merge b).Laid merged.1 ∧
        Rewritten (a.slots ++ b.slots) nodes merged.1 :=
  merge_of_length_le a b laid laid' distinct <| (length_le_of_nodup distinct fun slot member =>
    (List.mem_append.1 member).elim (laid.lt_size slot) (laid'.lt_size slot)).trans enough

end EventTree

/-! ## Arenas of trees -/

namespace EventArena

variable {a a' : EventArena α} {t : EventTree α} {c : Change α} {e : Event}

/-- The tree that is laid from the root on; the arena may hold more nodes. -/
structure Represents (a : EventArena α) (t : EventTree α) : Prop where
  root : a.root = t.link
  laid : t.Laid a.nodes
  distinct : t.slots.Nodup
  prioritized : Prioritized a.nodes

/-- The arena of an empty tree. -/
lemma represents_empty (slots : Nat) : (empty slots : EventArena α).Represents .leaf where
  root := rfl
  laid := trivial
  distinct := List.nodup_nil
  prioritized slot x here := by
    unfold empty at here
    dsimp only at here
    rw [Array.getElem?_ofFn] at here
    split at here
    · exact Option.some.inj here ▸ rfl
    · cases here

/-- A change whose slot is not in use is put into the tree. -/
lemma Represents.insert (h : a.Represents t) (inside : c.event.slot < a.nodes.size)
    (fresh : c.event.slot ∉ t.slots) : (a.insert c).Answers fun a' =>
      a'.Represents (t.insert c) ∧ Rewritten (c.event.slot :: t.slots) a.nodes a'.nodes := by
  let less := (t.split fun e => e < c.event).1
  let rest := (t.split fun e => e < c.event).2
  have slots : less.slots ++ rest.slots = t.slots := EventTree.slots_split _ t
  have joined : (less.merge (.single c)).slots = less.slots ++ [c.event.slot] :=
    EventTree.slots_merge less (.single c)
  have perm : ((less.slots ++ [c.event.slot]) ++ rest.slots).Perm (c.event.slot :: t.slots) := by
    rw [List.append_assoc, List.singleton_append, ← slots]
    exact List.perm_middle
  have distinct := perm.nodup_iff.2 (List.nodup_cons.2 ⟨fresh, h.distinct⟩)
  obtain ⟨distinct', -, apart⟩ := List.nodup_append'.1 distinct
  have here := Array.getElem?_eq_getElem inside
  unfold EventArena.insert
  refine (EventTree.plant_answers here (h.prioritized _ _ here)).bind fun nodes₁ spec => ?_
  obtain ⟨planted, written₁⟩ := spec
  rw [h.root]
  refine (EventTree.split_answers _ (h.laid.frame_one written₁ fresh) h.distinct
    written₁.size.le).bind fun parts spec => ?_
  obtain ⟨nodes₂, links⟩ := parts
  obtain ⟨rfl, ⟨first, last⟩, written₂⟩ := spec
  have planted := planted.frame written₂ (List.disjoint_comm.1 (List.disjoint_singleton.2 fresh))
  have written₂ : Rewritten (c.event.slot :: t.slots) a.nodes nodes₂ :=
    (written₁.mono (by simp)).trans (written₂.mono (List.subset_cons_self _ _))
  refine (EventTree.merge_answers first planted distinct' written₂.size.le).bind fun merged spec => ?_
  obtain ⟨nodes₃, link⟩ := merged
  obtain ⟨rfl, first, written₃⟩ := spec
  have last := last.frame written₃ (List.disjoint_comm.1 apart)
  have written₃ := written₂.trans
    (written₃.mono (List.Subset.trans (List.subset_append_left _ _) perm.subset))
  rw [← joined] at distinct perm
  refine (EventTree.merge_answers first last distinct written₃.size.le).bind fun merged spec => ?_
  obtain ⟨nodes₄, link⟩ := merged
  obtain ⟨rfl, laid, written₄⟩ := spec
  have written₄ := written₃.trans (written₄.mono perm.subset)
  rw [← EventTree.slots_merge] at distinct
  exact .pure ⟨⟨rfl, laid, distinct, written₄.prioritized h.prioritized⟩, written₄⟩

/-- An event is taken out of the tree. -/
lemma Represents.erase (h : a.Represents t) (e : Event) : (a.erase e).Answers fun a' =>
    a'.Represents (t.erase e) ∧ Rewritten t.slots a.nodes a'.nodes := by
  let less := (t.split fun e' => e' < e).1
  let rest := (t.split fun e' => e' < e).2
  let greater := (rest.split fun e' => e' ≤ e).2
  obtain ⟨inLess, inRest⟩ := EventTree.slots_split_subset (fun e' => e' < e) t
  obtain ⟨-, inGreater⟩ := EventTree.slots_split_subset (fun e' => e' ≤ e) rest
  have slots : less.slots ++ rest.slots = t.slots := EventTree.slots_split _ t
  have slots' : (rest.split fun e' => e' ≤ e).1.slots ++ greater.slots = rest.slots :=
    EventTree.slots_split _ rest
  have distinct := h.distinct
  rw [← slots, List.nodup_append'] at distinct
  obtain ⟨distinctLess, distinctRest, apart⟩ := distinct
  have distinct : (less.slots ++ greater.slots).Nodup := by
    rw [← slots', List.nodup_append'] at distinctRest
    exact List.nodup_append'.2 ⟨distinctLess, distinctRest.2.1, fun slot first last =>
      apart first (inGreater last)⟩
  unfold EventArena.erase
  rw [h.root]
  refine (EventTree.split_answers _ h.laid h.distinct le_rfl).bind fun parts spec => ?_
  obtain ⟨nodes₁, links⟩ := parts
  obtain ⟨rfl, ⟨first, last⟩, written₁⟩ := spec
  refine (EventTree.split_answers _ last distinctRest written₁.size.le).bind fun parts spec => ?_
  obtain ⟨nodes₂, links⟩ := parts
  obtain ⟨rfl, ⟨-, last⟩, written₂⟩ := spec
  have first := first.frame written₂ apart
  have written₂ := written₁.trans (written₂.mono inRest)
  refine (EventTree.merge_answers first last distinct written₂.size.le).bind fun merged spec => ?_
  obtain ⟨nodes₃, link⟩ := merged
  obtain ⟨rfl, laid, written₃⟩ := spec
  have written₃ := written₂.trans
    (written₃.mono (List.append_subset.2 ⟨inLess, List.Subset.trans inGreater inRest⟩))
  rw [← EventTree.slots_merge] at distinct
  exact .pure ⟨⟨rfl, laid, distinct, written₃.prioritized h.prioritized⟩, written₃⟩

/-- Changes of different slots that are not in use are put into the tree. -/
lemma Represents.insertAll {changes : List (Change α)}
    (distinct : (changes.map fun c => c.event.slot).Nodup) : ∀ {a : EventArena α} {t : EventTree α},
      a.Represents t → (∀ c ∈ changes, c.event.slot < a.nodes.size ∧ c.event.slot ∉ t.slots) →
        (changes.foldlM EventArena.insert a).Answers fun a' =>
          a'.Represents (changes.foldl EventTree.insert t) ∧
            Rewritten (changes.map (fun c => c.event.slot) ++ t.slots) a.nodes a'.nodes := by
  induction changes with
  | nil => exact fun h _ => .pure ⟨h, .refl _ _⟩
  | cons c rest ih =>
    intro a t h free
    obtain ⟨first, distinct⟩ := List.nodup_cons.1 distinct
    obtain ⟨inside, fresh⟩ := free c List.mem_cons_self
    have slots : ∀ slot ∈ (t.insert c).slots, slot = c.event.slot ∨ slot ∈ t.slots := by
      intro slot member
      obtain ⟨d, among, rfl⟩ := List.mem_map.1 member
      obtain rfl | old := EventTree.mem_insert.1 among
      · exact .inl rfl
      · exact .inr (List.mem_map_of_mem old)
    rw [List.foldlM_cons]
    refine (h.insert inside fresh).bind fun a₁ spec => ?_
    obtain ⟨h₁, written₁⟩ := spec
    refine (ih distinct h₁ fun d member => ?_).imp fun a' spec => ?_
    · obtain ⟨inside', fresh'⟩ := free d (List.mem_cons_of_mem _ member)
      refine ⟨lt_of_lt_of_eq inside' written₁.size.symm, fun used => ?_⟩
      obtain same | old := slots _ used
      · exact first (List.mem_map.2 ⟨d, member, same⟩)
      · exact fresh' old
    · obtain ⟨h', written'⟩ := spec
      refine ⟨h', (written₁.mono ?_).trans (written'.mono ?_)⟩
      · rw [List.map_cons]
        exact List.cons_subset_cons _ (List.subset_append_right _ _)
      · intro slot member
        rcases List.mem_append.1 member with later | used
        · exact List.mem_append_left _ (List.mem_cons_of_mem _ later)
        · obtain rfl | old := slots _ used
          · exact List.mem_append_left _ List.mem_cons_self
          · exact List.mem_append_right _ old

/-- Events are taken out of the tree. -/
lemma Represents.eraseAll (changes : List (Change α)) : ∀ {a : EventArena α} {t : EventTree α},
    a.Represents t → t.Sorted →
      (changes.foldlM (fun (a : EventArena α) c => a.erase c.event) a).Answers fun a' =>
        a'.Represents (changes.foldl (fun t c => t.erase c.event) t) ∧
          Rewritten t.slots a.nodes a'.nodes := by
  induction changes with
  | nil => exact fun h _ => .pure ⟨h, .refl _ _⟩
  | cons c rest ih =>
    intro a t h sorted
    rw [List.foldlM_cons]
    refine (h.erase c.event).bind fun a₁ spec => ?_
    obtain ⟨h₁, written₁⟩ := spec
    refine (ih h₁ (sorted.erase c.event)).imp fun a' spec => ?_
    obtain ⟨h', written'⟩ := spec
    refine ⟨h', written₁.trans (written'.mono fun slot member => ?_)⟩
    obtain ⟨d, among, rfl⟩ := List.mem_map.1 member
    exact List.mem_map_of_mem ((EventTree.mem_erase sorted).1 among).1

end EventArena

end Leveling
