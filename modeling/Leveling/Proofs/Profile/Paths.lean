import Leveling.Proofs.Profile.Lookups
import Leveling.Proofs.Profile.Shapes

/-!
# Paths through arenas

A path of turns leads from the root of an arena along its links.  The nodes that are reached in this way
are a *treap*: each path reaches a node of its own, the nodes to the left of a node have earlier events
and those to the right later ones, and no node below it has a higher priority.  So there are no links
that are shared, that lead back or that lead to a node that was taken out.

What lies in the reached slots is fixed by the tree that the arena represents.
-/

namespace Leveling

variable {α : Type} [Scalar α]

/-- A turn at a node. -/
inductive Turn where
  | left
  | right
deriving DecidableEq

section

omit [Scalar α]

/-- The link that is followed at a turn. -/
def Node.child (x : Node α) : Turn → Option Nat
  | .left => x.left
  | .right => x.right

/-- The slot to which a path leads from a link, if it leads to one. -/
def EventArena.follow (nodes : Array (Node α)) : List Turn → Option Nat → Option Nat
  | [], link => link
  | turn :: path, link =>
    follow nodes path (link.bind fun slot => nodes[slot]?.bind fun x => x.child turn)

/-- The slot to which a path leads from the root, if it leads to one. -/
def EventArena.slotAt (a : EventArena α) (path : List Turn) : Option Nat := follow a.nodes path a.root

/-- The nodes that paths lead to are a search tree by event and a heap by priority, and no slot occurs
twice in it. -/
structure EventArena.IsTreap (a : EventArena α) : Prop where
  stored : ∀ path slot, a.slotAt path = some slot → slot < a.nodes.size
  once : ∀ path path' slot, a.slotAt path = some slot → a.slotAt path' = some slot → path = path'
  left_lt : ∀ path path' slot slot' x y, a.slotAt path = some slot →
    a.slotAt (path ++ .left :: path') = some slot' → a.nodes[slot]? = some x →
      a.nodes[slot']? = some y → y.change.event < x.change.event
  lt_right : ∀ path path' slot slot' x y, a.slotAt path = some slot →
    a.slotAt (path ++ .right :: path') = some slot' → a.nodes[slot]? = some x →
      a.nodes[slot']? = some y → x.change.event < y.change.event
  heap : ∀ path path' slot slot' x y, a.slotAt path = some slot → a.slotAt (path ++ path') = some slot' →
    a.nodes[slot]? = some x → a.nodes[slot']? = some y → y.priority ≤ x.priority

namespace EventTree

variable {nodes : Array (Node α)} {t : EventTree α} {c : Change α} {s : Summary α} {l r : EventTree α}
  {path path' : List Turn} {slot : Nat}

/-- The subtree at a turn. -/
def child : EventTree α → Turn → EventTree α
  | .leaf, _ => .leaf
  | .node _ _ l _, .left => l
  | .node _ _ _ r, .right => r

/-- The subtree at the end of a path. -/
def subtree (t : EventTree α) (path : List Turn) : EventTree α := path.foldl child t

/-- A path through a laid tree leads to the subtree at its end. -/
lemma Laid.follow (h : t.Laid nodes) (path : List Turn) :
    EventArena.follow nodes path t.link = (t.subtree path).link ∧ (t.subtree path).Laid nodes := by
  induction path generalizing t with
  | nil => exact ⟨rfl, h⟩
  | cons turn path ih =>
    unfold EventArena.follow
    have below : (t.child turn).Laid nodes ∧
        (t.link.bind fun slot => nodes[slot]?.bind fun x => x.child turn) = (t.child turn).link := by
      cases t with
      | leaf => exact ⟨trivial, rfl⟩
      | node c s l r =>
        obtain ⟨here, left, right⟩ := h
        unfold link
        dsimp only [Option.bind_some]
        rw [here]
        cases turn with
        | left => exact ⟨left, rfl⟩
        | right => exact ⟨right, rfl⟩
    rw [below.2]
    exact ih below.1

/-- The subtree at the end of a path lists a part of the tree. -/
lemma toList_subtree_sublist (t : EventTree α) (path : List Turn) :
    (t.subtree path).toList.Sublist t.toList := by
  induction path generalizing t with
  | nil => exact List.Sublist.refl _
  | cons turn path ih =>
    refine (ih (t.child turn)).trans ?_
    cases t with
    | leaf => exact List.Sublist.refl _
    | node c s l r =>
      cases turn with
      | left => exact List.sublist_append_left _ _
      | right => exact (List.sublist_cons_self _ _).trans (List.sublist_append_right _ _)

/-- A link leads to a node with that slot. -/
lemma exists_node_of_link (h : t.link = some slot) :
    ∃ c s l r, t = node c s l r ∧ c.event.slot = slot := by
  cases t with
  | leaf => cases h
  | node c s l r => exact ⟨c, s, l, r, rfl, Option.some.inj h⟩

/-- The slot at the end of a path is a slot of the tree. -/
lemma slot_mem_of_subtree (h : (t.subtree path).link = some slot) : slot ∈ t.slots := by
  obtain ⟨c, s, l, r, same, rfl⟩ := exists_node_of_link h
  refine List.mem_map_of_mem ((toList_subtree_sublist t path).subset ?_)
  rw [same]
  exact List.mem_append_right _ List.mem_cons_self

/-- A path leads to each node. -/
lemma exists_path (inside : c ∈ t.toList) : ∃ path s l r, t.subtree path = node c s l r := by
  induction t with
  | leaf => exact absurd inside List.not_mem_nil
  | node d s l r ihl ihr =>
    rcases List.mem_append.1 inside with inLeft | inside
    · obtain ⟨path, found⟩ := ihl inLeft
      exact ⟨.left :: path, found⟩
    · rcases List.mem_cons.1 inside with rfl | inRight
      · exact ⟨[], s, l, r, rfl⟩
      · obtain ⟨path, found⟩ := ihr inRight
        exact ⟨.right :: path, found⟩

/-- If no slot is named twice, each path leads to a slot of its own. -/
lemma path_unique (distinct : t.slots.Nodup) (h : (t.subtree path).link = some slot)
    (h' : (t.subtree path').link = some slot) : path = path' := by
  induction t generalizing path path' with
  | leaf =>
    have empty : ∀ path : List Turn, (leaf : EventTree α).subtree path = leaf := fun path => by
      induction path with
      | nil => rfl
      | cons turn path ih => exact ih
    rw [empty path] at h
    cases h
  | node c s l r ihl ihr =>
    obtain ⟨⟨nodupLeft, nodupRight⟩, ⟨outLeft, outRight⟩, apart⟩ := nodup_slots_node.1 distinct
    have inLeft : ∀ {path slot}, ((node c s l r).subtree (.left :: path)).link = some slot →
        slot ∈ l.slots := fun h => slot_mem_of_subtree (t := l) h
    have inRight : ∀ {path slot}, ((node c s l r).subtree (.right :: path)).link = some slot →
        slot ∈ r.slots := fun h => slot_mem_of_subtree (t := r) h
    have out : ∀ turn path, ((node c s l r).subtree (turn :: path)).link ≠ some c.event.slot := by
      intro turn path here
      cases turn with
      | left => exact outLeft (inLeft here)
      | right => exact outRight (inRight here)
    cases path with
    | nil =>
      cases path' with
      | nil => rfl
      | cons turn path' =>
        obtain rfl := Option.some.inj h
        exact absurd h' (out turn path')
    | cons turn path =>
      cases path' with
      | nil =>
        obtain rfl := Option.some.inj h'
        exact absurd h (out turn path)
      | cons turn' path' =>
        cases turn <;> cases turn'
        · rw [ihl nodupLeft h h']
        · exact absurd (inRight h') (apart (inLeft h))
        · exact absurd (inRight h) (apart (inLeft h'))
        · rw [ihr nodupRight h h']

end EventTree

end

namespace EventTree

variable {t l r : EventTree α} {c d : Change α} {s : Summary α}

/-- The subtrees of a shaped tree are shaped. -/
lemma Shaped.subtree (h : t.Shaped) (path : List Turn) : (t.subtree path).Shaped := by
  induction path generalizing t with
  | nil => exact h
  | cons turn path ih =>
    refine ih (t := t.child turn) ?_
    cases t with
    | leaf => exact trivial
    | node c s l r =>
      obtain ⟨-, -, -, left, right⟩ := h
      cases turn with
      | left => exact left
      | right => exact right

/-- No node of a shaped tree has a higher priority than its root. -/
lemma Shaped.priority_le_root (h : (node c s l r).Shaped) (inside : d ∈ (node c s l r).toList) :
    d.priority ≤ c.priority := by
  obtain ⟨-, first, last, -, -⟩ := h
  rcases List.mem_append.1 inside with inLeft | inside
  · exact first d inLeft
  · rcases List.mem_cons.1 inside with rfl | inRight
    · exact UInt64.le_refl _
    · exact UInt64.le_of_lt (last d inRight)

end EventTree

namespace EventArena.Represents

variable {a b : EventArena α} {t : EventTree α} {path path' : List Turn} {slot slot' : Nat} {x y : Node α}

omit [Scalar α] in
/-- A path leads to the subtree at its end. -/
lemma slotAt (h : a.Represents t) (path : List Turn) : a.slotAt path = (t.subtree path).link := by
  unfold EventArena.slotAt
  rw [h.root]
  exact (h.laid.follow path).1

omit [Scalar α] in
/-- What lies in the slot at the end of a path. -/
lemma exists_node (h : a.Represents t) (reached : a.slotAt path = some slot) : ∃ c s l r,
    t.subtree path = .node c s l r ∧ c.event.slot = slot ∧
      a.nodes[slot]? = some ⟨c, c.priority, l.link, r.link, s⟩ := by
  rw [h.slotAt] at reached
  obtain ⟨c, s, l, r, same, rfl⟩ := EventTree.exists_node_of_link reached
  have laid := (h.laid.follow path).2
  rw [same] at laid
  exact ⟨c, s, l, r, same, rfl, laid.1⟩

omit [Scalar α] in
/-- The nodes that paths lead to are those of the tree. -/
lemma exists_reached_iff (h : a.Represents t) (e : Event) :
    (∃ path x, a.slotAt path = some e.slot ∧ a.nodes[e.slot]? = some x ∧ x.change.event = e) ↔
      ∃ c ∈ t.toList, c.event = e := by
  constructor
  · rintro ⟨path, x, reached, here, rfl⟩
    obtain ⟨c, s, l, r, same, -, found⟩ := h.exists_node reached
    obtain rfl := Option.some.inj (found.symm.trans here)
    refine ⟨c, (EventTree.toList_subtree_sublist t path).subset ?_, rfl⟩
    rw [same]
    exact List.mem_append_right _ List.mem_cons_self
  · rintro ⟨c, inside, rfl⟩
    obtain ⟨path, s, l, r, same⟩ := EventTree.exists_path inside
    have reached : a.slotAt path = some c.event.slot := by
      rw [h.slotAt, same]
      rfl
    have laid := (h.laid.follow path).2
    rw [same] at laid
    exact ⟨path, _, reached, laid.1, rfl⟩

omit [Scalar α] in
/-- What is below a node lies in its subtree. -/
lemma below (h : a.Represents t) (reached : a.slotAt path = some slot)
    (reached' : a.slotAt (path ++ path') = some slot') (here : a.nodes[slot]? = some x)
    (there : a.nodes[slot']? = some y) : ∃ s l r, t.subtree path = .node x.change s l r ∧
      x.priority = x.change.priority ∧ y.priority = y.change.priority ∧
        y.change ∈ ((t.subtree path).subtree path').toList := by
  obtain ⟨c, s, l, r, same, rfl, found⟩ := h.exists_node reached
  obtain ⟨d, s', l', r', same', rfl, found'⟩ := h.exists_node reached'
  obtain rfl := Option.some.inj (found.symm.trans here)
  obtain rfl := Option.some.inj (found'.symm.trans there)
  refine ⟨s, l, r, same, rfl, rfl, ?_⟩
  rw [EventTree.subtree, List.foldl_append] at same'
  unfold EventTree.subtree
  rw [same']
  exact List.mem_append_right _ List.mem_cons_self

/-- The nodes that paths lead to are a treap. -/
lemma isTreap (h : a.Represents t) (sorted : t.Sorted) (shaped : t.Shaped) : a.IsTreap where
  stored path slot reached := by
    obtain ⟨c, s, l, r, -, rfl, found⟩ := h.exists_node reached
    exact (Array.getElem?_eq_some_iff.1 found).1
  once path path' slot reached reached' := by
    rw [h.slotAt] at reached reached'
    exact EventTree.path_unique h.distinct reached reached'
  left_lt path path' slot slot' x y reached reached' here there := by
    obtain ⟨s, l, r, same, -, -, member⟩ := h.below reached reached' here there
    have order := List.Pairwise.sublist (EventTree.toList_subtree_sublist t path) sorted
    rw [same] at order member
    have inside : y.change ∈ l.toList := (EventTree.toList_subtree_sublist l path').subset member
    exact (List.pairwise_append.1 order).2.2 _ inside _ List.mem_cons_self
  lt_right path path' slot slot' x y reached reached' here there := by
    obtain ⟨s, l, r, same, -, -, member⟩ := h.below reached reached' here there
    have order := List.Pairwise.sublist (EventTree.toList_subtree_sublist t path) sorted
    rw [same] at order member
    have inside : y.change ∈ r.toList := (EventTree.toList_subtree_sublist r path').subset member
    exact (List.pairwise_cons.1 (List.pairwise_append.1 order).2.1).1 _ inside
  heap path path' slot slot' x y reached reached' here there := by
    obtain ⟨s, l, r, same, priority, priority', member⟩ := h.below reached reached' here there
    have inside := (EventTree.toList_subtree_sublist _ path').subset member
    have shaped := shaped.subtree path
    rw [same] at shaped inside
    rw [priority, priority']
    exact shaped.priority_le_root inside

omit [Scalar α] in
/-- Two arenas of one tree have the same links and the same nodes wherever a path leads. -/
lemma same_nodes (h : a.Represents t) (h' : b.Represents t) : a.root = b.root ∧
    (∀ path, a.slotAt path = b.slotAt path) ∧ ∀ path slot, a.slotAt path = some slot →
      ∃ x, a.nodes[slot]? = some x ∧ b.nodes[slot]? = some x := by
  refine ⟨h.root.trans h'.root.symm, fun path => (h.slotAt path).trans (h'.slotAt path).symm, ?_⟩
  intro path slot reached
  obtain ⟨c, s, l, r, -, -, found⟩ := h.exists_node reached
  rw [h.slotAt] at reached
  have same := h.laid.getElem?_eq h'.laid slot (EventTree.slot_mem_of_subtree reached)
  exact ⟨_, found, same ▸ found⟩

end EventArena.Represents

end Leveling
