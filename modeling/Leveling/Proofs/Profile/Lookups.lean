import Leveling.Proofs.Profile.Arenas

/-!
# Questions to trees in arenas

A search that follows the links of an arena from its root gives what the same search gives on the tree
that is laid there.  There are enough steps for every search, because no node of a laid tree is passed
twice.  The tree itself can be read off the links.
-/

namespace Leveling

open Checked

variable {α : Type} [Scalar α]

namespace EventTree

variable {nodes : Array (Node α)} {t : EventTree α} {steps : Nat}

omit [Scalar α] in
/-- There is a step left for the root, and there are steps for both subtrees. -/
lemma exists_steps {c : Change α} {s : Summary α} {l r : EventTree α}
    (short : (node c s l r).slots.length ≤ steps) :
    ∃ rest, steps = rest + 1 ∧ l.slots.length ≤ rest ∧ r.slots.length ≤ rest := by
  rw [slots_node, List.length_append, List.length_cons] at short
  exact ⟨steps - 1, by omega, by omega, by omega⟩

/-- The level before an event. -/
lemma Laid.levelBeforeIn (h : t.Laid nodes) (e : Event) : ∀ {steps : Nat} (level : α),
    t.slots.length ≤ steps →
      EventArena.levelBeforeIn nodes e steps t.link level = .ok (t.levelBefore e level) := by
  induction t with
  | leaf =>
    intro steps level _
    cases steps <;> rfl
  | node c s l r ihl ihr =>
    intro steps level short
    obtain ⟨here, left, right⟩ := h
    obtain ⟨rest, rfl, forLeft, forRight⟩ := exists_steps short
    unfold EventArena.levelBeforeIn link levelBefore
    dsimp only
    rw [fetch_of_getElem? here, ok_bind]
    dsimp only
    split
    · rw [left.summaryAt, ok_bind]
      exact ihr right _ forRight
    · exact ihl left _ forLeft

/-- The highest level between two events. -/
lemma Laid.highestIn (h : t.Laid nodes) (lo hi : Event) : ∀ {steps : Nat} (level : α),
    t.slots.length ≤ steps →
      EventArena.highestIn nodes lo hi steps t.link level = .ok (t.highest lo hi level) := by
  induction t with
  | leaf =>
    intro steps level _
    cases steps <;> rfl
  | node c s l r ihl ihr =>
    intro steps level short
    obtain ⟨here, left, right⟩ := h
    obtain ⟨rest, rfl, forLeft, forRight⟩ := exists_steps short
    unfold EventArena.highestIn link highest
    dsimp only
    rw [fetch_of_getElem? here, ok_bind]
    dsimp only
    split
    · rfl
    split
    · rfl
    rw [ihl left _ forLeft, ok_bind, left.summaryAt, ok_bind, ihr right _ forRight, ok_bind]
    rfl

/-- The first event after which the level is as wanted. -/
lemma Laid.findFirstIn (h : t.Laid nodes) (start : Event) (threshold : α) (wanted : Wanted) :
    ∀ {steps : Nat} (level : α), t.slots.length ≤ steps →
      EventArena.findFirstIn nodes start threshold wanted steps t.link level =
        .ok (t.findFirst start threshold wanted level) := by
  induction t with
  | leaf =>
    intro steps level _
    cases steps <;> rfl
  | node c s l r ihl ihr =>
    intro steps level short
    obtain ⟨here, left, right⟩ := h
    obtain ⟨rest, rfl, forLeft, forRight⟩ := exists_steps short
    unfold EventArena.findFirstIn link findFirst
    dsimp only
    rw [fetch_of_getElem? here, ok_bind]
    dsimp only
    split
    · rfl
    split
    · rfl
    rw [ihl left _ forLeft, ok_bind]
    cases l.findFirst start threshold wanted level with
    | some event => rfl
    | none =>
      dsimp only
      rw [left.summaryAt, ok_bind]
      unfold sum
      split
      · rfl
      · exact ihr right _ forRight

/-! ## Walks -/

/-- The nodes on the stack lie in their slots with the trees to their right; `events` are their events
and those of the trees. -/
inductive Stacked (nodes : Array (Node α)) : List Nat → List Event → Prop
  | nil : Stacked nodes [] []
  | cons {slot : Nat} {x : Node α} {r : EventTree α} {stack : List Nat} {events : List Event}
      (here : nodes[slot]? = some x) (link : x.right = r.link) (right : r.Laid nodes)
      (short : r.slots.length ≤ nodes.size) (rest : Stacked nodes stack events) :
      Stacked nodes (slot :: stack) (x.change.event :: (r.toList.map Change.event ++ events))

omit [Scalar α] in
/-- The nodes down to the first event are put on the stack. -/
lemma Laid.pushLeft (h : t.Laid nodes) : ∀ {steps : Nat} {stack : List Nat} {events : List Event},
    t.slots.length ≤ steps → t.slots.length ≤ nodes.size → Stacked nodes stack events →
      (EventArena.pushLeft nodes steps t.link stack).Answers fun stack' =>
        Stacked nodes stack' (t.toList.map Change.event ++ events) := by
  induction t with
  | leaf =>
    intro steps stack events _ _ stacked
    cases steps <;> exact .ok stacked
  | node c s l r ihl _ =>
    intro steps stack events short bound stacked
    obtain ⟨here, left, right⟩ := h
    obtain ⟨rest, rfl, forLeft, -⟩ := exists_steps short
    obtain ⟨_, size, boundLeft, boundRight⟩ := exists_steps bound
    unfold EventArena.pushLeft link
    dsimp only
    rw [fetch_of_getElem? here, ok_bind, toList, List.map_append, List.map_cons, List.append_assoc]
    exact ihl left forLeft (by omega) (.cons here rfl right (by omega) stacked)

omit [Scalar α] in
/-- The walk gives the events of the nodes on the stack and of the trees to their right. -/
lemma Stacked.walk {stack : List Nat} {events : List Event} (h : Stacked nodes stack events) :
    ∀ {steps : Nat}, events.length ≤ steps → EventArena.walk nodes steps stack = .ok events := by
  intro steps
  induction steps generalizing stack events with
  | zero =>
    intro short
    cases h with
    | nil => rfl
    | cons => cases short
  | succ steps ih =>
    intro short
    cases h with
    | nil => rfl
    | cons here link right bound rest =>
      unfold EventArena.walk
      rw [fetch_of_getElem? here, ok_bind, link]
      obtain ⟨stack', pushed, stacked⟩ := right.pushLeft bound bound rest
      rw [pushed, ok_bind, ih stacked (Nat.le_of_succ_le_succ short)]
      rfl

omit [Scalar α] in
/-- The tree that hangs at a link. -/
def ofLink (nodes : Array (Node α)) : Nat → Option Nat → EventTree α
  | _, none => .leaf
  | 0, some _ => .leaf
  | steps + 1, some slot =>
    match nodes[slot]? with
    | none => .leaf
    | some x => .node x.change x.summary (ofLink nodes steps x.left) (ofLink nodes steps x.right)

omit [Scalar α] in
/-- A laid tree hangs at its link. -/
lemma Laid.ofLink_eq (h : t.Laid nodes) : ∀ {steps : Nat}, t.slots.length ≤ steps →
    ofLink nodes steps t.link = t := by
  induction t with
  | leaf =>
    intro steps _
    cases steps <;> rfl
  | node c s l r ihl ihr =>
    intro steps short
    obtain ⟨here, left, right⟩ := h
    obtain ⟨rest, rfl, forLeft, forRight⟩ := exists_steps short
    unfold ofLink link
    dsimp only
    rw [here]
    dsimp only
    rw [ihl left forLeft, ihr right forRight]

end EventTree

namespace EventArena

variable {a : EventArena α} {t : EventTree α}

/-- The tree that hangs at the root. -/
def tree (a : EventArena α) : EventTree α := .ofLink a.nodes a.nodes.size a.root

namespace Represents

omit [Scalar α] in
/-- The arena represents the tree that hangs at its root. -/
lemma tree_eq (h : a.Represents t) : a.tree = t := by
  unfold tree
  rw [h.root]
  exact h.laid.ofLink_eq (h.laid.length_le h.distinct)

/-- The level before an event. -/
lemma levelBefore (h : a.Represents t) (e : Event) : a.levelBefore e = .ok (t.levelBefore e 0) := by
  unfold EventArena.levelBefore
  rw [h.root]
  exact h.laid.levelBeforeIn e 0 (h.laid.length_le h.distinct)

/-- The highest level between two events. -/
lemma highest (h : a.Represents t) (lo hi : Event) : a.highest lo hi = .ok (t.highest lo hi 0) := by
  unfold EventArena.highest
  rw [h.root]
  exact h.laid.highestIn lo hi 0 (h.laid.length_le h.distinct)

/-- The first event after which the level is as wanted. -/
lemma findFirst (h : a.Represents t) (start : Event) (threshold : α) (wanted : Wanted) :
    a.findFirst start threshold wanted = .ok (t.findFirst start threshold wanted 0) := by
  unfold EventArena.findFirst
  rw [h.root]
  exact h.laid.findFirstIn start threshold wanted 0 (h.laid.length_le h.distinct)

omit [Scalar α] in
/-- The events in order. -/
lemma events (h : a.Represents t) : a.events = .ok (t.toList.map Change.event) := by
  have short := h.laid.length_le h.distinct
  obtain ⟨stack, pushed, stacked⟩ := h.laid.pushLeft short short .nil
  unfold EventArena.events
  rw [h.root, pushed, ok_bind]
  rw [List.append_nil] at stacked
  refine stacked.walk ?_
  rwa [EventTree.slots, List.length_map, ← List.length_map Change.event] at short

/-- Arenas of one tree answer all questions in the same way. -/
lemma same_answers {b : EventArena α} (h : a.Represents t) (h' : b.Represents t) :
    a.levelBefore = b.levelBefore ∧ a.highest = b.highest ∧ a.findFirst = b.findFirst ∧
      a.events = b.events := by
  refine ⟨?_, ?_, ?_, h.events.trans h'.events.symm⟩
  · funext e
    rw [h.levelBefore, h'.levelBefore]
  · funext lo hi
    rw [h.highest, h'.highest]
  · funext start threshold wanted
    rw [h.findFirst, h'.findFirst]

end Represents

end EventArena

end Leveling
