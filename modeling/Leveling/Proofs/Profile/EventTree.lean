import Leveling.Profile.Arena
import Mathlib.Tactic.Common

/-!
# Trees of events

The nodes that the links of an arena lead to form a tree.  Here trees are terms, which are split,
merged and searched along their constructors.  A tree knows for each node the change and the summary;
the slot and the priority of a node follow from the event of its change.
-/

namespace Leveling

variable {α : Type} [Scalar α]

omit [Scalar α] in
/-- The priority of the node of a change. -/
def Change.priority (c : Change α) : UInt64 := scramble c.event.slot.toUInt64

/-- A search tree of changes. -/
inductive EventTree (α : Type) where
  | leaf
  | node (change : Change α) (summary : Summary α) (left right : EventTree α)

namespace EventTree

/-- What the root knows. -/
def summary? : EventTree α → Option (Summary α)
  | .leaf => none
  | .node _ summary _ _ => some summary

/-- The sum of all changes. -/
def sum (t : EventTree α) : α := Summary.sumOf t.summary?

/-- The tree of a node over two subtrees. -/
def join (change : Change α) (left right : EventTree α) : EventTree α :=
  .node change (.over change left.summary? right.summary?) left right

/-- The tree of one change. -/
def single (change : Change α) : EventTree α := join change .leaf .leaf

/-- The tree of the events that satisfy `below`, and the tree of the others.  The events that
satisfy it are the first ones of the tree. -/
def split (below : Event → Bool) : EventTree α → EventTree α × EventTree α
  | .leaf => (.leaf, .leaf)
  | .node change _ left right =>
    if below change.event then
      let (l, r) := split below right
      (join change left l, r)
    else
      let (l, r) := split below left
      (l, join change r right)

/-- The tree of the events of a node and of a tree of later events; `mergeRight` merges the right
subtree of the node with a tree of later events. -/
def mergeNode (change : Change α) (summary : Summary α) (left right : EventTree α)
    (mergeRight : EventTree α → EventTree α) : EventTree α → EventTree α
  | .leaf => .node change summary left right
  | .node d t l r =>
    if d.priority < change.priority then join change left (mergeRight (.node d t l r))
    else join d (mergeNode change summary left right mergeRight l) r

/-- The tree of the events of two trees, of which the first one holds the earlier events. -/
def merge : EventTree α → EventTree α → EventTree α
  | .leaf, b => b
  | .node change summary left right, b => mergeNode change summary left right right.merge b

/-- A merge puts the root of the first tree above if it has the higher priority. -/
lemma merge_of_higher {c d : Change α} (higher : d.priority < c.priority) (s t : Summary α)
    (l r l' r' : EventTree α) : (node c s l r).merge (node d t l' r') =
      join c l (r.merge (node d t l' r')) := if_pos higher

/-- Otherwise a merge puts the root of the second tree above. -/
lemma merge_of_lower {c d : Change α} (lower : ¬d.priority < c.priority) (s t : Summary α)
    (l r l' r' : EventTree α) : (node c s l r).merge (node d t l' r') =
      join d ((node c s l r).merge l') r' := if_neg lower

/-- A node is merged with an empty tree. -/
lemma merge_leaf (t : EventTree α) : t.merge .leaf = t := by
  cases t <;> rfl

omit [Scalar α] in
/-- What holds of two trees if it holds of those that are merged on the way. -/
@[elab_as_elim]
lemma merge_induct {motive : EventTree α → EventTree α → Prop} (first : ∀ b, motive .leaf b)
    (last : ∀ c s l r, motive (.node c s l r) .leaf)
    (higher : ∀ c s l r d t l' r', d.priority < c.priority → motive r (.node d t l' r') →
      motive (.node c s l r) (.node d t l' r'))
    (lower : ∀ c s l r d t l' r', ¬d.priority < c.priority → motive (.node c s l r) l' →
      motive (.node c s l r) (.node d t l' r')) (a b : EventTree α) : motive a b := by
  induction a generalizing b with
  | leaf => exact first b
  | node c s l r _ ihr =>
    induction b with
    | leaf => exact last c s l r
    | node d t l' r' ihl _ =>
      by_cases above : d.priority < c.priority
      · exact higher c s l r d t l' r' above (ihr _)
      · exact lower c s l r d t l' r' above ihl

/-- The tree with one more change. -/
def insert (t : EventTree α) (change : Change α) : EventTree α :=
  let (less, rest) := t.split fun e => e < change.event
  (less.merge (single change)).merge rest

/-- The tree without an event. -/
def erase (t : EventTree α) (event : Event) : EventTree α :=
  let (less, rest) := t.split fun e => e < event
  let (_, greater) := rest.split fun e => e ≤ event
  less.merge greater

/-- The changes in the order of their events. -/
def toList : EventTree α → List (Change α)
  | .leaf => []
  | .node change _ left right => left.toList ++ change :: right.toList

/-! ## Levels -/

/-- The level before an event, which need not be in the tree; `level` is the level before the
tree. -/
def levelBefore (event : Event) (level : α) : EventTree α → α
  | .leaf => level
  | .node change _ left right =>
    if change.event < event then
      levelBefore event (level + (left.sum + change.amount)) right
    else levelBefore event level left

/-- The highest level after an event from `lo` on and before `hi`, if there is such an event;
`level` is the level before the tree. -/
def highest (lo hi : Event) (level : α) : EventTree α → Option α
  | .leaf => none
  | .node change s left right =>
    if s.last < lo ∨ hi ≤ s.first then none
    else if lo ≤ s.first ∧ s.last < hi then some (level + s.high)
    else
      let best := highest lo hi level left
      let own := level + left.sum + change.amount
      let best := if lo ≤ change.event ∧ change.event < hi then some (Scalar.maxWith best own)
        else best
      Scalar.maxOption best (highest lo hi own right)

/-- The first event from `start` on after which the level is as wanted; `level` is the level before
the tree. -/
def findFirst (start : Event) (threshold : α) (wanted : Wanted) (level : α) :
    EventTree α → Option Event
  | .leaf => none
  | .node change s left right =>
    if s.last < start then none
    else if start ≤ s.first ∧ wanted.isHopeless threshold level s then none
    else
      match findFirst start threshold wanted level left with
      | some event => some event
      | none =>
        let own := level + left.sum + change.amount
        if start ≤ change.event ∧ wanted.holds threshold own then some change.event
        else findFirst start threshold wanted own right

end EventTree

end Leveling
