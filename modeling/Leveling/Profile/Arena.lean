import Leveling.Profile.Event

/-!
# Event trees

An event tree is a search tree of events with the change of the demand level at each of them.
The level after an event is the sum of all changes up to it.  Each node knows the sum of its
subtree, the highest and the lowest level inside it (counted from zero before its first
event) and the first and the last event, so that the questions below pass over whole subtrees.

The nodes lie in an arena, each event in the slot of its job and its kind, and a tree is the link to
its root.  Trees are split and merged by setting links.  A node that is taken out stays in its
slot with what it held last, until the event of the slot is put in again.

The shape of the tree is fixed by priorities: a node has a higher priority than the nodes
below it.  The priority of a node depends on its slot alone, so the shape depends on the events in
the tree and not on the order in which they came.

A walk through a tree takes at most as many steps as there are slots; `steps` counts down what is
left of them.
-/

namespace Leveling

variable {α : Type} [Scalar α]

/-- An event with its change of the level. -/
structure Change (α : Type) where
  event : Event
  amount : α

/-- What a node knows about its subtree. -/
structure Summary (α : Type) where
  sum : α
  /-- The highest level after an event. -/
  high : α
  /-- The lowest level after an event. -/
  low : α
  first : Event
  last : Event

/-- The sum of all changes of a subtree that may be empty. -/
def Summary.sumOf (summary? : Option (Summary α)) : α :=
  match summary? with
  | none => 0
  | some s => s.sum

/-- The summary of a node over those of its subtrees. -/
def Summary.over (change : Change α) (left? right? : Option (Summary α)) : Summary α :=
  let own := Summary.sumOf left? + change.amount
  let high := Scalar.maxWith (left?.map Summary.high) own
  let low := Scalar.minWith (left?.map Summary.low) own
  let first := (left?.map Summary.first).getD change.event
  match right? with
  | none => { sum := own, high, low, first, last := change.event }
  | some r =>
    { sum := own + r.sum, high := max high (own + r.high), low := min low (own + r.low), first,
      last := r.last }

/-- A bijective scrambling of 64-bit numbers. -/
def scramble (x : UInt64) : UInt64 :=
  let x := x + 0x9e3779b97f4a7c15
  let x := (x ^^^ (x >>> 30)) * 0xbf58476d1ce4e5b9
  let x := (x ^^^ (x >>> 27)) * 0x94d049bb133111eb
  x ^^^ (x >>> 31)

/-- A node.  Its links name the slots of its children. -/
structure Node (α : Type) where
  change : Change α
  priority : UInt64
  left : Option Nat
  right : Option Nat
  summary : Summary α

/-- The node that lies in a slot before its event is put in. -/
def Node.blank (slot : Nat) : Node α where
  change := ⟨.first 0, 0⟩
  priority := scramble slot.toUInt64
  left := none
  right := none
  summary := { sum := 0, high := 0, low := 0, first := .first 0, last := .first 0 }

/-- What is asked of a level: to reach a threshold, or to stay below it. -/
inductive Wanted where
  | reaching
  | below

/-- Whether a level is as wanted. -/
def Wanted.holds (threshold level : α) : Wanted → Bool
  | .reaching => threshold ≤ level
  | .below => level < threshold

/-- Whether no level in a subtree can be as wanted; `level` is the level before the subtree. -/
def Wanted.isHopeless (threshold level : α) (s : Summary α) : Wanted → Bool
  | .reaching => level + s.high < threshold
  | .below => threshold ≤ level + s.low

/-- The nodes, and the link to the root of the tree. -/
structure EventArena (α : Type) where
  nodes : Array (Node α)
  root : Option Nat

namespace EventArena

/-- The arena of an empty tree. -/
def empty (slots : Nat) : EventArena α where
  nodes := Array.ofFn fun slot : Fin slots => .blank slot
  root := none

/-! ## Updates -/

/-- What the root of a subtree knows. -/
def summaryAt (nodes : Array (Node α)) (link : Option Nat) : Checked (Option (Summary α)) :=
  match link with
  | none => .ok none
  | some slot => do return some (← fetch nodes slot).summary

/-- Lets a node know what its children know. -/
def pull (nodes : Array (Node α)) (slot : Nat) : Checked (Array (Node α)) := do
  let node ← fetch nodes slot
  let left? ← summaryAt nodes node.left
  let right? ← summaryAt nodes node.right
  store nodes slot { node with summary := .over node.change left? right? }

/-- Sets the left link of a node. -/
def setLeft (nodes : Array (Node α)) (slot : Nat) (link : Option Nat) :
    Checked (Array (Node α)) := do
  pull (← adjust nodes slot fun node => .ok { node with left := link }) slot

/-- Sets the right link of a node. -/
def setRight (nodes : Array (Node α)) (slot : Nat) (link : Option Nat) :
    Checked (Array (Node α)) := do
  pull (← adjust nodes slot fun node => .ok { node with right := link }) slot

/-- Puts a change into its slot, as a tree of its own. -/
def plant (nodes : Array (Node α)) (change : Change α) : Checked (Array (Node α)) := do
  let slot := change.event.slot
  pull (← adjust nodes slot fun node => .ok { node with change, left := none, right := none }) slot

/-- Splits a tree into the events that satisfy `below`, which are the first ones of the tree, and the
others. -/
def split (below : Event → Bool) :
    Nat → Array (Node α) → Option Nat → Checked (Array (Node α) × Option Nat × Option Nat)
  | _, nodes, none => .ok (nodes, none, none)
  | 0, _, some _ => .error .unsettled
  | steps + 1, nodes, some slot => do
    let node ← fetch nodes slot
    if below node.change.event then
      let (nodes, l, r) ← split below steps nodes node.right
      return (← setRight nodes slot l, some slot, r)
    else
      let (nodes, l, r) ← split below steps nodes node.left
      return (← setLeft nodes slot r, l, some slot)

/-- Merges two trees, of which the first one holds the earlier events. -/
def merge : Nat → Array (Node α) → Option Nat → Option Nat → Checked (Array (Node α) × Option Nat)
  | _, nodes, none, b => .ok (nodes, b)
  | _, nodes, a, none => .ok (nodes, a)
  | 0, _, some _, some _ => .error .unsettled
  | steps + 1, nodes, some a, some b => do
    let node ← fetch nodes a
    let other ← fetch nodes b
    if other.priority < node.priority then
      let (nodes, r) ← merge steps nodes node.right (some b)
      return (← setRight nodes a r, some a)
    else
      let (nodes, l) ← merge steps nodes (some a) other.left
      return (← setLeft nodes b l, some b)

/-- Puts a change into the tree. -/
def insert (a : EventArena α) (change : Change α) : Checked (EventArena α) := do
  let steps := a.nodes.size
  let nodes ← plant a.nodes change
  let (nodes, less, rest) ← split (fun e => e < change.event) steps nodes a.root
  let (nodes, joined) ← merge steps nodes less (some change.event.slot)
  let (nodes, root) ← merge steps nodes joined rest
  return { nodes, root }

/-- Takes an event out of the tree. -/
def erase (a : EventArena α) (event : Event) : Checked (EventArena α) := do
  let steps := a.nodes.size
  let (nodes, less, rest) ← split (fun e => e < event) steps a.nodes a.root
  let (nodes, _, greater) ← split (fun e => e ≤ event) steps nodes rest
  let (nodes, root) ← merge steps nodes less greater
  return { nodes, root }

/-! ## Levels -/

/-- The level before an event in a subtree, which need not hold it; `level` is the level before the
subtree. -/
def levelBeforeIn (nodes : Array (Node α)) (event : Event) : Nat → Option Nat → α → Checked α
  | _, none, level => .ok level
  | 0, some _, _ => .error .unsettled
  | steps + 1, some slot, level => do
    let node ← fetch nodes slot
    if node.change.event < event then
      let sum := Summary.sumOf (← summaryAt nodes node.left)
      levelBeforeIn nodes event steps node.right (level + (sum + node.change.amount))
    else levelBeforeIn nodes event steps node.left level

/-- The level before an event, which need not be in the tree. -/
def levelBefore (a : EventArena α) (event : Event) : Checked α :=
  levelBeforeIn a.nodes event a.nodes.size a.root 0

/-- The highest level in a subtree after an event from `lo` on and before `hi`, if there is such an
event; `level` is the level before the subtree. -/
def highestIn (nodes : Array (Node α)) (lo hi : Event) :
    Nat → Option Nat → α → Checked (Option α)
  | _, none, _ => .ok none
  | 0, some _, _ => .error .unsettled
  | steps + 1, some slot, level => do
    let node ← fetch nodes slot
    let s := node.summary
    if s.last < lo ∨ hi ≤ s.first then return none
    if lo ≤ s.first ∧ s.last < hi then return some (level + s.high)
    let best ← highestIn nodes lo hi steps node.left level
    let own := level + Summary.sumOf (← summaryAt nodes node.left) + node.change.amount
    let best := if lo ≤ node.change.event ∧ node.change.event < hi then
      some (Scalar.maxWith best own) else best
    return Scalar.maxOption best (← highestIn nodes lo hi steps node.right own)

/-- The highest level after an event from `lo` on and before `hi`, if there is such an event. -/
def highest (a : EventArena α) (lo hi : Event) : Checked (Option α) :=
  highestIn a.nodes lo hi a.nodes.size a.root 0

/-- The first event of a subtree from `start` on after which the level is as wanted; `level` is the
level before the subtree. -/
def findFirstIn (nodes : Array (Node α)) (start : Event) (threshold : α) (wanted : Wanted) :
    Nat → Option Nat → α → Checked (Option Event)
  | _, none, _ => .ok none
  | 0, some _, _ => .error .unsettled
  | steps + 1, some slot, level => do
    let node ← fetch nodes slot
    let s := node.summary
    if s.last < start then return none
    if start ≤ s.first ∧ wanted.isHopeless threshold level s then return none
    match ← findFirstIn nodes start threshold wanted steps node.left level with
    | some event => return some event
    | none =>
      let own := level + Summary.sumOf (← summaryAt nodes node.left) + node.change.amount
      if start ≤ node.change.event ∧ wanted.holds threshold own then
        return some node.change.event
      findFirstIn nodes start threshold wanted steps node.right own

/-- The first event from `start` on after which the level is as wanted. -/
def findFirst (a : EventArena α) (start : Event) (threshold : α) (wanted : Wanted) :
    Checked (Option Event) :=
  findFirstIn a.nodes start threshold wanted a.nodes.size a.root 0

/-! ## Walks -/

/-- The slots of a subtree down to the first event, the last one in front, before those of `stack`. -/
def pushLeft (nodes : Array (Node α)) : Nat → Option Nat → List Nat → Checked (List Nat)
  | _, none, stack => .ok stack
  | 0, some _, _ => .error .unsettled
  | steps + 1, some slot, stack => do
    pushLeft nodes steps (← fetch nodes slot).left (slot :: stack)

/-- The events of the nodes on the stack and of the subtrees to their right. -/
def walk (nodes : Array (Node α)) : Nat → List Nat → Checked (List Event)
  | _, [] => .ok []
  | 0, _ :: _ => .error .unsettled
  | steps + 1, slot :: stack => do
    let node ← fetch nodes slot
    let stack ← pushLeft nodes nodes.size node.right stack
    return node.change.event :: (← walk nodes steps stack)

/-- The events in order. -/
def events (a : EventArena α) : Checked (List Event) := do
  walk a.nodes a.nodes.size (← pushLeft a.nodes a.nodes.size a.root [])

/-- The event that is found is not before the start of the search. -/
theorem le_of_findFirstIn {nodes : Array (Node α)} {start : Event} {threshold : α} {wanted : Wanted}
    {e : Event} : ∀ {steps : Nat} {link : Option Nat} {level : α},
      findFirstIn nodes start threshold wanted steps link level = .ok (some e) → start ≤ e := by
  intro steps
  induction steps with
  | zero =>
    intro link level h
    cases link <;> cases h
  | succ steps ih =>
    intro link level h
    cases link with
    | none => cases h
    | some slot =>
      unfold findFirstIn at h
      obtain ⟨node, -, h⟩ := Checked.bind_eq_ok.1 h
      dsimp only at h
      split at h
      · cases h
      split at h
      · cases h
      obtain ⟨found, inLeft, h⟩ := Checked.bind_eq_ok.1 h
      cases found with
      | some event =>
        cases h
        exact ih inLeft
      | none =>
        obtain ⟨left?, -, h⟩ := Checked.bind_eq_ok.1 h
        split at h
        · rename_i here
          cases h
          exact here.1
        · exact ih h

end EventArena

end Leveling
