import Leveling.Problem
import Leveling.Slots

/-!
# Precedence networks

A network holds the arcs between the jobs twice: with their sources and with their targets.
An arc that stands in slot `i` of its source's list knows the slot of its counterpart in the
target's list, and the counterpart knows `i`.  Both lists are compacted by moving the last
entry into a slot that became free, and the counterpart of the moved entry is told its new
slot in the same step.

Arcs are named from outside by handles.  A handle is valid until the network changes, which
the network's generation shows.
-/

namespace Leveling

/-- An arc as its source's list holds it. -/
structure Arc where
  target : Nat
  /-- The slot of the counterpart in the list of the target. -/
  backSlot : Nat
  /-- The least distance from the start of the source to the start of the target. -/
  lag : Int
  /-- Whether the arc belongs to the instance; such arcs are never deleted. -/
  permanent : Bool
  /-- Whether a running deletion search counts the arc as deleted. -/
  marked : Bool
  /-- Whether a running deletion search has looked behind the arc. -/
  seen : Bool
deriving DecidableEq, Inhabited

/-- The counterpart of an arc in the list of its target. -/
structure BackArc where
  source : Nat
  /-- The slot of the arc in the list of the source. -/
  slot : Nat
deriving DecidableEq, Inhabited

/-- A handle of the arc in slot `slot` of a source's list. -/
structure ArcRef where
  source : Nat
  slot : Nat
  /-- The generation of the network when the handle was taken. -/
  generation : Nat
deriving DecidableEq, Inhabited

/-- The arcs between jobs, by source and by target. -/
structure Network where
  outgoing : Array (Array Arc)
  incoming : Array (Array BackArc)
  arcCount : Nat
  /-- The number of changes so far. -/
  generation : Nat
deriving DecidableEq, Inhabited

namespace Network

/-- The network of `jobs` jobs without arcs. -/
def empty (jobs : Nat) : Network :=
  { outgoing := .replicate jobs #[], incoming := .replicate jobs #[], arcCount := 0,
    generation := 0 }

/-- The number of jobs. -/
def numJobs (net : Network) : Nat := net.outgoing.size

/-- Adds an arc behind the last ones of its source and its target. -/
def insert (net : Network) (source target : Nat) (lag : Int) (permanent : Bool) :
    Checked Network := do
  let slot := (← fetch net.outgoing source).size
  let backSlot := (← fetch net.incoming target).size
  let arc := { target, backSlot, lag, permanent, marked := false, seen := false : Arc }
  let incoming ← adjust net.incoming target fun list => .ok (list.push ⟨source, slot⟩)
  let outgoing ← adjust net.outgoing source fun list => .ok (list.push arc)
  return { outgoing, incoming, arcCount := net.arcCount + 1, generation := net.generation + 1 }

/-- The network of the precedences of an instance. -/
def ofProblem {α : Type} (p : Problem α) : Checked Network :=
  p.precedences.foldlM (fun net q => net.insert q.source q.target q.lag true)
    (empty p.jobs.size)

/-! ## Handles -/

/-- The handle of the arc in slot `slot` of a source's list. -/
def refOut (net : Network) (source : Nat) (slot : Nat) : Checked ArcRef := do
  let list ← fetch net.outgoing source
  if slot < list.size then return ⟨source, slot, net.generation⟩ else throw .assertionFailed

/-- The handle of the arc whose counterpart is in slot `slot` of a target's list. -/
def refIn (net : Network) (target : Nat) (slot : Nat) : Checked ArcRef := do
  let back ← fetch (← fetch net.incoming target) slot
  net.refOut back.source back.slot

/-- Stops unless a handle is of the present generation. -/
def checkFresh (net : Network) (ref : ArcRef) : Checked Unit :=
  if ref.generation = net.generation then .ok () else .error .staleHandle

/-- The arc that a handle names. -/
def arc (net : Network) (ref : ArcRef) : Checked Arc := do
  net.checkFresh ref
  fetch (← fetch net.outgoing ref.source) ref.slot

/-- The network with the arc that a handle names changed by `f`.  The structure stays the same, so
handles stay valid. -/
def adjustArc (net : Network) (ref : ArcRef) (f : Arc → Arc) : Checked Network := do
  net.checkFresh ref
  let outgoing ← adjust net.outgoing ref.source fun list =>
    adjust list ref.slot fun a => .ok (f a)
  return { net with outgoing }

/-! ## Deletion

All arcs of a set are taken out in one pass over the sources' lists and one over the targets'
lists.  In each list the highest slot goes first, so the entry that moves into a vacated slot
is never one that is still to go. -/

/-- A slot of the list of a job. -/
abbrev Place := Nat × Nat

/-- The places in the order of deletion: by job, in each list from the highest slot down. -/
def Place.comesBefore (p q : Place) : Bool := p.1 < q.1 || (p.1 == q.1 && q.2 ≤ p.2)

/-- The places in the order of deletion, without repetitions. -/
def deletionOrder (places : List Place) : List Place :=
  firstOfRuns (· == ·) (places.mergeSort Place.comesBefore)

/-- The places of an arc that may be deleted: among the arcs of its source and among those of its
target. -/
def placesOf (net : Network) (ref : ArcRef) : Checked (Place × Place) := do
  let arc ← net.arc ref
  if arc.permanent then throw .assertionFailed
  return ((ref.source, ref.slot), (arc.target, arc.backSlot))

/-- Takes an arc out of its source's list. -/
def removeOutgoing (net : Network) (place : Place) : Checked Network := do
  let list ← fetch net.outgoing place.1
  unless place.2 < list.size do throw .indexOutOfBounds
  let list := swapRemove list place.2
  let outgoing ← store net.outgoing place.1 list
  match list[place.2]? with
  | none => return { net with outgoing }
  | some moved =>
    let incoming ← adjust net.incoming moved.target fun backs =>
      adjust backs moved.backSlot fun back => .ok { back with slot := place.2 }
    return { net with outgoing, incoming }

/-- Takes the counterpart of an arc out of its target's list. -/
def removeIncoming (net : Network) (place : Place) : Checked Network := do
  let list ← fetch net.incoming place.1
  unless place.2 < list.size do throw .indexOutOfBounds
  let list := swapRemove list place.2
  let incoming ← store net.incoming place.1 list
  match list[place.2]? with
  | none => return { net with incoming }
  | some moved =>
    let outgoing ← adjust net.outgoing moved.source fun arcs =>
      adjust arcs moved.slot fun arc => .ok { arc with backSlot := place.2 }
    return { net with incoming, outgoing }

/-- Deletes the arcs that the handles name.  A handle that occurs twice counts once, and an empty
list changes nothing, the generation included. -/
def delete (net : Network) (refs : List ArcRef) : Checked Network := do
  if refs.isEmpty then return net
  let places ← refs.mapM net.placesOf
  let sources := deletionOrder (places.map Prod.fst)
  let targets := deletionOrder (places.map Prod.snd)
  let cut ← sources.foldlM removeOutgoing net
  let cut ← targets.foldlM removeIncoming cut
  let arcCount ← subCount net.arcCount sources.length
  return { cut with arcCount, generation := net.generation + 1 }

/-- The lists of `own`, overwritten by those of `base` as far as it has any. -/
def overwrite {β : Type} (own base : Array (Array β)) : Array (Array β) :=
  own.mapIdx fun v list => base.getD v list

/-- The network with the arcs of `base`. -/
def restore (net base : Network) : Network :=
  { outgoing := overwrite net.outgoing base.outgoing
    incoming := overwrite net.incoming base.incoming
    arcCount := base.arcCount
    generation := net.generation + 1 }

/-! ## Views -/

/-- All arcs with their sources, by source and slot. -/
def arcs (net : Network) : List (Nat × Arc) :=
  net.outgoing.toList.zipIdx.flatMap fun (list, source) =>
    list.toList.map fun arc => (source, arc)

/-- The neighbours to which a bound of the given side travels from a job, with the lags of the
arcs: over the outgoing arcs for the early side, over the incoming ones for the late side. -/
def onward (net : Network) (side : Side) (v : Nat) : Checked (List (Nat × Arc)) :=
  match side with
  | .early => do
    return (← fetch net.outgoing v).toList.map fun arc => (arc.target, arc)
  | .late => do
    (← fetch net.incoming v).toList.mapM fun back => do
      return (back.source, ← fetch (← fetch net.outgoing back.source) back.slot)

/-- The neighbours from which a bound of the given side travels to a job, with the arcs between. -/
def backward (net : Network) : Side → Nat → Checked (List (Nat × Arc))
  | .early => net.onward .late
  | .late => net.onward .early

end Network

end Leveling
