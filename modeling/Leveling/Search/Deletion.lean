import Leveling.Bounds.Basic

/-!
# The deletion search

When no candidate fits, arcs have to go.  For a *root* job and a side the search looks for arcs
whose deletion relaxes the root's bound of that side: arcs that the search had inserted, a
bounded number of arcs away from the root.

The search is breadth first and works with tentative deletions, which are marks on the arcs.
At first all deletable arcs at the root are marked.  A step takes the next arc from the queue,
keeps it, and marks the deletable arcs one level further out instead; the arcs of the
instance, which cannot be deleted, come first, so that the search gets around them early.
After each step the bounds of the visited jobs are computed anew without the marked arcs.

On the early side the search wants to move the root by an amount as well as it can: a set of
arcs costs one for each arc and a penalty for each time step that it falls short.  On the
late side it has to reach the amount, with as few arcs as it can.

All marks are cleared when a search ends.
-/

namespace Leveling

/-- A set of arcs, and how far the bound of the root moves once they are deleted. -/
structure DeletionPlan where
  arcs : List ArcRef
  achieved : Int
deriving DecidableEq, Inhabited

/-- The plan to delete nothing. -/
def DeletionPlan.none : DeletionPlan := ⟨[], 0⟩

/-- The state of a search.  It can be used for one search after the other. -/
structure DeletionSearch where
  /-- Arcs so many levels away from the root are not kept any more. -/
  maxDepth : Nat
  /-- The cost of each time step that a plan for the early side falls short. -/
  penalty : Nat
  /-- The bounds of the visited jobs. -/
  current : Array Int
  visited : Array Bool
  /-- The jobs whose arcs were put on the queue. -/
  expanded : Array Bool
  /-- The visited jobs, the latest first. -/
  touched : List Nat
  /-- The arcs that wait, with their levels. -/
  queue : List (ArcRef × Nat)
  /-- The marked arcs that were taken from the queue and stay marked. -/
  pruned : List ArcRef
  seenArcs : List ArcRef
  /-- The number of marked arcs. -/
  removed : Nat
deriving DecidableEq, Inhabited

/-- The end of an arc that is further away from the root. -/
def Side.farEnd (side : Side) (ref : ArcRef) (arc : Arc) : Nat :=
  match side with
  | .early => ref.source
  | .late => arc.target

/-- The end of an arc that is nearer to the root. -/
def Side.nearEnd (side : Side) (ref : ArcRef) (arc : Arc) : Nat :=
  match side with
  | .early => arc.target
  | .late => ref.source

/-- Handles of the arcs over which a bound of the given side travels to a job. -/
def Network.refsTo (net : Network) (side : Side) (v : Nat) : Checked (List ArcRef) :=
  match side with
  | .early => do (List.range (← fetch net.incoming v).size).mapM (net.refIn v)
  | .late => do (List.range (← fetch net.outgoing v).size).mapM (net.refOut v)

/-- The number of entries in the lists of outgoing arcs. -/
def Network.size (net : Network) : Nat := net.outgoing.foldl (fun n list => n + list.size) 0

/-- An upper bound for the number of walks from a job in an acyclic network, and therefore for the
number of times that bounds are computed anew after a change of one of them. -/
def Network.walkBound (net : Network) : Nat := Nat.pow (net.size + 1) net.numJobs

namespace DeletionSearch

/-- The state before the first search. -/
def empty (jobs maxDepth penalty : Nat) : DeletionSearch :=
  { maxDepth, penalty, current := .replicate jobs 0, visited := .replicate jobs false,
    expanded := .replicate jobs false, touched := [], queue := [], pruned := [], seenArcs := [],
    removed := 0 }

/-- Gives a job its first bound, unless it was visited already. -/
def visit (s : DeletionSearch) (job : Nat) (bound : Int) : Checked DeletionSearch := do
  if ← fetch s.visited job then return s else
    let visited ← store s.visited job true
    let current ← store s.current job bound
    return { s with visited, current, touched := job :: s.touched }

/-- Forgets the last search and visits the root. -/
def start (s : DeletionSearch) (root : Nat) (bound : Int) : Checked DeletionSearch := do
  let visited ← s.touched.foldlM (fun xs v => store xs v false) s.visited
  let expanded ← s.touched.foldlM (fun xs v => store xs v false) s.expanded
  { s with visited, expanded, touched := [], queue := [], pruned := [], seenArcs := [],
           removed := 0 }.visit root bound

/-! ## Bounds without the marked arcs -/

/-- The bound of a job in the search. -/
def boundOf (s : DeletionSearch) (b : Bounds) (side : Side) (v : Nat) : Checked Int := do
  if ← fetch s.visited v then fetch s.current v else fetch (b.table side).value v

/-- The tightest of `bound` and of what the bounds of the listed neighbours imply for job `v` over
those arcs that are not marked. -/
def implied (s : DeletionSearch) (b : Bounds) (side : Side) (v : Nat) :
    List (Nat × Arc) → Int → Checked Int
  | [], bound => .ok bound
  | (u, arc) :: rest, bound =>
    if arc.marked then implied s b side v rest bound
    else do
      let start ← side.origin b.durations u (← s.boundOf b side u)
      let carried ← side.carry b.durations start arc.lag v
      implied s b side v rest (side.tighter bound carried)

/-- The listed jobs that were visited. -/
def onlyVisited (s : DeletionSearch) : List Nat → Checked (List Nat)
  | [] => .ok []
  | v :: rest => do
    let known ← fetch s.visited v
    let others ← onlyVisited s rest
    return if known then v :: others else others

/-- Computes the bounds of the waiting jobs anew, and then those of all visited jobs that depend on
a bound that changed.  At most `fuel` bounds are computed. -/
def settle (s : DeletionSearch) (net : Network) (b : Bounds) (side : Side) :
    (fuel : Nat) → (waiting : List Nat) → Checked DeletionSearch
  | _, [] => .ok s
  | 0, _ :: _ => .error .unsettled
  | fuel + 1, v :: rest => do
    let neighbours ← net.backward side v
    let bound ← s.implied b side v neighbours (← fetch (b.table side).base v)
    if bound = (← fetch s.current v) then settle s net b side fuel rest else
      let current ← store s.current v bound
      let onward ← net.onward side v
      let next ← s.onlyVisited (onward.map Prod.fst)
      settle { s with current } net b side fuel (rest ++ next)

/-- Computes the bound of a job anew, and those that depend on it. -/
def update (s : DeletionSearch) (net : Network) (b : Bounds) (side : Side) (v : Nat) :
    Checked DeletionSearch :=
  s.settle net b side net.walkBound [v]

/-! ## Steps -/

/-- Puts an arc on the queue, and marks it if it can be deleted. -/
def enqueue (b : Bounds) (side : Side) (depth : Nat) (s : DeletionSearch) (net : Network)
    (ref : ArcRef) : Checked (DeletionSearch × Network) := do
  let arc ← net.arc ref
  let far := side.farEnd ref arc
  let s ← s.visit far (← fetch (b.table side).value far)
  if arc.permanent then return ({ s with queue := (ref, depth) :: s.queue }, net)
  else
    let net ← net.adjustArc ref fun a => { a with marked := true }
    return ({ s with queue := s.queue ++ [(ref, depth)], removed := s.removed + 1 }, net)

/-- Puts the arcs one level further out from a job on the queue. -/
def expand (s : DeletionSearch) (net : Network) (b : Bounds) (side : Side) (v depth : Nat) :
    Checked (DeletionSearch × Network) := do
  let expanded ← store s.expanded v true
  let refs ← net.refsTo side v
  refs.foldlM (fun (s, net) ref => s.enqueue b side depth net ref) ({ s with expanded }, net)

/-- Takes arcs from the queue up to the first one that is neither too far out nor seen before.  The
marked ones among the others are pruned. -/
def nextArc (net : Network) (maxDepth : Nat) (pruned : List ArcRef) :
    List (ArcRef × Nat) →
      Checked (List ArcRef × Option (ArcRef × Nat × Arc) × List (ArcRef × Nat))
  | [] => .ok (pruned, none, [])
  | (ref, depth) :: rest => do
    let arc ← net.arc ref
    if maxDepth ≤ depth ∨ arc.seen then
      nextArc net maxDepth (if arc.marked then pruned ++ [ref] else pruned) rest
    else return (pruned, some (ref, depth, arc), rest)

/-- Keeps the arc of a step if it was marked. -/
def keep (s : DeletionSearch) (net : Network) (b : Bounds) (side : Side) (ref : ArcRef)
    (arc : Arc) : Checked (DeletionSearch × Network) := do
  if arc.marked then
    let net ← net.adjustArc ref fun a => { a with marked := false }
    let removed ← subCount s.removed 1
    let s ← { s with removed }.update net b side (side.nearEnd ref arc)
    return (s, net)
  else return (s, net)

/-- A step of the search; nothing if the queue holds no arc to look at any more. -/
def step (s : DeletionSearch) (net : Network) (b : Bounds) (side : Side) :
    Checked (DeletionSearch × Option Network) := do
  let (pruned, found, queue) ← nextArc net s.maxDepth s.pruned s.queue
  let s := { s with pruned, queue }
  match found with
  | none => return (s, none)
  | some (ref, depth, arc) =>
    let net ← net.adjustArc ref fun a => { a with seen := true }
    let (s, net) ← { s with seenArcs := s.seenArcs ++ [ref] }.keep net b side ref arc
    let far := side.farEnd ref arc
    let (s, net) ←
      if ← fetch s.expanded far then pure (s, net) else s.expand net b side far (depth + 1)
    return (← s.update net b side far, some net)

/-! ## Plans -/

/-- How far the bound of the root has moved. -/
def moved (s : DeletionSearch) (b : Bounds) (side : Side) (root : Nat) : Checked Int := do
  let stored ← fetch (b.table side).value root
  let current ← fetch s.current root
  match side with
  | .early => return max (← subTime stored current) 0
  | .late => return max (← subTime current stored) 0

/-- The cost of a set of arcs that was to achieve `amount`. -/
def score (s : DeletionSearch) (amount achieved : Int) : Checked Nat := do
  let shortfall ← subTime amount achieved
  let fine ← asCount (s.penalty * shortfall.toNat)
  asCount (s.removed + fine)

/-- The marked ones of the listed arcs. -/
def onlyMarked (net : Network) : List ArcRef → Checked (List ArcRef)
  | [] => .ok []
  | ref :: rest => do
    let arc ← net.arc ref
    let others ← onlyMarked net rest
    return if arc.marked then ref :: others else others

/-- The marked arcs: they are among the pruned and the waiting ones. -/
def markedArcs (s : DeletionSearch) (net : Network) : Checked (List ArcRef) :=
  onlyMarked net (s.pruned ++ s.queue.map Prod.fst)

/-- The plan to delete the marked arcs. -/
def plan (s : DeletionSearch) (net : Network) (achieved : Int) : Checked DeletionPlan := do
  return ⟨← s.markedArcs net, achieved⟩

/-- A plan of the early side with its cost: the present one if it costs less than the best. -/
def considerEarly (b : Bounds) (root : Nat) (amount : Int) (s : DeletionSearch) (net : Network)
    (best : Option (Nat × DeletionPlan)) : Checked (Option (Nat × DeletionPlan)) := do
  let achieved ← s.moved b .early root
  let score ← s.score amount achieved
  match best with
  | some (least, _) =>
    if score < least then return some (score, ← s.plan net achieved) else return best
  | none => return some (score, ← s.plan net achieved)

/-- A plan of the late side with the number of its arcs: the present one if it reaches the amount
and has fewer arcs than the best so far. -/
def considerLate (b : Bounds) (root : Nat) (amount : Int) (s : DeletionSearch) (net : Network)
    (best : Option (Nat × DeletionPlan)) : Checked (Option (Nat × DeletionPlan)) := do
  let achieved ← s.moved b .late root
  let fewer : Bool := match best with
    | some (least, _) => decide (s.removed < least)
    | none => true
  if amount ≤ achieved ∧ fewer then return some (s.removed, ← s.plan net achieved)
  else return best

/-- A rule that picks between the present plan and the best one so far. -/
abbrev Rule :=
  DeletionSearch → Network → Option (Nat × DeletionPlan) → Checked (Option (Nat × DeletionPlan))

/-- Makes steps until none is left and picks the best plan.  Every step sees another arc, so `fuel`
is enough if it exceeds the number of arcs. -/
def explore (b : Bounds) (side : Side) (consider : Rule) :
    (fuel : Nat) → DeletionSearch → Network → Option (Nat × DeletionPlan) →
      Checked (DeletionSearch × Network × Option (Nat × DeletionPlan))
  | 0, _, _, _ => .error .unsettled
  | fuel + 1, s, net, best => do
    let (s, next) ← s.step net b side
    match next with
    | none => return (s, net, best)
    | some net =>
      let best ← consider s net best
      explore b side consider fuel s net best

/-- Clears the flags of all arcs that the search has touched. -/
def finish (s : DeletionSearch) (net : Network) : Checked (DeletionSearch × Network) := do
  let unmark := fun (net : Network) (ref : ArcRef) =>
    net.adjustArc ref fun a => { a with marked := false }
  let net ← s.pruned.foldlM unmark net
  let net ← (s.queue.map Prod.fst).foldlM unmark net
  let net ← s.seenArcs.foldlM
    (fun net ref => net.adjustArc ref fun a => { a with seen := false }) net
  return ({ s with queue := [], pruned := [], seenArcs := [] }, net)

/-- A whole search with a root. -/
def run (s : DeletionSearch) (net : Network) (b : Bounds) (side : Side) (root : Nat)
    (consider : Rule) : Checked (Option (Nat × DeletionPlan) × DeletionSearch × Network) := do
  let s ← s.start root (← fetch (b.table side).base root)
  let (s, net) ← s.expand net b side root 0
  let s ← s.update net b side root
  let best ← consider s net none
  let (s, net, best) ← explore b side consider (net.size + 1) s net best
  let (s, net) ← s.finish net
  return (best, s, net)

/-- Arcs whose deletion lets a job start up to `amount` earlier. -/
def backward (s : DeletionSearch) (net : Network) (b : Bounds) (job : Nat) (amount : Int) :
    Checked (DeletionPlan × DeletionSearch × Network) := do
  if amount ≤ 0 then return (.none, s, net)
  if (← b.earliestStart job) = (← fetch b.early.base job) then return (.none, s, net)
  let (best, s, net) ← s.run net b .early job (considerEarly b job amount)
  return ((best.map Prod.snd).getD .none, s, net)

/-- Arcs whose deletion lets a job finish at least `amount` later, if the search finds any. -/
def forward (s : DeletionSearch) (net : Network) (b : Bounds) (job : Nat) (amount : Int) :
    Checked (Option DeletionPlan × DeletionSearch × Network) := do
  if amount ≤ 0 then return (some .none, s, net)
  if (← b.latestFinish job) = (← fetch b.late.base job) then return (none, s, net)
  let (best, s, net) ← s.run net b .late job (considerLate b job amount)
  return (best.map Prod.snd, s, net)

end DeletionSearch

end Leveling
