import Leveling.Network.Basic
import Leveling.Span

/-!
# Time bounds

For each job the bounds hold an earliest start and a latest finish.  At first these are the
base bounds, which follow from the instance alone.  Arcs that are inserted tighten them, arcs
that are deleted relax them.

Tightening is lazy outside a range of times: a job whose bound lay beyond the range before
gets its new bound, but is *deferred*, that is, its neighbours are not looked at until a
later pass takes the job up.
-/

namespace Leveling

/-- The bounds of one side. -/
structure BoundTable where
  /-- The loosest bounds: the releases, or the deadlines. -/
  limit : Array Int
  /-- The bounds that follow from the instance alone. -/
  base : Array Int
  /-- The bounds now. -/
  value : Array Int
  /-- The deferred jobs, the latest first. -/
  deferred : List Nat
deriving DecidableEq, Inhabited

/-- The bounds of all jobs on both sides. -/
structure Bounds where
  durations : Array Int
  early : BoundTable
  late : BoundTable
deriving DecidableEq, Inhabited

namespace BoundTable

/-- The tightest of `bound` and of what the bounds of the listed neighbours imply for job `v` over
their arcs. -/
def implied (t : BoundTable) (durations : Array Int) (side : Side) (v : Nat)
    (neighbours : List (Nat × Arc)) (bound : Int) : Checked Int :=
  neighbours.foldlM (fun bound (u, arc) => do
    let start ← side.origin durations u (← fetch t.value u)
    return side.tighter bound (← side.carry durations start arc.lag v)) bound

/-- The loosest bound of a job that its limit and its neighbours allow. -/
def required (t : BoundTable) (durations : Array Int) (net : Network) (side : Side) (v : Nat) :
    Checked Int := do
  let neighbours ← net.backward side v
  t.implied durations side v neighbours (← fetch t.limit v)

end BoundTable

namespace Bounds

/-- The base bounds of an instance. -/
def ofProblem {α : Type} (p : Problem α) : Bounds :=
  { durations := p.jobs.map Job.duration
    early := { limit := p.jobs.map Job.release, base := p.earliestStart,
               value := p.earliestStart, deferred := [] }
    late := { limit := p.jobs.map Job.deadline, base := p.latestFinish,
              value := p.latestFinish, deferred := [] } }

/-- The bounds of one side. -/
def table (b : Bounds) : Side → BoundTable
  | .early => b.early
  | .late => b.late

/-- The bounds with one side replaced. -/
def withTable (b : Bounds) (side : Side) (table : BoundTable) : Bounds :=
  match side with
  | .early => { b with early := table }
  | .late => { b with late := table }

/-- The number of jobs. -/
def numJobs (b : Bounds) : Nat := b.durations.size

/-- The duration of a job. -/
def duration (b : Bounds) (job : Nat) : Checked Int := fetch b.durations job

/-- The earliest start of a job. -/
def earliestStart (b : Bounds) (job : Nat) : Checked Int := fetch b.early.value job

/-- The latest finish of a job. -/
def latestFinish (b : Bounds) (job : Nat) : Checked Int := fetch b.late.value job

/-- The earliest finish of a job. -/
def earliestFinish (b : Bounds) (job : Nat) : Checked Int := do
  addTime (← b.earliestStart job) (← b.duration job)

/-- Whether a job that starts as early as it can runs during some time of the range. -/
def intersects (b : Bounds) (job : Nat) (range : Span) : Checked Bool := do
  if (← b.earliestStart job) < range.hi then return range.lo < (← b.earliestFinish job)
  else return false

/-- Whether two jobs that start as early as they can run at the same time. -/
def overlap (b : Bounds) (s t : Nat) : Checked Bool := do
  if (← b.earliestStart t) < (← b.earliestFinish s) then
    return (← b.earliestStart s) < (← b.earliestFinish t)
  else return false

/-- Whether job `t` still fits in before its latest finish if it has to wait for job `s`. -/
def fitsAfter (b : Bounds) (s t : Nat) : Checked Bool := do
  return (← addTime (← b.earliestFinish s) (← b.duration t)) ≤ (← b.latestFinish t)

/-- Whether a job is deferred on either side. -/
def hasDeferred (b : Bounds) : Bool := !b.early.deferred.isEmpty || !b.late.deferred.isEmpty

/-- The base bounds, with nothing deferred. -/
def reset (b : Bounds) : Bounds :=
  { b with
    early := { b.early with value := b.early.base, deferred := [] }
    late := { b.late with value := b.late.base, deferred := [] } }

end Bounds

/-- The other side. -/
def Side.opposite : Side → Side
  | .early => .late
  | .late => .early

/-- Whether a bound lies beyond a range, on the side to which it travels. -/
def Side.isBeyond (side : Side) (range : Span) (bound : Int) : Bool :=
  match side with
  | .early => range.hi ≤ bound
  | .late => bound ≤ range.lo

end Leveling
