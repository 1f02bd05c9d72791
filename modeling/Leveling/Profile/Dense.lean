import Leveling.Profile.Tracked

/-!
# Dense profiles

A dense profile keeps the demand for each resource, and the cost, of every time step up to
the horizon.  It is exact for any cost, at the price of touching every time step that a job
covers whenever the job moves.
-/

namespace Leveling

variable {α : Type} [Scalar α]

/-- What is known about a time step: the demand for each resource, and the cost. -/
structure TimeStep (α : Type) where
  load : List α
  cost : α

/-- A profile that stores every time step. -/
structure DenseProfile (α : Type) where
  resources : List (Resource α)
  steps : Array (TimeStep α)
  starts : Array (Option Int)
  durations : Array Int
  demands : Array (List α)

namespace TimeStep

/-- The time step at `time` with `sign` times a demand added, and its cost computed anew. -/
def add (resources : List (Resource α)) (sign : α) (demand : List α) (time : Nat)
    (s : TimeStep α) : TimeStep α :=
  let load := List.zipWith (fun u d => u + sign * d) s.load demand
  let charges := List.zipWith
    (fun (r : Resource α) u => r.stepCost u (r.availability.amountAt time)) resources load
  { load, cost := Scalar.sum charges }

end TimeStep

namespace DenseProfile

/-- The profile of an instance in which no job is placed. -/
def empty (p : Problem α) : DenseProfile α :=
  { resources := p.resources
    steps := .replicate p.horizon.toNat { load := p.resources.map fun _ => 0, cost := 0 }
    starts := .replicate p.numJobs none
    durations := p.durations
    demands := p.jobs.map Job.demand }

/-- The number of time steps. -/
def horizon (p : DenseProfile α) : Int := p.steps.size

/-- The start of a job, if it is placed. -/
def startOf (p : DenseProfile α) (job : Nat) : Checked (Option Int) := fetch p.starts job

/-- The time steps with `sign` times a demand added to the `count` steps from `time` on. -/
def addFrom (resources : List (Resource α)) (sign : α) (demand : List α) (time : Nat) :
    (count : Nat) → Array (TimeStep α) → Array (TimeStep α)
  | 0, steps => steps
  | count + 1, steps =>
    addFrom resources sign demand (time + 1) count
      (steps.modify time (TimeStep.add resources sign demand time))

/-- Adds `sign` times the demand of a job to the time steps that it covers from `start` on. -/
def apply (p : DenseProfile α) (job : Nat) (start : Int) (sign : α) :
    Checked (DenseProfile α) := do
  let duration ← fetch p.durations job
  let finish ← addTime start duration
  unless 0 ≤ start ∧ finish ≤ p.horizon do throw (.outsideHorizon job)
  let demand ← fetch p.demands job
  return { p with
    steps := addFrom p.resources sign demand start.toNat duration.toNat p.steps }

/-- Places a job. -/
def insert (p : DenseProfile α) (job : Nat) (start : Int) : Checked (DenseProfile α) := do
  if (← p.startOf job).isSome then throw (.placedTwice job)
  let starts ← store p.starts job (some start)
  apply { p with starts } job start 1

/-- Takes a job out, if it is placed. -/
def remove (p : DenseProfile α) (job : Nat) : Checked (DenseProfile α) := do
  match ← p.startOf job with
  | none => return p
  | some start =>
    let starts ← store p.starts job none
    apply { p with starts } job start (-1)

/-- Places a job at another start. -/
def reposition (p : DenseProfile α) (job : Nat) (start : Int) : Checked (DenseProfile α) := do
  if (← p.startOf job) = some start then return p
  (← p.remove job).insert job start

/-! ## Costs -/

/-- What is known about a time, unless it is outside the profile. -/
def step? (p : DenseProfile α) (time : Int) : Option (TimeStep α) :=
  if time < 0 then none else p.steps[time.toNat]?

/-- The cost of a time step; zero outside the profile. -/
def costAt (p : DenseProfile α) (time : Int) : α :=
  match p.step? time with
  | some s => s.cost
  | none => 0

/-- The demand for each resource at a time; zero outside the profile. -/
def loadAt (p : DenseProfile α) (time : Int) : List α :=
  match p.step? time with
  | some s => s.load
  | none => p.resources.map fun _ => 0

/-- The largest of `best` and the costs of the `count` time steps from `time` on. -/
def peakFrom (p : DenseProfile α) (time : Nat) : (count : Nat) → α → α
  | 0, best => best
  | count + 1, best => peakFrom p (time + 1) count (max best (p.costAt time))

/-- The first of the `count` time steps from `time` on whose cost satisfies `test`. -/
def findStep? (p : DenseProfile α) (test : α → Bool) (time : Nat) : (count : Nat) → Option Nat
  | 0 => none
  | count + 1 =>
    if test (p.costAt time) then some time else findStep? p test (time + 1) count

/-- The highest cost, but at least zero. -/
def maximum (p : DenseProfile α) : α := p.peakFrom 0 p.steps.size 0

/-- The first time step of a range that the profile has, and the number of its time steps. -/
def clamp (p : DenseProfile α) (range : Span) : Nat × Nat :=
  let lo := (min (max range.lo 0) p.horizon).toNat
  let hi := (min (max range.hi 0) p.horizon).toNat
  (lo, hi - lo)

/-- The highest cost in a range, but at least zero. -/
def maximumIn (p : DenseProfile α) (range : Span) : α :=
  let (time, count) := p.clamp range
  p.peakFrom time count 0

/-- The leftmost maximal stretch of a range at which the cost is highest for that range, up to the
tolerance.  If no cost is above the tolerance, this is the whole range. -/
def maximumRange (p : DenseProfile α) (range : Span) : Span :=
  let (time, count) := p.clamp range
  let peak := p.maximumIn range
  if count = 0 || peak ≤ tolerance then range
  else
    let threshold := peak - tolerance
    let lo := (p.findStep? (fun c => threshold ≤ c) time count).getD time
    let hi := (p.findStep? (fun c => c < threshold) lo (time + count - lo)).getD (time + count)
    ⟨lo, hi⟩

/-- The two events of a placed job that has a duration. -/
def eventsOf (p : DenseProfile α) (job : Nat) : Checked (List Event) := do
  match ← fetch p.starts job with
  | none => return []
  | some start =>
    let duration ← fetch p.durations job
    if 0 < duration then
      let finish ← addTime start duration
      return [⟨start, .start, job⟩, ⟨finish, .finish, job⟩]
    else return []

/-- The events in order. -/
def events (p : DenseProfile α) : Checked (List Event) := do
  let events ← (List.range p.starts.size).mapM p.eventsOf
  return events.flatten.mergeSort Event.comesBefore

end DenseProfile

end Leveling
