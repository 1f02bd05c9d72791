import Leveling.Profile.Dense
import Leveling.Profile.Reduction

/-!
# Profiles

A profile knows where each job is placed and answers how expensive the worst time step is and
where the worst stretch of time lies.  There are two kinds: a tracked profile, for costs that
can be reduced to one level, and a dense profile for all others.
-/

namespace Leveling

variable {α : Type} [Scalar α]

/-- Which kind of profile is asked for. -/
inductive ProfileKind where
  /-- A tracked profile if the costs allow it, and a dense one otherwise. -/
  | auto
  | tree
  | array
deriving DecidableEq

/-- The reasons for which a profile is refused. -/
inductive ProfileError where
  /-- A tracked profile is asked for, but the costs do not reduce to one level. -/
  | treeUnsupported
  /-- A dense profile would have too many time steps. -/
  | horizonTooLarge (horizon limit : Int)
deriving DecidableEq

/-- A profile of either kind. -/
inductive Profile (α : Type) where
  | tracked (profile : TrackedProfile α) (reduction : Reduction α) (horizon : Int)
  | dense (profile : DenseProfile α)

/-- The highest cost in a range, and the leftmost stretch where it is reached. -/
structure Peak (α : Type) where
  cost : α
  range : Span

namespace Profile

/-- The number of time steps that a dense profile has at most unless another limit is given. -/
def defaultLimit : Int := 16777216

/-- The tracked profile of an instance in which no job is placed. -/
def trackedOf (p : Problem α) (reduction : Reduction α) : Checked (Profile α) := do
  let weights := p.jobs.map fun job => reduction.level job.demand
  return .tracked (← TrackedProfile.empty p.durations weights) reduction p.horizon

/-- The dense profile of an instance in which no job is placed, unless it needs more than `limit`
time steps. -/
def denseOf (p : Problem α) (limit : Int) : Verdict ProfileError (Profile α) :=
  if limit < p.horizon then throw (.horizonTooLarge p.horizon limit)
  else pure (.dense (.empty p))

/-- The profile of an instance in which no job is placed, with at most `limit` time steps if it is
dense. -/
def empty (p : Problem α) (kind : ProfileKind) (limit : Int) :
    Verdict ProfileError (Profile α) :=
  match kind, Reduction.ofResources? p.resources with
  | .array, _ => denseOf p limit
  | .auto, none => denseOf p limit
  | .tree, none => throw .treeUnsupported
  | _, some reduction => trackedOf p reduction

/-- The name of the kind of a profile. -/
def kindName : Profile α → String
  | .tracked .. => "tree"
  | .dense _ => "array"

/-- The time up to which a profile looks for its peak. -/
def horizon : Profile α → Int
  | .tracked _ _ horizon => horizon
  | .dense p => p.horizon

/-- The start of a job, if it is placed. -/
def startOf : Profile α → Nat → Checked (Option Int)
  | .tracked p _ _, job => p.startOf job
  | .dense p, job => p.startOf job

/-- Places a job. -/
def insert : Profile α → Nat → Int → Checked (Profile α)
  | .tracked p reduction horizon, job, start => do
    return .tracked (← p.insert job start) reduction horizon
  | .dense p, job, start => do return .dense (← p.insert job start)

/-- Takes a job out, if it is placed. -/
def remove : Profile α → Nat → Checked (Profile α)
  | .tracked p reduction horizon, job => do
    return .tracked (← p.remove job) reduction horizon
  | .dense p, job => do return .dense (← p.remove job)

/-- Places a job at another start. -/
def reposition : Profile α → Nat → Int → Checked (Profile α)
  | .tracked p reduction horizon, job, start => do
    return .tracked (← p.reposition job start) reduction horizon
  | .dense p, job, start => do return .dense (← p.reposition job start)

/-- The cost of the time step `time`. -/
def costAt : Profile α → Int → Checked α
  | .tracked p reduction _, time => do return reduction.cost (← p.levelAt time)
  | .dense p, time => return p.costAt time

/-- The highest cost. -/
def maximum : Profile α → α
  | .tracked p reduction _ => reduction.cost p.maxLevel
  | .dense p => p.maximum

/-- The highest cost inside a range, and where it is reached. -/
def maximumIn : Profile α → Span → Checked (Peak α)
  | .tracked p reduction _, range => do
    return ⟨reduction.cost (← p.maxLevelIn range), ← p.maxLevelRange range⟩
  | .dense p, range => return ⟨p.maximumIn range, p.maximumRange range⟩

/-- The leftmost stretch at which the cost is highest. -/
def maximumRange (p : Profile α) : Checked Span := do
  return (← p.maximumIn ⟨0, p.horizon⟩).range

/-- The events in order. -/
def events : Profile α → Checked (List Event)
  | .tracked p _ _ => return p.events
  | .dense p => p.events

end Profile

/-- The wording of a refusal. -/
def ProfileError.message : ProfileError → String
  | .treeUnsupported =>
    "the event tree needs one resource with constant availability or linear costs without " ++
      "free capacity"
  | .horizonTooLarge horizon limit =>
    s!"horizon {horizon} exceeds the dense profile limit {limit}"

end Leveling
