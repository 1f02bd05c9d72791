import Leveling.Profile.Arena
import Leveling.Span

/-!
# Profiles of one level

A tracked profile knows where each job is placed and keeps the events of the placed jobs in an
event tree.  The level during a time step is the sum of the weights of the jobs that run
then.  Jobs without a duration or without a weight never change the level and have no events.
-/

namespace Leveling

variable {α : Type} [Scalar α]

/-- Levels closer to each other than this count as equal. -/
def tolerance : α := 1e-9

/-- The placed jobs and their events. -/
structure TrackedProfile (α : Type) where
  arena : EventArena α
  starts : Array (Option Int)
  durations : Array Int
  weights : Array α

namespace TrackedProfile

/-- The profile in which no job is placed. -/
def empty (durations : Array Int) (weights : Array α) : Checked (TrackedProfile α) :=
  if durations.size = weights.size then
    .ok { arena := .empty (2 * durations.size), starts := .replicate durations.size none, durations,
          weights }
  else .error .assertionFailed

/-- The start of a job, if it is placed. -/
def startOf (p : TrackedProfile α) (job : Nat) : Checked (Option Int) := fetch p.starts job

/-- The two events of a job that starts at `start`, or none if the job never changes the level. -/
def changesOf (p : TrackedProfile α) (job : Nat) (start : Int) :
    Checked (List (Change α)) := do
  let duration ← fetch p.durations job
  let weight ← fetch p.weights job
  if 0 < duration ∧ 0 < weight then
    let finish ← addTime start duration
    return [⟨⟨start, .start, job⟩, weight⟩, ⟨⟨finish, .finish, job⟩, -weight⟩]
  else return []

/-- Places a job. -/
def insert (p : TrackedProfile α) (job : Nat) (start : Int) : Checked (TrackedProfile α) := do
  if (← p.startOf job).isSome then throw (.placedTwice job)
  let starts ← store p.starts job (some start)
  let changes ← p.changesOf job start
  return { p with starts, arena := ← changes.foldlM EventArena.insert p.arena }

/-- Takes a job out, if it is placed. -/
def remove (p : TrackedProfile α) (job : Nat) : Checked (TrackedProfile α) := do
  match ← p.startOf job with
  | none => return p
  | some start =>
    let starts ← store p.starts job none
    let changes ← p.changesOf job start
    return { p with starts, arena := ← changes.foldlM (fun a c => a.erase c.event) p.arena }

/-- Places a job at another start. -/
def reposition (p : TrackedProfile α) (job : Nat) (start : Int) :
    Checked (TrackedProfile α) := do
  if (← p.startOf job) = some start then return p
  (← p.remove job).insert job start

/-- The events in order.  The walk through the tree comes to an end, because no link leads back. -/
def events (p : TrackedProfile α) : List Event :=
  match p.arena.events with
  | .ok events => events
  | .error _ => []

/-! ## Levels -/

/-- The highest level at any time, but at least zero. -/
def maxLevel (p : TrackedProfile α) : α :=
  match p.arena.root.bind fun slot => p.arena.nodes[slot]? with
  | none => 0
  | some node => max node.summary.high 0

/-- The level during the time step `time`. -/
def levelAt (p : TrackedProfile α) (time : Int) : Checked α := do
  p.arena.levelBefore (.first (← addTime time 1))

/-- The highest level at any time of a stretch; zero if the stretch is empty. -/
def maxLevelIn (p : TrackedProfile α) (range : Span) : Checked α := do
  if range.isEmpty then return 0
  let inside ← p.arena.highest (.first (← addTime range.lo 1)) (.first range.hi)
  let atStart ← p.levelAt range.lo
  return match inside with
    | none => Scalar.soleMax atStart
    | some level => max atStart level

/-- The first time from `start` on at which the level is below the threshold, or `hi` if there is
none before.  An event after which the level is below counts only if the level is still below
after all events of its time. -/
def descent (p : TrackedProfile α) (threshold : α) (hi start : Int) : Checked Int :=
  match found : p.arena.findFirst (.first start) threshold .below with
  | .error fault => .error fault
  | .ok none => .ok hi
  | .ok (some event) =>
    if inside : event.time < hi then do
      if threshold ≤ (← p.levelAt event.time) then
        descent p threshold hi (event.time + 1)
      else return event.time
    else .ok hi
termination_by (hi - start).toNat
decreasing_by
  have := Event.time_le_of_first_le (EventArena.le_of_findFirstIn found)
  omega

/-- The leftmost maximal stretch inside a range at which the level is highest for that range, up to
the tolerance.  If no level is above the tolerance, this is the whole range. -/
def maxLevelRange (p : TrackedProfile α) (range : Span) : Checked Span := do
  let peak ← p.maxLevelIn range
  if range.isEmpty || peak ≤ tolerance then return range
  let threshold := peak - tolerance
  let lo ←
    if threshold ≤ (← p.levelAt range.lo) then pure range.lo
    else do
      match ← p.arena.findFirst (.first (← addTime range.lo 1)) threshold .reaching with
      | some event => pure (if event.time < range.hi then event.time else range.lo)
      | none => pure range.lo
  let hi ← p.descent threshold range.hi (← addTime lo 1)
  return ⟨lo, hi⟩

end TrackedProfile

end Leveling
