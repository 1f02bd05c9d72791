import Leveling.Config
import Leveling.Search.Telemetry

/-!
# The log of a search

A search logs what it does as events.  Each event has a level, and the verbosity of a search
says which levels are kept.
-/

namespace Leveling

/-- How much detail an event adds. -/
inductive LogLevel where
  /-- Changes of the best schedule, fresh starts, progress. -/
  | info
  /-- New candidates, moves of the peak. -/
  | debug
  /-- Single insertions and deletions. -/
  | trace
deriving DecidableEq

/-- The least verbosity at which events of a level are kept. -/
def LogLevel.threshold : LogLevel → Nat
  | .info => 1
  | .debug => 2
  | .trace => 3

/-- The name of a level. -/
def LogLevel.name : LogLevel → String
  | .info => "INFO"
  | .debug => "DEBUG"
  | .trace => "TRACE"

/-- What is worth a line in the log. -/
inductive LogEvent (α : Type) where
  /-- A run begins. -/
  | begun (jobs : Nat) (profile : String) (scorer : ScorerKind) (peak : α)
  /-- A run has ended. -/
  | ended (counters : Counters) (peak : α)
  /-- A number of iterations has passed. -/
  | progress (counters : Counters) (peak : α)
  /-- The peak has moved. -/
  | rangeMoved (before after : Span)
  /-- An arc is inserted, with the bounds of its ends. -/
  | inserted (source target : Nat) (sourceStart targetStart targetFinish : Int)
  /-- Candidates were collected. -/
  | collected (candidates jobs : Nat) (range : Span)
  /-- Nothing can be inserted into the network of the instance. -/
  | exhausted
  /-- Arcs are deleted to make room for an arc. -/
  | unstuck (source target arcs : Nat) (backward forward : Int)
  /-- The search starts over. -/
  | startedOver (resets : Nat) (abandoned best : α)
  /-- A better schedule was found. -/
  | improved (peak : α) (iteration : Nat)

namespace LogEvent

/-- The level of an event. -/
def level {α : Type} : LogEvent α → LogLevel
  | .begun .. => .debug
  | .ended .. => .info
  | .progress .. => .info
  | .rangeMoved .. => .debug
  | .inserted .. => .trace
  | .collected .. => .debug
  | .exhausted => .info
  | .unstuck .. => .trace
  | .startedOver .. => .debug
  | .improved .. => .info

/-- A cost as the log writes it, with three decimal places. -/
def costText (x : Float) : String := Decimal.fixed 3 x

/-- The line of an event.  The time that a run took is not known here and is written as `T`. -/
def text : LogEvent Float → String
  | .begun jobs profile scorer peak =>
    s!"swag: {jobs} jobs, {profile} skyline, {scorer.title} scorer, base peak {costText peak}"
  | .ended counters peak =>
    s!"swag done after {counters.iterations} iterations in T: best peak {costText peak} " ++
      s!"({counters.insertions} insertions, {counters.deletions} deletions, " ++
      s!"{counters.resets} resets)"
  | .progress counters peak =>
    s!"iteration {counters.iterations}: best peak {costText peak}, " ++
      s!"{counters.deletions} deletions, {counters.resets} resets"
  | .rangeMoved before after => s!"active range {before.text} -> {after.text}"
  | .inserted source target sourceStart targetStart targetFinish =>
    s!"insert {source} -> {target} (ES {sourceStart} / {targetStart}, LF {targetFinish})"
  | .collected candidates jobs range =>
    s!"{candidates} candidate edges among {jobs} jobs in {range.text}"
  | .exhausted => "no candidate edge in the base schedule; stopping"
  | .unstuck source target arcs backward forward =>
    s!"unstick {source} -> {target}: deleting {arcs} edges " ++
      s!"(backward {backward}, forward {forward})"
  | .startedOver resets abandoned best =>
    s!"reset {resets}: abandoned peak {costText abandoned}, best {costText best}"
  | .improved peak iteration => s!"new best peak {costText peak} at iteration {iteration}"

end LogEvent

end Leveling
