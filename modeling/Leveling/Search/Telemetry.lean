/-!
# Telemetry of a search

Counters, times per phase, and samples of the best cost.  Nothing that a search decides
depends on them.  All times are whole nanoseconds.
-/

namespace Leveling

/-- What a search has done so far. -/
structure Counters where
  iterations : Nat
  /-- Arcs that were inserted. -/
  insertions : Nat
  /-- Sets of arcs that were deleted. -/
  deletions : Nat
  resets : Nat
  /-- Improvements of the best schedule. -/
  improvements : Nat
  unstickCalls : Nat
deriving DecidableEq, Inhabited

namespace Counters

/-- Nothing done yet. -/
def zero : Counters := ⟨0, 0, 0, 0, 0, 0⟩

/-- The counters as lines of text. -/
def text (c : Counters) : String :=
  s!"iterations:    {c.iterations}\n" ++
  s!"insertions:    {c.insertions}\n" ++
  s!"deletions:     {c.deletions}\n" ++
  s!"resets:        {c.resets}\n" ++
  s!"improvements:  {c.improvements}\n" ++
  s!"unstick calls: {c.unstickCalls}"

end Counters

/-! ## Times per phase -/

/-- The phases of a search. -/
inductive Phase where
  | propagation
  | profile
  | selection
  | unstick
  | reset
deriving DecidableEq

/-- The time spent in each phase. -/
structure PhaseTimes where
  propagation : Nat
  profile : Nat
  selection : Nat
  unstick : Nat
  reset : Nat
deriving DecidableEq, Inhabited

namespace PhaseTimes

/-- No time spent. -/
def zero : PhaseTimes := ⟨0, 0, 0, 0, 0⟩

/-- The times with some time added to a phase. -/
def add (t : PhaseTimes) (phase : Phase) (elapsed : Nat) : PhaseTimes :=
  match phase with
  | .propagation => { t with propagation := t.propagation + elapsed }
  | .profile => { t with profile := t.profile + elapsed }
  | .selection => { t with selection := t.selection + elapsed }
  | .unstick => { t with unstick := t.unstick + elapsed }
  | .reset => { t with reset := t.reset + elapsed }

/-- The time of all phases together. -/
def total (t : PhaseTimes) : Nat :=
  t.propagation + t.profile + t.selection + t.unstick + t.reset

end PhaseTimes

/-! ## Samples of the best cost -/

/-- The best cost at some time. -/
structure ScoreSample (α : Type) where
  elapsed : Nat
  iteration : Nat
  best : α

/-- Samples that are at least an interval apart; none at all without an interval. -/
structure ScoreTrace (α : Type) where
  interval : Option Nat
  /-- The time from which on the next sample is taken. -/
  due : Nat
  samples : List (ScoreSample α)

namespace ScoreTrace

variable {α : Type}

/-- The trace without samples. -/
def empty (interval : Option Nat) : ScoreTrace α := ⟨interval, 0, []⟩

/-- The first of the times `due`, `due + interval`, … that lies after `elapsed`. -/
def nextDue (due interval elapsed : Nat) : Nat :=
  due + ((elapsed - due) / interval + 1) * interval

/-- The trace with one more sample, if it is due. -/
def record (t : ScoreTrace α) (elapsed iteration : Nat) (best : α) : ScoreTrace α :=
  match t.interval with
  | none => t
  | some interval =>
    if elapsed < t.due then t
    else { t with due := nextDue t.due interval elapsed,
                  samples := t.samples ++ [⟨elapsed, iteration, best⟩] }

end ScoreTrace

end Leveling
