import Leveling.Fault

/-!
# Stretches of time
-/

namespace Leveling

/-- The times from `lo` up to, and without, `hi`. -/
structure Span where
  lo : Int
  hi : Int
deriving DecidableEq, Inhabited

namespace Span

/-- All times but the greatest. -/
def full : Span := ⟨leastTime, greatestTime⟩

/-- Whether the stretch holds no time. -/
def isEmpty (s : Span) : Bool := s.hi ≤ s.lo

/-- Whether a time lies in the stretch. -/
def contains (s : Span) (time : Int) : Bool := s.lo ≤ time && time < s.hi

/-- The stretch as text. -/
def text (s : Span) : String := s!"[{s.lo}, {s.hi})"

end Span

end Leveling
