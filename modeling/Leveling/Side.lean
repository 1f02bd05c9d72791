import Leveling.Fault

/-!
# The two sides of a time window

A precedence with lag `l` says that its target starts at least `l` after its source starts.
It bounds the *early* side of the target (its earliest start) by the early side of the
source, and the *late* side of the source (its latest finish) by the late side of the target.
The two sides are treated alike: a bound *travels* along an arc in the direction of its
side, the tighter of two bounds counts, and only the arithmetic of a step differs.
-/

namespace Leveling

/-- A side of a job's window. -/
inductive Side where
  /-- The earliest start; it travels from the source of an arc to the target. -/
  | early
  /-- The latest finish; it travels from the target of an arc to the source. -/
  | late
deriving DecidableEq

namespace Side

/-- The start that a bound `value` of job `v` stands for. -/
def origin (side : Side) (durations : Array Int) (v : Nat) (value : Int) : Checked Int :=
  match side with
  | .early => .ok value
  | .late => do subTime value (← fetch durations v)

/-- The bound that job `w` gets over an arc of the given lag from a neighbour whose own bound stands
for the start `start`. -/
def carry (side : Side) (durations : Array Int) (start lag : Int) (w : Nat) : Checked Int :=
  match side with
  | .early => addTime start lag
  | .late => do
    let start ← subTime start lag
    addTime start (← fetch durations w)

/-- Whether the bound `a` is strictly tighter than the bound `b`. -/
def isTighter (side : Side) (a b : Int) : Bool :=
  match side with
  | .early => b < a
  | .late => a < b

/-- The tighter of two bounds. -/
def tighter (side : Side) (a b : Int) : Int :=
  match side with
  | .early => max a b
  | .late => min a b

end Side

end Leveling
