import Leveling.Fault
import Leveling.Scalar
import Leveling.Text.Decimal

/-!
# Renewable resources

A resource has an amount that is free at each time, and two cost polynomials for what is
used beyond it: the *investment*, paid once for the largest excess, and the *overshoot*,
paid for every time step with an excess.
-/

namespace Leveling

variable {α : Type} [Scalar α]

/-! ## Cost polynomials -/

/-- The term `coefficient * x ^ exponent`. -/
structure Term (α : Type) where
  coefficient : α
  exponent : α

/-- A sum of terms with scalar exponents. -/
structure Polynomial (α : Type) where
  terms : List (Term α)

namespace Polynomial

/-- The polynomial without terms. -/
def zero : Polynomial α := ⟨[]⟩

/-- The polynomial `c * x`. -/
def linear (c : α) : Polynomial α := ⟨[⟨c, 1⟩]⟩

/-- Whether every coefficient is zero. -/
def isZero (p : Polynomial α) : Bool := p.terms.all fun t => t.coefficient == 0

/-- The value at `x`. -/
def apply (p : Polynomial α) (x : α) : α :=
  Scalar.sum (p.terms.map fun t => t.coefficient * Scalar.pow x t.exponent)

/-- The sum of the coefficients, starting from `total`, if every term with a nonzero coefficient
has the exponent one. -/
def linearFrom (total : α) : List (Term α) → Option α
  | [] => some total
  | t :: rest =>
    if t.coefficient == 0 then linearFrom total rest
    else if t.exponent == 1 then linearFrom (total + t.coefficient) rest
    else none

/-- The slope of a polynomial that is linear. -/
def linearCoefficient? (p : Polynomial α) : Option α := linearFrom 0 p.terms

end Polynomial

/-! ## Availability -/

/-- A time from which on `amount` is free. -/
structure Breakpoint (α : Type) where
  time : Int
  amount : α

/-- The amount that is free over time: piecewise constant, each breakpoint holding until the next,
and zero before the first. -/
structure Availability (α : Type) where
  points : Array (Breakpoint α)

namespace Availability

/-- The same amount at all times from zero on. -/
def flat (amount : α) : Availability α := ⟨#[⟨0, amount⟩]⟩

/-- The amount, if it never changes; zero if there is no breakpoint. -/
def constant? (a : Availability α) : Option α :=
  let first : α := match a.points[0]? with
    | some p => p.amount
    | none => 0
  if a.points.all fun p => p.amount == first then some first else none

/-- Whether the breakpoint at position `i` exists and lies at or before `time`. -/
def reached (a : Availability α) (time : Int) (i : Nat) : Bool :=
  match a.points[i]? with
  | some p => p.time ≤ time
  | none => false

/-- The number of breakpoints at or before `time`, found by halving the `size` positions from `base`
on.  All positions before `base` are known to count. -/
def countReached (a : Availability α) (time : Int) (base size : Nat) : Nat :=
  if size ≤ 1 then
    if a.reached time base then base + 1 else base
  else
    let half := size / 2
    let base := if a.reached time (base + half) then base + half else base
    countReached a time base (size - half)
termination_by size

/-- The amount that is free during the time step `time`. -/
def amountAt (a : Availability α) (time : Int) : α :=
  match a.countReached time 0 a.points.size with
  | 0 => 0
  | i + 1 =>
    match a.points[i]? with
    | some p => p.amount
    | none => 0

end Availability

/-! ## Resources -/

/-- A renewable resource. -/
structure Resource (α : Type) where
  availability : Availability α
  /-- Paid once for the largest excess over the availability. -/
  investment : Polynomial α
  /-- Paid for every time step with an excess. -/
  overshoot : Polynomial α

namespace Resource

/-- A resource of which nothing is free, with an investment of `c` per unit. -/
def linear (c : α) : Resource α := ⟨.flat 0, .linear c, .zero⟩

/-- A resource of which nothing is free and whose use costs nothing. -/
def costless : Resource α := ⟨.flat 0, .zero, .zero⟩

/-- The cost of one time step with the given demand and availability. -/
def stepCost (r : Resource α) (demand available : α) : α :=
  let excess := demand - available
  if excess ≤ 0 then 0 else r.investment.apply excess + r.overshoot.apply excess

end Resource

/-! ## Defects -/

/-- The two kinds of charges of a resource. -/
inductive Charge where
  | investment
  | overshoot
deriving DecidableEq

/-- What can be wrong with a resource. -/
inductive ResourceDefect (α : Type) where
  /-- There is no breakpoint. -/
  | noBreakpoint
  /-- The first breakpoint is not at time zero. -/
  | badStart (time : Int)
  /-- The times of the breakpoints do not increase. -/
  | unordered
  /-- An amount is negative or not finite. -/
  | badAmount (amount : α)
  /-- A coefficient is negative or not finite. -/
  | badCoefficient (charge : Charge) (value : α)
  /-- An exponent is negative or not finite. -/
  | badExponent (charge : Charge) (value : α)

/-- Whether a scalar is finite and not negative. -/
def isAmount (x : α) : Bool := Scalar.isFinite x && !decide (x < 0)

namespace Availability

/-- Whether the times of neighbouring breakpoints increase. -/
def isIncreasing : List (Breakpoint α) → Bool
  | p :: q :: rest => p.time < q.time && isIncreasing (q :: rest)
  | _ => true

/-- Accepts a breakpoint list that starts at zero, increases in time and has proper amounts. -/
def check (a : Availability α) : Except (ResourceDefect α) Unit := do
  match a.points[0]? with
  | none => throw .noBreakpoint
  | some p => if p.time ≠ 0 then throw (.badStart p.time)
  unless isIncreasing a.points.toList do throw .unordered
  match a.points.toList.find? fun p => !isAmount p.amount with
  | some p => throw (.badAmount p.amount)
  | none => pure ()

end Availability

namespace Polynomial

/-- Accepts terms with proper coefficients and exponents. -/
def checkTerms (charge : Charge) : List (Term α) → Except (ResourceDefect α) Unit
  | [] => .ok ()
  | t :: rest =>
    if !isAmount t.coefficient then .error (.badCoefficient charge t.coefficient)
    else if !isAmount t.exponent then .error (.badExponent charge t.exponent)
    else checkTerms charge rest

end Polynomial

/-- Accepts a resource without a defect; otherwise names the first one, looking at the availability,
the investment and the overshoot in this order. -/
def Resource.check (r : Resource α) : Except (ResourceDefect α) Unit := do
  r.availability.check
  Polynomial.checkTerms .investment r.investment.terms
  Polynomial.checkTerms .overshoot r.overshoot.terms

/-- The name of a charge in a message. -/
def Charge.name : Charge → String
  | .investment => "investment"
  | .overshoot => "overshoot"

/-- The wording of a defect. -/
def ResourceDefect.message : ResourceDefect Float → String
  | .noBreakpoint => "availability needs at least one point"
  | .badStart time => s!"availability must start at time 0, not {time}"
  | .unordered => "availability points must be strictly increasing in time"
  | .badAmount amount => s!"availability {Decimal.shortest amount} must be finite and non-negative"
  | .badCoefficient charge value =>
    s!"{charge.name} coefficient {Decimal.shortest value} must be finite and non-negative"
  | .badExponent charge value =>
    s!"{charge.name} exponent {Decimal.shortest value} must be finite and non-negative"

end Leveling
