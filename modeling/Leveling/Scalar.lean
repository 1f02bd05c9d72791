/-!
# Scalars

Demands, costs and weights are scalars.  Everything that computes with them is written
against the class `Scalar`, which names the operations and promises nothing about them, so
that a statement can be read over exact numbers, over the floating-point numbers that a
program runs on, or over operations left uninterpreted.

Running maxima and minima need care with undefined values: a maximum ignores an undefined
operand, and the maximum of one undefined value alone is the least value there is.  The
second case is the operation `soleMax` (and `soleMin` for minima); over exact numbers it is
the identity.
-/

namespace Leveling

/-- The operations on demands, costs and weights. -/
class Scalar (α : Type) extends Zero α, One α, Add α, Sub α, Mul α, Div α, Neg α, LT α, LE α,
    Max α, Min α, BEq α, OfScientific α where
  /-- The scalar of a natural number. -/
  ofNat : Nat → α
  /-- The power `x ^ e`. -/
  pow : α → α → α
  /-- Whether a scalar is neither undefined nor infinite. -/
  isFinite : α → Bool
  /-- The maximum of a single value. -/
  soleMax : α → α
  /-- The minimum of a single value. -/
  soleMin : α → α
  /-- The strict order can be decided. -/
  decideLt : DecidableLT α
  /-- The order can be decided. -/
  decideLe : DecidableLE α

namespace Scalar

variable {α : Type} [Scalar α]

instance : DecidableLT α := Scalar.decideLt

instance : DecidableLE α := Scalar.decideLe

/-- The sum of a list, taken from the left.  It starts from negative zero, the value that an
addition never changes. -/
def sum (xs : List α) : α := xs.foldl (· + ·) (-0)

/-- The larger of an optional value and a value. -/
def maxWith (best : Option α) (x : α) : α :=
  match best with
  | some y => max y x
  | none => soleMax x

/-- The smaller of an optional value and a value. -/
def minWith (best : Option α) (x : α) : α :=
  match best with
  | some y => min y x
  | none => soleMin x

/-- The largest of two optional values. -/
def maxOption : Option α → Option α → Option α
  | none, none => none
  | some x, none => some (soleMax x)
  | none, some y => some (soleMax y)
  | some x, some y => some (max x y)

end Scalar

/-! ## Floating-point numbers -/

namespace FloatScalar

/-- The larger of two numbers; an undefined operand is ignored. -/
def larger (a b : Float) : Float :=
  if a.isNaN then b else if b.isNaN then a else if a < b then b else a

/-- The smaller of two numbers; an undefined operand is ignored. -/
def smaller (a b : Float) : Float :=
  if a.isNaN then b else if b.isNaN then a else if b < a then b else a

/-- The double-precision numbers as scalars. -/
instance : Scalar Float where
  zero := Float.ofBits 0
  one := Float.ofBits 0x3ff0000000000000
  max := larger
  min := smaller
  ofNat := Float.ofNat
  pow := Float.pow
  isFinite := Float.isFinite
  soleMax x := larger (Float.ofBits 0xfff0000000000000) x
  soleMin x := smaller (Float.ofBits 0x7ff0000000000000) x
  decideLt := inferInstance
  decideLe := inferInstance

end FloatScalar

end Leveling
