import Mathlib.Algebra.BigOperators.Group.List.Basic
import Mathlib.Algebra.Order.BigOperators.Group.List
import Mathlib.Algebra.Order.Field.Basic
import Mathlib.Algebra.Order.Field.Rat
import Mathlib.Algebra.Order.Ring.Rat
import Leveling.Problem
import Leveling.Proofs.Verdicts

/-!
# Exact numbers

Some statements are about costs as numbers: that a sum is the same in any order, or that a higher
demand never costs less.  They are read over *exact* scalars, which are the elements of an ordered
field with a power function.  Of the power function nothing is known but that it is not negative and
does not decrease for bases from zero on, and that the exponent one leaves such a base as it is.

The maximum and the minimum of a single exact number are the number itself, and every exact number is
finite.
-/

namespace Leveling

/-- The elements of an ordered field with a power function. -/
class ExactScalar (α : Type) extends Field α, LinearOrder α, IsStrictOrderedRing α where
  /-- The power `x ^ e`. -/
  power : α → α → α
  power_nonneg : ∀ {x e : α}, 0 ≤ x → 0 ≤ power x e
  power_mono : ∀ {x y e : α}, 0 ≤ e → 0 ≤ x → x ≤ y → power x e ≤ power y e
  power_one : ∀ {x : α}, 0 ≤ x → power x 1 = x

namespace ExactScalar

/-- The rational numbers, with the integral part of an exponent as the exponent. -/
instance : ExactScalar ℚ where
  power x e := x ^ e.floor.toNat
  power_nonneg h := pow_nonneg h _
  power_mono _ h le := pow_le_pow_left₀ h le _
  power_one _ := pow_one _

variable {α : Type} [ExactScalar α] {x : α}

/-- The operations on exact scalars. -/
instance : Scalar α where
  ofNat n := n
  pow := power
  isFinite _ := true
  soleMax x := x
  soleMin x := x
  decideLt := inferInstance
  decideLe := inferInstance

end ExactScalar

/-- The operations are those of exact scalars. -/
def Scalar.IsExact (α : Type) [scalar : Scalar α] : Prop :=
  ∃ _exact : ExactScalar α, scalar = ExactScalar.instScalar

namespace ExactScalar

variable {α : Type} [ExactScalar α] {x : α}

/-- Exact scalars are exact. -/
lemma isExact : Scalar.IsExact α := ⟨inferInstance, rfl⟩

/-- A sum is the sum of the list. -/
lemma sum_eq (xs : List α) : Scalar.sum xs = xs.sum := by
  unfold Scalar.sum
  rw [neg_zero, List.sum_eq_foldl]

/-- A comparison is an equality. -/
lemma beq_iff {x y : α} : (x == y) = true ↔ x = y := decide_eq_true_iff

/-- A proper amount is not negative. -/
lemma isAmount_iff : isAmount x = true ↔ 0 ≤ x := by
  unfold isAmount
  rw [show Scalar.isFinite x = true from rfl, Bool.true_and, Bool.not_eq_true', decide_eq_false_iff_not,
    not_lt]

/-! ## Small instances -/

/-- Two jobs of the same demand that can run at the same time or one after the other. -/
def pair : Problem ℚ where
  jobs := #[⟨2, 0, 4, [1]⟩, ⟨2, 0, 4, [1]⟩]
  resources := [.linear 1]
  precedences := []
  order := [0, 1]
  earliestStart := #[0, 0]
  latestFinish := #[4, 4]

/-- The pair is accepted. -/
lemma pair_accepted : (Problem.build pair.jobs pair.resources []).Accepts pair := by
  with_unfolding_all rfl

/-- Two jobs that never demand more than there is, one of which demands nothing. -/
def spare : Problem ℚ where
  jobs := #[⟨2, 0, 4, [3]⟩, ⟨1, 0, 4, [0]⟩]
  resources := [⟨.flat 5, .linear 1, .zero⟩]
  precedences := []
  order := [0, 1]
  earliestStart := #[0, 0]
  latestFinish := #[4, 4]

/-- The jobs with capacity to spare are accepted. -/
lemma spare_accepted : (Problem.build spare.jobs spare.resources []).Accepts spare := by
  with_unfolding_all rfl

end ExactScalar

end Leveling
