import Leveling.Scalar

/-!
# Random sources

The search asks for three kinds of random things: fractions of the unit interval, positions below a
bound, and permutations.  A random source answers with them, and nothing is known of its answers but
that they are in their ranges and that a permutation loses no entry.
-/

namespace Leveling

/-- A source of random fractions, positions and permutations. -/
class RandomSource (ρ : Type) where
  /-- The source of a seed. -/
  ofSeed : UInt64 → ρ
  /-- The numerator of a fraction with the denominator `2 ^ 53`. -/
  numerator : ρ → Nat × ρ
  /-- A position below a bound. -/
  below : Nat → ρ → Nat × ρ
  /-- The list in a random order. -/
  shuffle {β : Type} : Array β → ρ → Array β × ρ
  /-- A fraction is less than one. -/
  numerator_lt (source : ρ) : (numerator source).1 < 9007199254740992
  /-- A position below a positive bound is below the bound. -/
  below_lt {bound : Nat} (pos : 0 < bound) (source : ρ) : (below bound source).1 < bound
  /-- A list in a random order has the same entries as often. -/
  perm_shuffle {β : Type} (xs : Array β) (source : ρ) :
    (shuffle xs source).1.toList.Perm xs.toList

/-- A number in the unit interval without its right end, a multiple of `2 ^ (-53)`. -/
def RandomSource.fraction {ρ α : Type} [RandomSource ρ] [Scalar α] (source : ρ) : α × ρ :=
  let (n, source) := numerator source
  (Scalar.ofNat n / Scalar.ofNat 9007199254740992, source)

end Leveling
