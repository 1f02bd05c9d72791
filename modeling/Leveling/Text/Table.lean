/-!
# Tables of characters

A property of characters is given by the ranges of the codes that have it.  The ranges of a
table are sorted and have gaps between them, so no code is listed twice and no table could be
written with fewer ranges.
-/

namespace Leveling

/-- Whether each range is in order and ends at least two codes before the next one begins. -/
def isSeparated : List (Nat × Nat) → Bool
  | [] => true
  | [(first, last)] => first ≤ last
  | (first, last) :: (next, stop) :: rest =>
    first ≤ last && last + 1 < next && isSeparated ((next, stop) :: rest)

/-- A property of characters: the ranges of the codes that have it, with both ends included. -/
structure CharTable where
  ranges : List (Nat × Nat)
  separated : isSeparated ranges = true

namespace CharTable

/-- Whether a character has the property. -/
def contains (t : CharTable) (c : Char) : Bool :=
  t.ranges.any fun (first, last) => first ≤ c.toNat && c.toNat ≤ last

/-- A character has the property exactly if its code lies in one of the ranges. -/
theorem contains_iff {t : CharTable} {c : Char} :
    t.contains c = true ↔ ∃ r ∈ t.ranges, r.1 ≤ c.toNat ∧ c.toNat ≤ r.2 := by
  simp [contains]

end CharTable

end Leveling
