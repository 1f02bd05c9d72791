/-!
# Lists of slots

A slot list is compacted by moving its last entry into the slot that became free, so a
deletion costs no shift and renames one entry only.
-/

namespace Leveling

/-- The list without the entry at position `i`, whose slot the last entry takes over.  A position
outside the list changes nothing. -/
def swapRemove {β : Type} (xs : Array β) (i : Nat) : Array β :=
  if h : i < xs.size then (xs.set i xs.back h).pop else xs

/-- A removal inside the list shortens it by one. -/
theorem size_swapRemove {β : Type} {xs : Array β} {i : Nat} (h : i < xs.size) :
    (swapRemove xs i).size + 1 = xs.size := by
  simp [swapRemove, h]
  omega

end Leveling
