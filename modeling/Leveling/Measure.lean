/-!
# Weights of lists

The weight of a list is the sum of a natural number over its entries, where the share of an
entry may depend on its position.  The worklist algorithms of this library end because each
of their steps lowers such a weight, and the one fact they need is what replacing an entry
does to it.
-/

namespace Leveling

/-- The sum of `f i x` over the entries `x` of a list, whose positions are counted from `k`. -/
def weightFrom {β : Type} (f : Nat → β → Nat) : Nat → List β → Nat
  | _, [] => 0
  | k, x :: rest => f k x + weightFrom f (k + 1) rest

/-- The sum of `f i x` over the entries `x` at positions `i`. -/
def weight {β : Type} (f : Nat → β → Nat) (xs : Array β) : Nat := weightFrom f 0 xs.toList

/-- Replacing an entry exchanges its share in the sum. -/
theorem weightFrom_set {β : Type} (f : Nat → β → Nat) (x : β) :
    ∀ (l : List β) (k i : Nat) (h : i < l.length),
      weightFrom f k (l.set i x) + f (k + i) l[i] = weightFrom f k l + f (k + i) x
  | [], _, _, h => absurd h (Nat.not_lt_zero _)
  | y :: l, k, 0, _ => by
    simp only [List.set_cons_zero, weightFrom, List.getElem_cons_zero, Nat.add_zero]
    omega
  | y :: l, k, i + 1, h => by
    have := weightFrom_set f x l (k + 1) i (Nat.lt_of_succ_lt_succ h)
    rw [show k + 1 + i = k + (i + 1) by omega] at this
    simp only [List.set_cons_succ, weightFrom, List.getElem_cons_succ]
    omega

/-- Replacing an entry exchanges its share in the weight. -/
theorem weight_set {β : Type} (f : Nat → β → Nat) (xs : Array β) (i : Nat) (x : β)
    (h : i < xs.size) :
    weight f (xs.set i x h) + f i xs[i] = weight f xs + f i x := by
  have := weightFrom_set f x xs.toList 0 i (by simpa using h)
  simpa [weight] using this

end Leveling
