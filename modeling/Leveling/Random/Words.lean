import Leveling.Random.Source

/-!
# Streams of words

A stream of 32-bit words that starts from a seed is a random source: everything that is drawn at
random is made from its words.
-/

namespace Leveling

/-- A stream of 32-bit words that starts from a seed. -/
class WordStream (ρ : Type) where
  /-- The stream of a seed. -/
  ofSeed : UInt64 → ρ
  /-- The next word and the rest of the stream. -/
  word : ρ → UInt32 × ρ

namespace WordStream

variable {ρ : Type} [WordStream ρ]

/-- The next number below `2 ^ 64`, made of two words with the low one first. -/
def long (source : ρ) : Nat × ρ :=
  let (low, source) := word source
  let (high, source) := word source
  (high.toNat * 4294967296 + low.toNat, source)

/-- The next number below `2 ^ 53`, the high part of two words. -/
def numerator (source : ρ) : Nat × ρ :=
  let (n, source) := long source
  (n / 2048, source)

/-- A number below `bound`, made of numbers below `scale` that `draw` gives: the high part of the
product of such a number and the bound.  A second number decides about the carry into it, whenever
one is possible. -/
def scaled (scale : Nat) (draw : ρ → Nat × ρ) (bound : Nat) (source : ρ) : Nat × ρ :=
  let (first, source) := draw source
  let product := first * bound
  let high := product / scale
  let low := product % scale
  if scale - bound < low then
    let (second, source) := draw source
    let carry := second * bound / scale
    (if scale ≤ low + carry then high + 1 else high, source)
  else
    (high, source)

/-- A number below `bound`, made of words, or of numbers of two words if the bound is beyond all
words. -/
def below (bound : Nat) (source : ρ) : Nat × ρ :=
  if bound ≤ 4294967296 then
    scaled 4294967296 (fun source => ((word source).1.toNat, (word source).2)) bound source
  else scaled 18446744073709551616 long bound source

/-! ## Permutations

A permutation is a row of exchanges, one for each position `i`, with a position drawn from
the `i + 1` first ones.  To save words, one drawn number serves several positions in a row:
it is drawn below the product of their numbers of choices and taken apart by division. -/

/-- The longest product `m * (m + 1) * …` below `2 ^ 32` that extends `product` by the factors from
`next` on, and the number of factors in it; `count` factors are in `product` already.  At most
`tries` factors are added. -/
def extendProduct (product count next : Nat) : (tries : Nat) → Nat × Nat
  | 0 => (product, count)
  | tries + 1 =>
    if product * next < 4294967296 then extendProduct (product * next) (count + 1) (next + 1) tries
    else (product, count)

/-- A drawn number from which positions are still to be taken. -/
structure Chunk (ρ : Type) where
  source : ρ
  number : Nat
  remaining : Nat

/-- A position among the first `m`. -/
def Chunk.next (chunk : Chunk ρ) (m : Nat) : Nat × Chunk ρ :=
  let chunk :=
    if chunk.remaining = 0 then
      let (product, count) := extendProduct m 1 (m + 1) 32
      let (number, source) := below product chunk.source
      { source, number, remaining := count : Chunk ρ }
    else chunk
  if chunk.remaining = 1 then
    (chunk.number, { chunk with remaining := 0 })
  else
    (chunk.number % m,
      { chunk with number := chunk.number / m, remaining := chunk.remaining - 1 })

/-- The list in a random order. -/
def shuffle {β : Type} (xs : Array β) (source : ρ) : Array β × ρ :=
  let start : Array β × Chunk ρ := (xs, ⟨source, 0, 0⟩)
  let (xs, chunk) := (List.range (xs.size - 1)).foldl (fun (xs, chunk) i =>
    let (j, chunk) := chunk.next (i + 2)
    (xs.swapIfInBounds (i + 1) j, chunk)) start
  (xs, chunk.source)

/-! ## What the operations promise -/

/-- A number of two words is below `2 ^ 64`. -/
theorem long_lt (source : ρ) : (long source).1 < 18446744073709551616 := by
  have low_lt : (word source).1.toNat < 4294967296 := (word source).1.toNat_lt
  have high_lt : (word (word source).2).1.toNat < 4294967296 := (word (word source).2).1.toNat_lt
  simp only [long]
  omega

omit [WordStream ρ] in
/-- Numbers below a scale give numbers below each positive bound. -/
theorem scaled_lt {scale bound : Nat} {draw : ρ → Nat × ρ} (draw_lt : ∀ source, (draw source).1 < scale)
    (pos : 0 < bound) (source : ρ) : (scaled scale draw bound source).1 < bound := by
  have first_lt : (draw source).1 < scale := draw_lt source
  simp only [scaled]
  generalize (draw source).1 = first at first_lt
  have split := Nat.div_add_mod (first * bound) scale
  have le_last : first * bound ≤ (scale - 1) * bound :=
    Nat.mul_le_mul_right _ (Nat.le_sub_one_of_lt first_lt)
  have last : (scale - 1) * bound + bound = scale * bound := by
    rw [← Nat.succ_mul, Nat.succ_eq_add_one, Nat.sub_add_cancel (by omega)]
  -- if the high part were the last number below the bound, its low part would leave no carry
  have high_lt : first * bound / scale < bound := by
    refine Nat.div_lt_of_lt_mul ?_
    omega
  split
  · rename_i carries
    have high_ne : first * bound / scale ≠ bound - 1 := by
      intro same
      rw [same, Nat.mul_sub_one] at split
      have : scale ≤ scale * bound := Nat.le_mul_of_pos_right scale pos
      omega
    split <;> omega
  · exact high_lt

/-- A number drawn below a positive bound is below the bound. -/
theorem below_lt {bound : Nat} (pos : 0 < bound) (source : ρ) : (below bound source).1 < bound := by
  unfold below
  split
  · exact scaled_lt (fun source => (word source).1.toNat_lt) pos source
  · exact scaled_lt long_lt pos source

/-- The high part of two words is below `2 ^ 53`. -/
theorem numerator_lt (source : ρ) : (numerator source).1 < 9007199254740992 := by
  have two_words := long_lt source
  simp only [numerator]
  omega

/-- An exchange of two entries loses none. -/
theorem perm_swapIfInBounds {β : Type} (xs : Array β) (i j : Nat) :
    (xs.swapIfInBounds i j).toList.Perm xs.toList := by
  unfold Array.swapIfInBounds
  split
  · split
    · exact (Array.swap_perm _ _).toList
    · exact .refl _
  · exact .refl _

/-- A row of exchanges loses no entry. -/
theorem perm_shuffle {β : Type} (xs : Array β) (source : ρ) :
    (shuffle xs source).1.toList.Perm xs.toList := by
  have loop : ∀ (l : List Nat) (ys : Array β) (chunk : Chunk ρ),
      (l.foldl (fun (r : Array β × Chunk ρ) i =>
        let drawn := r.2.next (i + 2)
        (r.1.swapIfInBounds (i + 1) drawn.1, drawn.2)) (ys, chunk)).1.toList.Perm ys.toList := by
    intro l
    induction l with
    | nil => exact fun ys _ => .refl _
    | cons i rest ih =>
      intro ys chunk
      rw [List.foldl_cons]
      exact (ih _ _).trans (perm_swapIfInBounds ys _ _)
  exact loop _ xs ⟨source, 0, 0⟩

/-- What is made from words is a random source. -/
instance : RandomSource ρ where
  ofSeed := ofSeed
  numerator := numerator
  below := below
  shuffle := shuffle
  numerator_lt := numerator_lt
  below_lt := below_lt
  perm_shuffle := perm_shuffle

end WordStream

end Leveling
