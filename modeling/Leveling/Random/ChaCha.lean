import Leveling.Random.Words

/-!
# The ChaCha stream with eight rounds

The stream is made of blocks of sixteen words.  A block is the sum of the start state (four
constants, the key, a 64-bit block counter and two zero words) and of the state that eight
rounds of mixing make from it.  The key is drawn from the seed by a linear congruential
generator whose output is permuted by a shift and a rotation.
-/

namespace Leveling

/-- A place in a ChaCha stream: the key, the number of the next block, and what is left of the
block before it. -/
structure ChaCha where
  key : List UInt32
  block : UInt64
  buffer : List UInt32

namespace ChaCha

/-- The sixteen words that the rounds mix. -/
abbrev State := Vector UInt32 16

/-- A word rotated to the left. -/
def rotate (x : UInt32) (bits : UInt32) : UInt32 := (x <<< bits) ||| (x >>> (32 - bits))

/-- The mixing of four words. -/
def quarterRound (s : State) (a b c d : Fin 16) : State :=
  let s := s.set a (s[a] + s[b])
  let s := s.set d (rotate (s[d] ^^^ s[a]) 16)
  let s := s.set c (s[c] + s[d])
  let s := s.set b (rotate (s[b] ^^^ s[c]) 12)
  let s := s.set a (s[a] + s[b])
  let s := s.set d (rotate (s[d] ^^^ s[a]) 8)
  let s := s.set c (s[c] + s[d])
  s.set b (rotate (s[b] ^^^ s[c]) 7)

/-- A round on the columns followed by a round on the diagonals. -/
def doubleRound (s : State) : State :=
  let s := quarterRound s 0 4 8 12
  let s := quarterRound s 1 5 9 13
  let s := quarterRound s 2 6 10 14
  let s := quarterRound s 3 7 11 15
  let s := quarterRound s 0 5 10 15
  let s := quarterRound s 1 6 11 12
  let s := quarterRound s 2 7 8 13
  quarterRound s 3 4 9 14

/-- The start state of a block.  The four constants spell "expand 32-byte k". -/
def startState (key : List UInt32) (block : UInt64) : State :=
  let word (i : Nat) : UInt32 := key.getD i 0
  #v[0x61707865, 0x3320646e, 0x79622d32, 0x6b206574,
    word 0, word 1, word 2, word 3, word 4, word 5, word 6, word 7,
    block.toUInt32, (block >>> 32).toUInt32, 0, 0]

/-- The words of a block. -/
def blockWords (key : List UInt32) (block : UInt64) : List UInt32 :=
  let start := startState key block
  let mixed := doubleRound (doubleRound (doubleRound (doubleRound start)))
  (Vector.zipWith (· + ·) mixed start).toList

/-- The words of a key, drawn from the state `x` of the generator that expands a seed. -/
def keyWords (x : UInt64) : (count : Nat) → List UInt32
  | 0 => []
  | count + 1 =>
    let x := x * 6364136223846793005 + 11634580027462260723
    let shifted := (((x >>> 18) ^^^ x) >>> 27).toUInt32
    let turn := (x >>> 59).toUInt32
    let word := (shifted >>> turn) ||| (shifted <<< ((32 - turn) % 32))
    word :: keyWords x count

/-- The stream of a seed. -/
def ofSeed (seed : UInt64) : ChaCha := ⟨keyWords seed 8, 0, []⟩

/-- The next word. -/
def next (s : ChaCha) : UInt32 × ChaCha :=
  match s.buffer with
  | word :: buffer => (word, { s with buffer })
  | [] =>
    match blockWords s.key s.block with
    | word :: buffer => (word, { s with block := s.block + 1, buffer })
    | [] => (0, s)

instance : WordStream ChaCha where
  ofSeed := ofSeed
  word := next

end ChaCha

end Leveling
