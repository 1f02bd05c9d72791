/-!
# Decimal text of floating-point numbers

A finite floating-point number is exactly `m * 2 ^ q`, so its decimal text is a matter of
exact natural arithmetic.  Two texts are offered.

* `shortest` writes the fewest digits that read back as the number; among those the digits
  nearest to it, and of two equally near the larger.  The notation is always positional,
  and a whole number has no fractional part.
* `fixed` writes a given number of decimal places; a half goes to the even neighbour.
-/

namespace Leveling

namespace Decimal

/-- What the bits of a floating-point number say. -/
inductive Reading where
  /-- No number. -/
  | undefined
  /-- An infinity. -/
  | infinite (negative : Bool)
  /-- The number `mantissa * 2 ^ exponent`, with its sign.  The flag `edge` marks the numbers
  whose lower neighbour is nearer than the upper one. -/
  | finite (negative : Bool) (mantissa : Nat) (exponent : Int) (edge : Bool)

/-- The number that the bits stand for. -/
def Reading.ofBits (bits : Nat) : Reading :=
  let negative := bits / Nat.pow 2 63 % 2 == 1
  let field : Nat := bits / Nat.pow 2 52 % Nat.pow 2 11
  let fraction : Nat := bits % Nat.pow 2 52
  if field = 2047 then
    if fraction = 0 then .infinite negative else .undefined
  else if field = 0 then
    .finite negative fraction (-1074) false
  else
    .finite negative (Nat.pow 2 52 + fraction) ((field : Int) - 1075) (fraction == 0 && field != 1)

/-- The number of decimal digits of a natural number; none for zero. -/
def digitCount (n : Nat) : Nat := if n = 0 then 0 else (Nat.toDigits 10 n).length

/-- A positive fraction with the two ends of the interval of fractions that read back as it, all
over one denominator, and whether the ends belong to the interval. -/
structure Target where
  value : Nat
  low : Nat
  high : Nat
  denominator : Nat
  closed : Bool

/-- The reading interval of the number `m * 2 ^ q`: half way to each neighbour. -/
def Target.of (m : Nat) (q : Int) (edge : Bool) : Target :=
  let scale := Nat.pow 2 (q - 2).toNat
  { value := 4 * m * scale
    low := (4 * m - (if edge then 1 else 2)) * scale
    high := (4 * m + 2) * scale
    denominator := Nat.pow 2 (2 - q).toNat
    closed := m % 2 == 0 }

/-- The position of the decimal point: the least `p` with `value / denominator < 10 ^ p`. -/
def Target.pointPosition (t : Target) : Int :=
  if t.denominator ≤ t.value then
    (digitCount (t.value / t.denominator) : Int)
  else
    1 - (digitCount ((t.denominator + t.value - 1) / t.value - 1) : Int)

/-- Whether the decimal `n * 10 ^ x` reads back as the number. -/
def Target.reads (t : Target) (n : Nat) (x : Int) : Bool :=
  let point := n * Nat.pow 10 x.toNat * t.denominator
  let factor := Nat.pow 10 (-x).toNat
  if t.closed then t.low * factor ≤ point && point ≤ t.high * factor
  else t.low * factor < point && point < t.high * factor

/-- The digits that stand for the number on the grid of step `10 ^ x`, if any does: one of its two
neighbours on the grid, the nearer one if both read back, and the upper one if they are equally
near. -/
def Target.onGrid (t : Target) (x : Int) : Option Nat :=
  let unit := Nat.pow 10 x.toNat * t.denominator
  let scaled := t.value * Nat.pow 10 (-x).toNat
  let below := scaled / unit
  let lower := t.reads below x
  let upper := t.reads (below + 1) x
  if lower && (!upper || 2 * (scaled - below * unit) < unit) then some below
  else if upper then some (below + 1)
  else none

/-- The digits and the exponent of the first grid that holds a decimal which reads back, where the
grids are tried from `digits` digits on, `tries` of them at most. -/
def Target.search (t : Target) (p : Int) : (tries digits : Nat) → Nat × Int
  | 0, digits => (t.value / t.denominator, p - digits)
  | tries + 1, digits =>
    match t.onGrid (p - digits) with
    | some n => (n, p - digits)
    | none => t.search p tries (digits + 1)

/-- The text without its trailing zeros. -/
def dropTrailingZeros (text : List Char) : List Char :=
  (text.reverse.dropWhile (· == '0')).reverse

/-- The digits of `n` with the last `places` of them behind the point. -/
def splitPlaces (n places : Nat) : List Char × List Char :=
  let digits := Nat.toDigits 10 n
  let padded := List.replicate (places + 1 - digits.length) '0' ++ digits
  (padded.take (padded.length - places), padded.drop (padded.length - places))

/-- The positional text of `n * 10 ^ x`. -/
def positional (n : Nat) (x : Int) : List Char :=
  let (whole, fraction) := splitPlaces (n * Nat.pow 10 x.toNat) (-x).toNat
  let fraction := dropTrailingZeros fraction
  if fraction.isEmpty then whole else whole ++ '.' :: fraction

/-- The nearest whole number to `numerator / denominator`; a half goes to the even neighbour. -/
def roundToEven (numerator denominator : Nat) : Nat :=
  let below := numerator / denominator
  let rest := 2 * (numerator % denominator)
  if rest < denominator || (rest == denominator && below % 2 == 0) then below else below + 1

/-- A text with its sign in front. -/
def signed (negative : Bool) (text : List Char) : String :=
  String.ofList (if negative then '-' :: text else text)

/-- The fewest digits that read back as the number. -/
def shortest (x : Float) : String :=
  match Reading.ofBits x.toBits.toNat with
  | .undefined => "NaN"
  | .infinite negative => signed negative ['i', 'n', 'f']
  | .finite negative m q edge =>
    if m = 0 then signed negative ['0'] else
      let t := Target.of m q edge
      let (n, x) := t.search t.pointPosition 17 1
      signed negative (positional n x)

/-- The number with `places` decimal places. -/
def fixed (places : Nat) (x : Float) : String :=
  match Reading.ofBits x.toBits.toNat with
  | .undefined => "NaN"
  | .infinite negative => signed negative ['i', 'n', 'f']
  | .finite negative m q _ =>
    let n := roundToEven (m * Nat.pow 2 q.toNat * Nat.pow 10 places) (Nat.pow 2 (-q).toNat)
    let (whole, fraction) := splitPlaces n places
    signed negative (if places = 0 then whole else whole ++ '.' :: fraction)

end Decimal

end Leveling
