import SmallLisp.Number.Binary64

/-!
# The shortest decimal that reads back

Among all decimals that round to a given double, the shortest are those with the fewest
significant digits, and of these the one nearest the double is chosen. The search is exact:
the double is a fraction of natural numbers, the decimals that round to it form an interval
around it, and for one, two, … seventeen digits the two neighbours of the double on the grid
of that many digits are tested against the interval.

## Main definitions

* `Decimal`: a natural number of units at a power of ten
* `Shortest.Interval`: a positive double as a fraction, with the bounds of what rounds to it
* `Shortest.decimal`: the shortest decimal of a positive finite double
-/

namespace SmallLisp

/-- The number `digits · 10 ^ exponent`. -/
structure Decimal where
  digits : Nat
  exponent : Int
  deriving DecidableEq, Repr

namespace Decimal

/-- Drops up to `limit` trailing zeros of the digits, leaving the number the same. -/
def trimZeros : Nat → Decimal → Decimal
  | 0, number => number
  | limit + 1, number =>
    if number.digits % 10 = 0 ∧ number.digits ≠ 0 then
      trimZeros limit ⟨number.digits / 10, number.exponent + 1⟩
    else number

end Decimal

namespace Shortest

/-- A positive double and the numbers that round to it, all over one denominator:
`value / unit` is the double, `lower / unit` and `upper / unit` are the midpoints to its
neighbours, and these belong to the interval when `closed`. -/
structure Interval where
  lower : Nat
  value : Nat
  upper : Nat
  unit : Nat
  closed : Bool
  deriving Repr

/-- The interval of the double `significand · 2 ^ exponent`. The lower neighbour of the first
double of a binade is only half as far away as the upper one, so the unit is a quarter of
the spacing. Ties between neighbours go to the even significand, which therefore owns both
midpoints. -/
def interval (significand : Nat) (exponent : Int) : Interval :=
  let below := if Binary64.isBinadeStart significand exponent then 1 else 2
  let scale := Nat.pow 2 exponent.toNat
  { lower := (4 * significand - below) * scale
    value := 4 * significand * scale
    upper := (4 * significand + 2) * scale
    unit := 4 * Nat.pow 2 (-exponent).toNat
    closed := significand % 2 == 0 }

/-- Whether `numerator / denominator` rounds to the double. -/
def Interval.contains (around : Interval) (numerator denominator : Nat) : Bool :=
  let scaled := numerator * around.unit
  if around.closed then
    decide (around.lower * denominator ≤ scaled ∧ scaled ≤ around.upper * denominator)
  else
    decide (around.lower * denominator < scaled ∧ scaled < around.upper * denominator)

/-- A decimal as a numerator over a denominator. -/
def numerator (number : Decimal) : Nat := number.digits * Nat.pow 10 number.exponent.toNat

@[inherit_doc numerator]
def denominator (number : Decimal) : Nat := Nat.pow 10 (-number.exponent).toNat

/-- Whether a decimal rounds to the double. -/
def Interval.admits (around : Interval) (number : Decimal) : Bool :=
  around.contains (numerator number) (denominator number)

/-- The greatest number of grid steps `10 ^ exponent` that is at most the double. -/
def Interval.gridFloor (around : Interval) (exponent : Int) : Nat :=
  around.value * Nat.pow 10 (-exponent).toNat / (around.unit * Nat.pow 10 exponent.toNat)

/-- Whether the double lies at or above the middle of the grid step that starts at
`steps · 10 ^ exponent`. -/
def Interval.isUpperHalf (around : Interval) (steps : Nat) (exponent : Int) : Bool :=
  decide ((2 * steps + 1) * (around.unit * Nat.pow 10 exponent.toNat)
    ≤ 2 * around.value * Nat.pow 10 (-exponent).toNat)

/-- The neighbour of the double on the grid of step `10 ^ exponent` that rounds to it: of two
the nearer, and the upper one when both are equally near. -/
def Interval.onGrid (around : Interval) (exponent : Int) : Option Decimal :=
  let steps := around.gridFloor exponent
  let low : Decimal := ⟨steps, exponent⟩
  let high : Decimal := ⟨steps + 1, exponent⟩
  match around.admits low, around.admits high with
  | true, true => some (if around.isUpperHalf steps exponent then high else low)
  | true, false => some low
  | false, true => some high
  | false, false => none

/-- The number of decimal digits before the point of `numerator / denominator`, when it is
at least one: the least `n` with `numerator < 10 ^ n · denominator`. -/
def integerDigits (numerator denominator : Nat) : Nat :=
  if numerator < denominator then 0 else (Nat.toDigits 10 (numerator / denominator)).length

/-- The least `p` with the double below `10 ^ p`. Below one, the zeros after the point are
counted on the reciprocal. -/
def Interval.decimalExponent (around : Interval) : Int :=
  if around.unit ≤ around.value then integerDigits around.value around.unit
  else
    let zeros := integerDigits (around.unit - 1) around.value
    1 - (zeros : Int)

/-- Tries the grids of ever more digits, the first having the step `10 ^ exponent`, and falls
back on the double's floor on the last grid. -/
def Interval.search (around : Interval) (exponent : Int) : Nat → Decimal
  | 0 => ⟨around.gridFloor exponent, exponent⟩
  | more + 1 =>
    match around.onGrid exponent with
    | some number => number
    | none => around.search (exponent - 1) more

/-- The shortest decimal that rounds to the positive double `significand · 2 ^ exponent`, and
of the shortest the nearest. Seventeen digits always suffice. -/
def decimal (significand : Nat) (exponent : Int) : Decimal :=
  let around := interval significand exponent
  (around.search (around.decimalExponent - 1) 17).trimZeros 17

end Shortest

end SmallLisp
