/-!
# Doubles as exact numbers

A finite double is a signed integer significand times a power of two. This file reads that
form off the sixty-four bits of a `Float`, and goes the other way for natural numbers, so
that everything the language does with the *text* of a number is exact integer arithmetic.

## Main definitions

* `Binary64.Datum`: what a double stands for: a signed significand and exponent, an
  infinity, or no number at all
* `Binary64.decode`: the datum of a double
* `Binary64.ofNat`: the double nearest a natural number, ties going to the even significand
* `Binary64.integer?`: the integer a double is equal to, if it is one
-/

namespace SmallLisp.Binary64

/-- What a double stands for. `finite negative significand exponent` is the number
`± significand · 2 ^ exponent`; the sign is kept apart because zero has one too. -/
inductive Datum where
  | finite (negative : Bool) (significand : Nat) (exponent : Int)
  | infinite (negative : Bool)
  | notANumber
  deriving DecidableEq, Repr

/-- The leading bit of a significand, `2 ^ 52`, which is not stored. -/
def leadingBit : Nat := Nat.pow 2 52

/-- The sign bit. -/
def isNegative (x : Float) : Bool := x.toBits.toNat / Nat.pow 2 63 == 1

/-- The eleven bits of the biased exponent. -/
def biasedExponent (x : Float) : Nat := x.toBits.toNat / leadingBit % Nat.pow 2 11

/-- The fifty-two stored bits of the significand. -/
def fraction (x : Float) : Nat := x.toBits.toNat % leadingBit

/-- The datum a double encodes: the largest biased exponent is kept for infinities and
not-a-number, the smallest for the subnormal numbers, which lack the implicit leading bit. -/
def decode (x : Float) : Datum :=
  if biasedExponent x = 2047 then
    if fraction x = 0 then .infinite (isNegative x) else .notANumber
  else if biasedExponent x = 0 then
    .finite (isNegative x) (fraction x) (-1074)
  else
    .finite (isNegative x) (leadingBit + fraction x) ((biasedExponent x : Int) - 1075)

/-- Whether a significand at exponent `exponent` is the least one of its binade, below which
the doubles lie twice as close. -/
def isBinadeStart (significand : Nat) (exponent : Int) : Bool :=
  significand == leadingBit && decide (-1074 < exponent)

/-- Divides by `2 ^ shift`, rounding to the nearest quotient and ties to the even one. -/
def shiftRightToEven (n shift : Nat) : Nat :=
  let quotient := n / Nat.pow 2 shift
  let remainder := n % Nat.pow 2 shift
  if 2 * remainder < Nat.pow 2 shift then quotient
  else if Nat.pow 2 shift < 2 * remainder then quotient + 1
  else quotient + quotient % 2

/-- The bits of the positive double with significand `significand` (at most `2 ^ 53`, at
least `2 ^ 52`) in the binade of `2 ^ exponent`. A significand rounded up to `2 ^ 53` carries
into the exponent by itself, and past the last binade lies infinity. -/
def packBits (significand exponent : Nat) : Nat :=
  min ((exponent + 1023) * leadingBit + (significand - leadingBit)) (2047 * leadingBit)

/-- The double nearest `n`. -/
def ofNat (n : Nat) : Float :=
  if n = 0 then Float.ofBits 0
  else
    let exponent := n.log2
    let significand :=
      if exponent ≤ 52 then n * Nat.pow 2 (52 - exponent) else shiftRightToEven n (exponent - 52)
    Float.ofBits (UInt64.ofNat (packBits significand exponent))

/-- The double nearest `-n`; for zero this is negative zero. -/
def ofNegatedNat (n : Nat) : Float :=
  Float.neg (ofNat n)

/-- The integer with the given sign and magnitude. -/
def signedInteger (negative : Bool) (magnitude : Nat) : Int :=
  if negative then -(magnitude : Int) else magnitude

/-- The integer a datum is equal to; `none` for fractions, infinities and not-a-number. -/
def Datum.integer? : Datum → Option Int
  | .finite negative significand (.ofNat exponent) =>
    some (signedInteger negative (significand * Nat.pow 2 exponent))
  | .finite negative significand (.negSucc exponent) =>
    if significand % Nat.pow 2 (exponent + 1) = 0 then
      some (signedInteger negative (significand / Nat.pow 2 (exponent + 1)))
    else none
  | .infinite _ => none
  | .notANumber => none

/-- The integer a double is equal to, if it is one. Both zeros give `0`. -/
def integer? (x : Float) : Option Int := (decode x).integer?

theorem fraction_lt (x : Float) : fraction x < leadingBit :=
  Nat.mod_lt _ (by decide)

end SmallLisp.Binary64
