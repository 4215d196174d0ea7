import Mathlib
import SmallLisp.Number.Text

/-!
# The bits of a double

A double is packed into bits from a sign, an exponent and a significand. Negation changes the bit of
the sign only. Two doubles with the same bits are the same, and a double that is a number is equal
to itself.

The facts about doubles on which this rests come with the library as a whole and with none of its
parts, so this is the one module that imports it whole.

## Main definitions

* `Binary64.FiniteBits`: bits that stand for a number

## Main results

* `Binary64.toBits_ofBits`, `Binary64.toBits_neg`: the bits of a double and of its negation
* `Binary64.toNat_toBits`: the bits of a double are those of its parts
-/

namespace SmallLisp

namespace Binary64

open Float.Model (UnpackedFloat Format)
open Float.Model.UnpackedFloat (Sign packComponents unpackSign unpackExponent unpackMantissa
  isNaNBits pack_unpack unpackSign_packComponents unpackExponent_packComponents
  unpackMantissa_packComponents)

/-! ### The parts of a double -/

theorem toNat_unpackMantissa (b : BitVec Format.binary64.numBits) :
    (unpackMantissa b).toNat = b.toNat % 2 ^ 52 := by
  simp [unpackMantissa, BitVec.extractLsb_toNat]

theorem toNat_unpackExponent (b : BitVec Format.binary64.numBits) :
    (unpackExponent b).toNat = b.toNat / 2 ^ 52 % 2 ^ 11 := by
  simp [unpackExponent, BitVec.extractLsb_toNat, Nat.shiftRight_eq_div_pow]

theorem toNat_unpackSign (b : BitVec Format.binary64.numBits) :
    (unpackSign b).toNat = b.toNat / 2 ^ 63 := by
  have bound : b.toNat < 2 ^ 64 := b.isLt
  simp [unpackSign, BitVec.extractLsb_toNat, Nat.shiftRight_eq_div_pow]
  omega

theorem toNat_packComponents (sign : Sign) (exponent : BitVec 11) (mantissa : BitVec 52) :
    (packComponents .binary64 sign exponent mantissa).toNat =
      sign.toBitVec.toNat * 2 ^ 63 + exponent.toNat * 2 ^ 52 + mantissa.toNat := by
  change (sign.toBitVec ++ exponent ++ mantissa).toNat = _
  rw [BitVec.toNat_append, BitVec.toNat_append, ← Nat.shiftLeft_add_eq_or_of_lt mantissa.isLt,
    ← Nat.shiftLeft_add_eq_or_of_lt exponent.isLt, Nat.shiftLeft_eq, Nat.shiftLeft_eq]
  omega

theorem pack_unpack_of_exponent {b : BitVec Format.binary64.numBits}
    (finite : unpackExponent b ≠ -1#_) :
    UnpackedFloat.pack .binary64 (UnpackedFloat.unpack .binary64 b) = b := by
  have isNumber : ¬ isNaNBits b = true := fun isNaN => finite (of_decide_eq_true isNaN).1
  rw [pack_unpack b (by decide), if_neg isNumber]

/-- The negation of a number has the parts of that number but for the sign. -/
theorem neg_unpack (b : BitVec Format.binary64.numBits) :
    (UnpackedFloat.unpack .binary64 b).neg = UnpackedFloat.unpack .binary64
      (packComponents .binary64 (-Sign.ofBitVec (unpackSign b)) (unpackExponent b)
        (unpackMantissa b)) := by
  unfold UnpackedFloat.unpack
  simp only [unpackSign_packComponents, unpackExponent_packComponents,
    unpackMantissa_packComponents, Sign.ofBitVec_toBitVec]
  split
  · split <;> rfl
  · split
    · split <;> rfl
    · rfl

/-! ### The bits of a double -/

/-- Bits as a word of the format. -/
def word (b : UInt64) : BitVec Format.binary64.numBits := b.toBitVec

/-- Bits that stand for a number, and not for an infinity or no number at all. -/
def FiniteBits (b : UInt64) : Prop := b.toNat / 2 ^ 52 % 2 ^ 11 ≠ 2047

theorem FiniteBits.unpackExponent_ne {b : UInt64} (finite : FiniteBits b) :
    unpackExponent (word b) ≠ -1#_ := by
  intro same
  apply finite
  have isExponent := toNat_unpackExponent (word b)
  rw [same] at isExponent
  exact isExponent.symm

theorem toBits_ofBits {b : UInt64} (finite : FiniteBits b) : (Float.ofBits b).toBits = b :=
  congrArg UInt64.ofBitVec (pack_unpack_of_exponent finite.unpackExponent_ne)

/-- The negation of a positive number has the same bits but for the sign. -/
theorem toBits_neg {b : UInt64} (finite : FiniteBits b) (positive : b.toNat < 2 ^ 63) :
    (Float.neg (Float.ofBits b)).toBits.toNat = 2 ^ 63 + b.toNat := by
  have sign : unpackSign (word b) = 0#1 := by
    apply BitVec.eq_of_toNat_eq
    exact (toNat_unpackSign (word b)).trans (Nat.div_eq_of_lt positive)
  have negated : UnpackedFloat.pack .binary64 (UnpackedFloat.unpack .binary64 (word b)).neg =
      packComponents .binary64 .negative (unpackExponent (word b)) (unpackMantissa (word b)) := by
    rw [neg_unpack, pack_unpack_of_exponent, sign]
    · rfl
    · rw [unpackExponent_packComponents]
      exact finite.unpackExponent_ne
  have bits : (Float.ofBits b).toModel.toBits = b := toBits_ofBits finite
  have unpacked : (Float.ofBits b).toModel.unpack = UnpackedFloat.unpack .binary64 (word b) := by
    rw [Float.Model.unpack, bits]
    rfl
  change (UnpackedFloat.pack .binary64 (Float.ofBits b).toModel.unpack.neg).toNat = _
  rw [unpacked, negated, toNat_packComponents, toNat_unpackExponent, toNat_unpackMantissa]
  change 1 * 2 ^ 63 + b.toNat / 2 ^ 52 % 2 ^ 11 * 2 ^ 52 + b.toNat % 2 ^ 52 = 2 ^ 63 + b.toNat
  omega

theorem leadingBit_eq : leadingBit = 2 ^ 52 := rfl

/-- The bits of a double are those of its sign, exponent and significand. -/
theorem toNat_toBits (x : Float) :
    x.toBits.toNat =
      (if isNegative x then 2 ^ 63 else 0) + biasedExponent x * 2 ^ 52 + fraction x := by
  have bound : x.toBits.toNat < 2 ^ 64 := x.toBits.toNat_lt
  have top : x.toBits.toNat / 2 ^ 63 = 0 ∨ x.toBits.toNat / 2 ^ 63 = 1 := by omega
  rw [isNegative, biasedExponent, fraction, leadingBit_eq, Nat.pow_eq, Nat.pow_eq]
  rcases top with top | top
  · rw [top]
    simp only [Nat.reduceBEq, Bool.false_eq_true, if_false]
    omega
  · rw [top]
    simp only [beq_self_eq_true, if_true]
    omega

theorem beq_self_of_finite {x : Float} (finite : biasedExponent x ≠ 2047) : (x == x) = true := by
  rw [Float.beq_self_iff]
  rintro rfl
  exact finite (by decide)

end Binary64

end SmallLisp
