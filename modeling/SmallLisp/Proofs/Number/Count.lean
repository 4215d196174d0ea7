import SmallLisp.Native.Operation
import SmallLisp.Proofs.Number.Integer

/-!
# Counts

The language counts the items of a sequence in doubles, and doubles have no room for every natural
number. A comparison of a count with nought or one still tells what it should: from two on, the
double nearest a count lies above one, and past the last double lies infinity.

## Main results

* `Binary64.compare_ofNat`: the double nearest a count of two or more lies above zero and one
* `Operation.run_greater_zero`, `Operation.run_greater_one`, `Operation.run_equal_one`: what the
  comparisons of a count tell
-/

namespace SmallLisp

namespace Binary64

open Float.Model (UnpackedFloat)
open Float.Model.UnpackedFloat (unpackSign unpackExponent)

/-- The bits of the double nearest a number of two or more lie between those of two and those of
infinity. -/
theorem exists_bits_ofNat {n : Nat} (two : 2 ≤ n) :
    ∃ b : UInt64, ofNat n = Float.ofBits b ∧ 1024 * 2 ^ 52 ≤ b.toNat ∧
      b.toNat ≤ 2047 * 2 ^ 52 := by
  have size : 1 ≤ n.log2 := (Nat.le_log2 (by omega)).mpr two
  rw [ofNat, if_neg (by omega)]
  dsimp only
  generalize (if n.log2 ≤ 52 then n * Nat.pow 2 (52 - n.log2) else
    shiftRightToEven n (n.log2 - 52)) = significand
  -- Only the exponent counts: whatever the significand is, it adds to the bits.
  have least : 1024 * 2 ^ 52 ≤ packBits significand n.log2 := by
    have ofExponent : 1024 * 2 ^ 52 ≤ (n.log2 + 1023) * 2 ^ 52 :=
      Nat.mul_le_mul_right _ (by omega)
    apply Nat.le_min.mpr
    exact ⟨Nat.le_trans ofExponent (Nat.le_add_right _ _), Nat.mul_le_mul_right _ (by decide)⟩
  have most : packBits significand n.log2 ≤ 2047 * 2 ^ 52 := Nat.min_le_right _ _
  have bits : (UInt64.ofNat (packBits significand n.log2)).toNat =
      packBits significand n.log2 := by
    apply UInt64.toNat_ofNat_of_lt
    change _ < 2 ^ 64
    omega
  refine ⟨_, rfl, ?_⟩
  rw [bits]
  exact ⟨least, most⟩

/-- Bits of a positive number that is neither tiny nor infinite stand for a significand at the
exponent that they name. -/
theorem unpack_ofBits {b : UInt64} (least : 2 ^ 52 ≤ b.toNat) (most : b.toNat < 2047 * 2 ^ 52) :
    ∃ mantissa positive, (Float.ofBits b).toModel.unpack =
      .finite .positive mantissa (b.toNat / 2 ^ 52 - 1075 : Int) positive := by
  have finite : FiniteBits b := by
    rw [FiniteBits]
    omega
  -- The sign is the highest bit, and the exponent the eleven bits below it.
  have sign : unpackSign (word b) = 0#1 := by
    apply BitVec.eq_of_toNat_eq
    apply (toNat_unpackSign (word b)).trans
    apply Nat.div_eq_of_lt
    change b.toNat < _
    omega
  have exponent : (unpackExponent (word b)).toNat = b.toNat / 2 ^ 52 := by
    rw [toNat_unpackExponent]
    change b.toNat / 2 ^ 52 % 2 ^ 11 = _
    omega
  have normal : unpackExponent (word b) ≠ 0#_ := by
    intro same
    rw [same] at exponent
    have tiny : 0 = b.toNat / 2 ^ 52 := exponent
    omega
  have bits : (Float.ofBits b).toModel.unpack = UnpackedFloat.unpack .binary64 (word b) := by
    have bits : (Float.ofBits b).toModel.toBits = b := toBits_ofBits finite
    rw [Float.Model.unpack, bits]
    rfl
  rw [bits, UnpackedFloat.unpack, sign, if_neg finite.unpackExponent_ne, if_neg normal, exponent]
  exact ⟨_, _, rfl⟩

/-- The double nearest a count of two or more lies above zero and above one. -/
theorem compare_ofNat {n : Nat} (two : 2 ≤ n) :
    (ofNat 0).toModel.unpack.compare (ofNat n).toModel.unpack = some .lt ∧
      (ofNat 1).toModel.unpack.compare (ofNat n).toModel.unpack = some .lt := by
  obtain ⟨b, nearest, least, most⟩ := exists_bits_ofNat two
  have isZero : (ofNat 0).toModel.unpack = .zero .positive := by rfl
  have isOne : (ofNat 1).toModel.unpack = .finite .positive (2 ^ 52) (-52) (by decide) := by rfl
  rw [nearest, isZero, isOne]
  -- Two finite numbers are told apart by their exponents; above them all lies infinity.
  rcases Nat.lt_or_eq_of_le most with below | top
  · obtain ⟨mantissa, positive, unpacked⟩ := unpack_ofBits (by omega) below
    have larger : compare (-52) (b.toNat / 2 ^ 52 - 1075 : Int) = .lt := by
      rw [Int.compare_eq_lt]
      omega
    rw [unpacked]
    refine ⟨rfl, ?_⟩
    change some ((compare (-52) (b.toNat / 2 ^ 52 - 1075 : Int)).then _) = _
    rw [larger]
    rfl
  · have isInfinity : b = 0x7FF0000000000000 := UInt64.toNat_inj.mp top
    rw [isInfinity]
    constructor <;> decide

theorem lt_of_compare {x y : Float}
    (less : x.toModel.unpack.compare y.toModel.unpack = some .lt) : x < y := by
  change decide ((x.toModel.unpack.compare y.toModel.unpack == some .lt) = true) = true
  rw [less]
  rfl

theorem beq_eq_false_of_compare {x y : Float}
    (less : x.toModel.unpack.compare y.toModel.unpack = some .lt) : (x == y) = false := by
  change (x.toModel.unpack.compare y.toModel.unpack == some .eq) = false
  rw [less]
  rfl

end Binary64

namespace Operation

theorem run_greater_zero (n : Nat) :
    run .greater [countValue n, countValue 0] = .ok (.bool (decide (0 < n))) := by
  rcases n with _ | _ | n
  · rfl
  · rfl
  · have less := Binary64.lt_of_compare (Binary64.compare_ofNat (n := n + 2) (by omega)).1
    change Except.ok (Value.bool (decide (Binary64.ofNat 0 < Binary64.ofNat (n + 2)))) = _
    rw [decide_eq_true less, decide_eq_true (by omega)]

theorem run_greater_one (n : Nat) :
    run .greater [countValue n, countValue 1] = .ok (.bool (decide (1 < n))) := by
  rcases n with _ | _ | n
  · rfl
  · rfl
  · have less := Binary64.lt_of_compare (Binary64.compare_ofNat (n := n + 2) (by omega)).2
    change Except.ok (Value.bool (decide (Binary64.ofNat 1 < Binary64.ofNat (n + 2)))) = _
    rw [decide_eq_true less, decide_eq_true (by omega)]

theorem run_equal_one (n : Nat) :
    run .equal [countValue 1, countValue n] = .ok (.bool (decide (n = 1))) := by
  rcases n with _ | _ | n
  · rfl
  · rfl
  · have differs : (countValue 1 == countValue (n + 2)) = false := by
      change Value.equal (.number (Binary64.ofNat 1)) (.number (Binary64.ofNat (n + 2))) = false
      rw [Value.equal, Value.number?, Option.any_some]
      exact Binary64.beq_eq_false_of_compare (Binary64.compare_ofNat (by omega)).2
    change Except.ok (Value.bool (countValue 1 == countValue (n + 2))) = _
    rw [differs, decide_eq_false (by omega)]

end Operation

end SmallLisp
