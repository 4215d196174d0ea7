import SmallLisp.Proofs.Number.Bits

/-!
# Integers as doubles

An integer of moderate size has one double that is equal to it, but for the sign of zero. So the
digits that such a double is printed as denote the double again: the bits of the double nearest an
integer are those of the double that is the integer.

## Main definitions

* `Binary64.ofInteger`: the double nearest an integer

## Main results

* `Binary64.parts_of_integer?`: what a double is made of that is an integer
* `Binary64.ofInteger_beq`: a double that is an integer of moderate size is the nearest one to it
* `Number.ofText?_integerText`: the text of an integer denotes the double nearest it
-/

namespace SmallLisp

namespace Binary64

theorem natAbs_signedInteger (negative : Bool) (magnitude : Nat) :
    (signedInteger negative magnitude).natAbs = magnitude := by
  cases negative <;> simp [signedInteger]

/-- A significand that has its leading bit, divided by a power of two, is as much shorter. -/
theorem log2_of_mul_pow {magnitude : Nat} (shift : Nat) (positive : 0 < magnitude)
    (least : 2 ^ 52 ≤ magnitude * 2 ^ shift) (most : magnitude * 2 ^ shift < 2 ^ 53) :
    shift ≤ 52 ∧ magnitude.log2 = 52 - shift := by
  have short : shift ≤ 52 := by
    refine Nat.le_of_not_lt fun long => ?_
    have larger : 2 ^ 53 ≤ 2 ^ shift := Nat.pow_le_pow_right (by decide) long
    have : 2 ^ shift ≤ magnitude * 2 ^ shift := Nat.le_mul_of_pos_left _ positive
    omega
  have split (whole : Nat) (fits : shift ≤ whole) :
      2 ^ whole = 2 ^ (whole - shift) * 2 ^ shift := by
    rw [← Nat.pow_add, Nat.sub_add_cancel fits]
  rw [split 52 short] at least
  rw [split 53 (by omega)] at most
  have enough : 2 ^ (52 - shift) ≤ magnitude :=
    Nat.le_of_mul_le_mul_right least (Nat.two_pow_pos shift)
  have notMore : magnitude < 2 ^ (52 - shift + 1) := by
    have next : 52 - shift + 1 = 53 - shift := by omega
    rw [next]
    exact Nat.lt_of_mul_lt_mul_right most
  exact ⟨short, (Nat.log2_eq_iff (by omega)).mpr ⟨enough, notMore⟩⟩

theorem fraction_mod (x : Float) {places : Nat} (many : 52 ≤ places) :
    fraction x % Nat.pow 2 places = fraction x :=
  Nat.mod_eq_of_lt (Nat.lt_of_lt_of_le (fraction_lt x) (Nat.pow_le_pow_right (by decide) many))

/-- What a double is made of that is an integer: zero has neither exponent nor significand, and the
magnitude of any other integer of moderate size is the significand but for zeros at its end. -/
theorem parts_of_integer? {x : Float} {n : Int} (isInteger : integer? x = some n) :
    biasedExponent x ≠ 2047 ∧
    (biasedExponent x = 0 ∧ fraction x = 0 ∧ n = 0 ∨
      ∃ magnitude, n = signedInteger (isNegative x) magnitude ∧ 0 < magnitude ∧
        (2 ^ 52 ≤ magnitude ∨ ∃ shift, biasedExponent x + shift = 1075 ∧
          magnitude * 2 ^ shift = 2 ^ 52 + fraction x)) := by
  rw [integer?, decode] at isInteger
  split at isInteger
  · split at isInteger <;> cases isInteger
  rename_i notTop
  refine ⟨notTop, ?_⟩
  split at isInteger
  · -- Below the smallest normal number there is no integer but zero.
    rename_i isBottom
    obtain ⟨places, many, below⟩ : ∃ places, 51 ≤ places ∧ (-1074 : Int) = Int.negSucc places :=
      ⟨1073, by decide, rfl⟩
    rw [below, Datum.integer?, fraction_mod x (by omega)] at isInteger
    split at isInteger
    · rename_i isZero
      rw [isZero, Nat.zero_div] at isInteger
      cases isInteger
      exact .inl ⟨isBottom, isZero, by cases isNegative x <;> rfl⟩
    · cases isInteger
  · right
    rcases Nat.lt_or_ge (biasedExponent x) 1075 with below | above
    · obtain ⟨shift, isShift⟩ : ∃ shift, 1075 = biasedExponent x + (shift + 1) :=
        ⟨1074 - biasedExponent x, by omega⟩
      have exponent : (biasedExponent x : Int) - 1075 = Int.negSucc shift := by omega
      rw [exponent, Datum.integer?] at isInteger
      split at isInteger
      · rename_i divides
        cases isInteger
        have significand : (leadingBit + fraction x) / Nat.pow 2 (shift + 1) * 2 ^ (shift + 1) =
            2 ^ 52 + fraction x := Nat.div_mul_cancel (Nat.dvd_of_mod_eq_zero divides)
        refine ⟨_, rfl, Nat.pos_of_ne_zero fun isZero => ?_, .inr ⟨shift + 1, isShift.symm, ?_⟩⟩
        · rw [isZero] at significand
          omega
        · exact significand
      · cases isInteger
    · obtain ⟨shift, isShift⟩ : ∃ shift, biasedExponent x = 1075 + shift :=
        ⟨biasedExponent x - 1075, by omega⟩
      have exponent : (biasedExponent x : Int) - 1075 = Int.ofNat shift := by
        rw [isShift, Int.ofNat_eq_natCast]
        omega
      rw [exponent, Datum.integer?] at isInteger
      cases isInteger
      have large : 2 ^ 52 + fraction x ≤ (leadingBit + fraction x) * Nat.pow 2 shift :=
        Nat.le_mul_of_pos_right _ (Nat.two_pow_pos shift)
      exact ⟨_, rfl, by omega, .inl (by omega)⟩

/-- The bits of an integer of moderate size other than zero, but for the sign, are those of the
double nearest its magnitude. -/
theorem packBits_of_parts {x : Float} {magnitude shift : Nat} (positive : 0 < magnitude)
    (exponent : biasedExponent x + shift = 1075)
    (significand : magnitude * 2 ^ shift = 2 ^ 52 + fraction x) :
    magnitude.log2 ≤ 52 ∧ packBits (magnitude * Nat.pow 2 (52 - magnitude.log2)) magnitude.log2 =
      biasedExponent x * 2 ^ 52 + fraction x := by
  have stored : fraction x < 2 ^ 52 := fraction_lt x
  obtain ⟨short, size⟩ := log2_of_mul_pow shift positive (by omega) (by omega)
  have shifted : magnitude * Nat.pow 2 (52 - (52 - shift)) = 2 ^ 52 + fraction x := by
    rw [← significand, Nat.sub_sub_self short, Nat.pow_eq]
  have biased : 52 - shift + 1023 = biasedExponent x := by omega
  have bound : biasedExponent x ≤ 2046 := by omega
  refine ⟨by omega, ?_⟩
  rw [size, packBits, shifted, leadingBit_eq, biased, Nat.add_sub_cancel_left, Nat.min_eq_left]
  omega

/-- The double nearest an integer; zero is positive. -/
def ofInteger (n : Int) : Float := if n < 0 then ofNegatedNat n.natAbs else ofNat n.natAbs

/-- The double nearest a magnitude has the bits that a double with these parts has without its
sign. -/
theorem ofNat_of_parts {x : Float} {magnitude shift : Nat} (positive : 0 < magnitude)
    (exponent : biasedExponent x + shift = 1075)
    (significand : magnitude * 2 ^ shift = 2 ^ 52 + fraction x) :
    ofNat magnitude = Float.ofBits (UInt64.ofNat (biasedExponent x * 2 ^ 52 + fraction x)) := by
  obtain ⟨size, packed⟩ := packBits_of_parts positive exponent significand
  rw [ofNat, if_neg (by omega)]
  simp only [if_pos size, packed]

/-- A double that is an integer of moderate size is equal to the double nearest that integer. -/
theorem ofInteger_beq {x : Float} {n : Int} (isInteger : integer? x = some n)
    (small : n.natAbs < 2 ^ 52) : (ofInteger n == x) = true := by
  obtain ⟨notTop, ⟨isBottom, noFraction, rfl⟩ | ⟨magnitude, rfl, positive, large | ⟨shift, exponent,
    significand⟩⟩⟩ := parts_of_integer? isInteger
  · -- Both zeros are equal to the positive one.
    have bits := toNat_toBits x
    rw [isBottom, noFraction] at bits
    have isZero : ofInteger 0 = Float.ofBits 0 := rfl
    rw [isZero, ← Float.ofBits_toBits x]
    cases sign : isNegative x with
    | false =>
      have bits : x.toBits = 0 := UInt64.toNat_inj.mp (by simpa [sign] using bits)
      rw [bits]
      decide
    | true =>
      have bits : x.toBits = 0x8000000000000000 := UInt64.toNat_inj.mp (by simpa [sign] using bits)
      rw [bits]
      decide
  · rw [natAbs_signedInteger] at small
    omega
  · have bits := toNat_toBits x
    have stored : fraction x < 2 ^ 52 := fraction_lt x
    let b := UInt64.ofNat (biasedExponent x * 2 ^ 52 + fraction x)
    have isMagnitude : b.toNat = biasedExponent x * 2 ^ 52 + fraction x := by
      refine UInt64.toNat_ofNat_of_lt ?_
      change _ < 2 ^ 64
      omega
    have nearest : ofNat magnitude = Float.ofBits b := ofNat_of_parts positive exponent significand
    have same : ofInteger (signedInteger (isNegative x) magnitude) = x := by
      rw [ofInteger, natAbs_signedInteger, ofNegatedNat, nearest]
      cases sign : isNegative x with
      | false =>
        have notLess : ¬ signedInteger false magnitude < 0 := by simp [signedInteger]
        have bits : b = x.toBits := UInt64.toNat_inj.mp (by simp [isMagnitude, bits, sign])
        rw [if_neg notLess, bits, Float.ofBits_toBits]
      | true =>
        have less : signedInteger true magnitude < 0 := by simp [signedInteger, positive]
        have finiteMagnitude : FiniteBits b := by
          rw [FiniteBits, isMagnitude]
          omega
        rw [if_pos less]
        refine Float.toBits_inj.mp (UInt64.toNat_inj.mp ?_)
        rw [toBits_neg finiteMagnitude (by omega), isMagnitude, bits, sign, if_pos rfl,
          Nat.add_assoc]
    rw [same]
    exact beq_self_of_finite notTop

end Binary64

namespace Number

/-- The text of an integer denotes the double nearest it. -/
theorem ofText?_integerText (n : Int) :
    ofText? (integerText n).toList = some (Binary64.ofInteger n) := by
  have digits : (Nat.repr n.natAbs).toList = Nat.toDigits 10 n.natAbs := by
    rw [Nat.repr, String.toList_ofList]
  by_cases less : n < 0
  · have signed : (integerText n).toList = '-' :: Nat.toDigits 10 n.natAbs := by
      rw [integerText, withSign, if_pos (decide_eq_true less), String.toList_append, digits]
      rfl
    rw [signed, ofText?, if_pos (isDigits_toDigits _), Binary64.ofInteger, if_pos less,
      Nat.ofDigitChars_toDigits (by decide) (by decide)]
  · have unsigned : (integerText n).toList = Nat.toDigits 10 n.natAbs := by
      rw [integerText, withSign, decide_eq_false less, if_neg Bool.false_ne_true, digits]
    rw [unsigned, ofText?_toDigits, Binary64.ofInteger, if_neg less]

end Number

end SmallLisp
