import SmallLisp.Number.Shortest

/-!
# The text of a number

Numbers are written without an exponent, whatever their size. The plain text of a double is
its shortest decimal in positional notation; the language's own printer writes integers of
moderate size as integers, which is where the sign of zero disappears. Only integers can be
read: an optional minus sign and decimal digits, of any length.

## Main definitions

* `Number.plainText`: the shortest decimal in positional notation
* `Number.render`: the text the language prints
* `Number.ofText?`: the number a text of decimal digits denotes

## Main results

* `Number.ofText?_toDigits`: the digits of a natural number denote that number
-/

namespace SmallLisp

namespace Decimal

/-- Positional notation: zeros are added on the right for a positive exponent, and on the
left of the point for a negative one. -/
def positional (number : Decimal) : String :=
  let digits := Nat.toDigits 10 number.digits
  let places := (-number.exponent).toNat
  if places = 0 then
    String.ofList (digits ++ List.replicate number.exponent.toNat '0')
  else if places < digits.length then
    String.ofList (digits.take (digits.length - places) ++
      '.' :: digits.drop (digits.length - places))
  else
    String.ofList ('0' :: '.' :: List.replicate (places - digits.length) '0' ++ digits)

end Decimal

namespace Number

/-- Writes the minus sign of a negative number in front of its magnitude. -/
def withSign (negative : Bool) (magnitude : String) : String :=
  if negative then "-" ++ magnitude else magnitude

/-- The shortest decimal in positional notation. Integers have no fractional part and
negative zero keeps its sign. -/
def plainText (x : Float) : String :=
  match Binary64.decode x with
  | .notANumber => "NaN"
  | .infinite negative => withSign negative "inf"
  | .finite negative 0 _ => withSign negative "0"
  | .finite negative significand exponent =>
    withSign negative (Shortest.decimal significand exponent).positional

/-- The text of an integer. -/
def integerText (n : Int) : String := withSign (decide (n < 0)) (Nat.repr n.natAbs)

/-- Integers of smaller magnitude are printed as integers. -/
def integerLimit : Nat := Nat.pow 10 15

/-- The text the language prints: an integer below `integerLimit` as an integer, so that
negative zero is written `0`, and any other number as its plain text. -/
def render (x : Float) : String :=
  match Binary64.integer? x with
  | some n => if n.natAbs < integerLimit then integerText n else plainText x
  | none => plainText x

/-- Whether a text is made of decimal digits, at least one. -/
def isDigits (text : List Char) : Bool := !text.isEmpty && text.all Char.isDigit

/-- The number denoted by an optional minus sign and decimal digits: the double nearest that
integer. The negation of zero is negative zero. -/
def ofText? (text : List Char) : Option Float :=
  match text with
  | '-' :: digits =>
    if isDigits digits then some (Binary64.ofNegatedNat (Nat.ofDigitChars 10 digits 0)) else none
  | digits =>
    if isDigits digits then some (Binary64.ofNat (Nat.ofDigitChars 10 digits 0)) else none

theorem isDigits_toDigits (n : Nat) : isDigits (Nat.toDigits 10 n) = true := by
  have nonempty : Nat.toDigits 10 n ≠ [] := List.ne_nil_of_length_pos Nat.length_toDigits_pos
  have digits : ∀ c ∈ Nat.toDigits 10 n, c.isDigit = true :=
    fun c mem => Nat.isDigit_of_mem_toDigits (by decide) (by decide) mem
  simp [isDigits, nonempty]
  exact digits

/-- The digits of a natural number denote that number. -/
theorem ofText?_toDigits (n : Nat) : ofText? (Nat.toDigits 10 n) = some (Binary64.ofNat n) := by
  have digits := isDigits_toDigits n
  unfold ofText?
  split
  · next rest text =>
    rw [text] at digits
    simp [isDigits] at digits
  · rw [if_pos digits, Nat.ofDigitChars_toDigits (by decide) (by decide)]

end Number

end SmallLisp
