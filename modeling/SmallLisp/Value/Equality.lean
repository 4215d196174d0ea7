import SmallLisp.Value

/-!
# Equality of values

Equality is structural. Lists and vectors are equal when their items are, whichever of the two
they are; maps are equal when they have as many entries and each entry of one is found in the
other, in whatever order; numbers are equal as numbers, so that both zeros are equal and
not-a-number is not equal to itself. Cells, procedures and native functions are equal only to
themselves, whatever they hold.

## Main definitions

* `Value.equal`: equality of two values, which is what `==` means on values
-/

namespace SmallLisp.Value

mutual

/-- Whether two values are equal. -/
def equal : Value → Value → Bool
  | .nil, other => other.isNil
  | .bool b, other => other.bool?.any (b == ·)
  | .number x, other => other.number?.any (x == ·)
  | .string text, other => other.string?.any (text == ·)
  | .symbol name, other => other.symbol?.any (name == ·)
  | .keyword name, other => other.keyword?.any (name == ·)
  | .seq _ items, other => other.items?.any (equalItems items)
  | .map entries, other =>
    other.entries?.any fun others => entries.length == others.length && within entries others
  | .atom cell, other => other.cell?.any (cell == ·)
  | .native f, other => other.native?.any (f == ·)
  | .procedure kind id _ _ _, other => other.procedure?.any ((kind, id) == ·)

/-- Whether two runs of items are equal item by item. -/
def equalItems : List Value → List Value → Bool
  | [], [] => true
  | item :: rest, other :: others => equal item other && equalItems rest others
  | _, _ => false

/-- Whether every entry has an equal key among `others`, the first such with an equal
value. -/
def within : List (Value × Value) → List (Value × Value) → Bool
  | [], _ => true
  | (key, value) :: rest, others =>
    (others.find? fun other => equal key other.1).any (fun other => equal value other.2) &&
      within rest others

end

instance : BEq Value := ⟨equal⟩

end SmallLisp.Value
