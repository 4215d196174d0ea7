/-!
# White space

The characters with the Unicode property `White_Space`. They separate tokens, and a line of
nothing else is blank.

## Main definitions

* `isBlank`: whether a character is white space
* `isBlankText`: whether a text holds nothing but white space
-/

namespace SmallLisp

/-- The code points of the property `White_Space`, as inclusive ranges in ascending order. -/
def blankRanges : List (Nat × Nat) :=
  [(0x09, 0x0D), (0x20, 0x20), (0x85, 0x85), (0xA0, 0xA0), (0x1680, 0x1680),
    (0x2000, 0x200A), (0x2028, 0x2029), (0x202F, 0x202F), (0x205F, 0x205F), (0x3000, 0x3000)]

/-- Whether a character is white space. -/
def isBlank (c : Char) : Bool :=
  blankRanges.any fun range => range.1 ≤ c.toNat && c.toNat ≤ range.2

/-- Whether a text holds nothing but white space. -/
def isBlankText (text : String) : Bool := text.toList.all isBlank

theorem isBlank_newline : isBlank '\n' = true := by decide

end SmallLisp
