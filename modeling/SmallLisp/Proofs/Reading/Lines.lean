import SmallLisp.Proofs.Reading.Literals

/-!
# The tokens of further lines

Lines that follow a text are scanned as if they were a text of their own. A line break ends every
token but a string literal that has not been closed, and the line behind it begins in the first
column. So the tokens of the text stay where they are, and those of the lines that follow it are the
tokens of a text that stands further down.

## Main definitions

* `Position.down`, `Token.down`: a place, and a token, some lines further down

## Main results

* `Scan.locate_down`: pieces that stand further down
* `Token.not_endsOpen`: a text without unclosed literals does not end inside of one
* `Token.scan_lines`: the tokens of a text and those of the lines that follow it
-/

namespace SmallLisp

/-- The place some lines further down, in the same column. -/
def Position.down (lines : Nat) (place : Position) : Position := ⟨place.line + lines, place.column⟩

/-- The token some lines further down. -/
def Token.down (lines : Nat) (token : Token) : Token :=
  { token with position := token.position.down lines }

theorem Position.after_down (lines : Nat) (place : Position) (text : List Char) :
    (place.down lines).after text = (place.after text).down lines := by
  induction text generalizing place with
  | nil => rfl
  | cons c rest ih =>
    have next_down : (place.down lines).next c = (place.next c).down lines := by
      by_cases breaks : c = '\n'
      · simp [Position.next, Position.down, breaks, Nat.add_right_comm]
      · simp [Position.next, Position.down, breaks]
    rw [Position.after_cons, Position.after_cons, next_down, ih]

namespace Scan

/-- Pieces that stand further down have the same lexemes, further down. -/
theorem locate_down (lines : Nat) (place : Position) (pieces : List Piece) :
    locate (place.down lines) pieces = (locate place pieces).map (Token.down lines) := by
  induction pieces generalizing place with
  | nil => rfl
  | cons piece rest ih =>
    cases piece with
    | separator c => rw [locate, locate, Position.after_down, ih] <;> simp
    | comment text => rw [locate, locate, Position.after_down, ih] <;> simp
    | lexeme text =>
      rw [locate, locate, Position.after_down, ih, List.map_cons]
      rfl

end Scan

namespace Token

/-- A text that ends inside a string literal has an unclosed literal among its tokens. -/
theorem not_endsOpen {text : String} (closed : ∀ token ∈ scan text, ¬ token.IsUnclosed) :
    ¬ Scan.EndsOpen text.toList := by
  intro endsOpen
  obtain ⟨before, reversed, place, isOpen, scanned, _⟩ := exists_scan_of_endsOpen endsOpen
  have isLast : ofLexeme (String.ofList reversed.reverse) place ∈ scan text := by
    rw [scanned]
    exact List.mem_append_right before List.mem_cons_self
  refine closed _ isLast ((isUnclosed_iff isLast).mpr ?_)
  rw [ofLexeme, String.toList_ofList]
  exact ⟨by rw [List.head?_reverse, Form.getLast?_of_isOpen isOpen],
    Form.isClosedLiteral_eq_false isOpen⟩

/-- **Scanning splits at a line break outside of string literals.** If no token of a text is an
unclosed string literal, then the tokens of the text and of the lines that follow it are the tokens
of the text, unchanged, and behind them the tokens that the lines have by themselves, with the same
kinds, lexemes and columns. These are further down by one line and one for each line break in the
text. -/
theorem scan_lines {first : String} (closed : ∀ token ∈ scan first, ¬ token.IsUnclosed)
    (second : String) :
    scan (first ++ "\n" ++ second) =
      scan first ++ (scan second).map (down (1 + first.toList.count '\n')) := by
  -- Behind a line break is the first column, as at the start of a text.
  have begins : (Position.start.after first.toList).next '\n' =
      Position.start.down (1 + first.toList.count '\n') := by
    rw [Position.after_start, Position.next, if_pos rfl, Position.behind]
    simp [Position.down, Position.start, Nat.add_comm]
  rw [scan_append_newline (not_endsOpen closed), begins, Scan.locate_down]
  rfl

/-- A list that goes on behind a comment, with a string of two lines in it. -/
theorem scan_lines_comment :
    let first := "(\"a\nb\" ;c"
    let second := " d)"
    (∀ token ∈ scan first, ¬ token.IsUnclosed) ∧
      scan (first ++ "\n" ++ second) =
        [ofLexeme "(" ⟨1, 1⟩, ofLexeme "\"a\nb\"" ⟨1, 2⟩, ofLexeme "d" ⟨3, 2⟩,
          ofLexeme ")" ⟨3, 3⟩] := by
  intro first second
  have scanned : scan first = [ofLexeme "(" ⟨1, 1⟩, ofLexeme "\"a\nb\"" ⟨1, 2⟩] := by decide
  have closed : ∀ token ∈ scan first, ¬ token.IsUnclosed := by
    intro token mem unclosed
    have notClosed := (isUnclosed_iff mem).mp unclosed
    rw [scanned] at mem
    revert notClosed
    rcases List.mem_cons.mp mem with rfl | mem
    · decide
    · rw [List.mem_singleton.mp mem]
      decide
  refine ⟨closed, (scan_lines closed second).trans ?_⟩
  decide

end Token

end SmallLisp
