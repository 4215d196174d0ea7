import SmallLisp.Proofs.Reading.Grammar
import SmallLisp.Proofs.Reading.Tiling

/-!
# Where string literals end

Two parts of the program look for the quote that closes a string literal. The scanner comes from the
left: it takes each backslash together with the character behind it, and stops at the first quote
that is left over. The reader has the lexeme before it and comes from the right: it takes the last
quote and counts the backslashes in front of it. In what the scanner hands out the backslashes pair
up from either side, so that both find the same literals closed. This is not so of other texts:
`"a"b"` would be closed for the reader.

## Main definitions

* `Token.IsUnclosed`: a token that is a string literal without a closing quote

## Main results

* `Token.exists_fits`: what a token is a piece of
* `Scan.Fits.literal_cases`: the pieces that begin with a quote
* `Token.isUnclosed_iff`: the reader tells the unclosed literals among the tokens of a text
* `Token.isClosedLiteral_iff_quotes`: scanner and reader agree on where string literals end
-/

namespace SmallLisp

namespace Scan

/-! ### Backslashes from either side -/

/-- What a literal holds leaves it open. -/
theorem IsBody.isOpen {body : List Char} (isBody : IsBody body) {reversed : List Char}
    (isOpen : IsOpen reversed) : IsOpen (body.reverse ++ reversed) := by
  induction isBody generalizing reversed with
  | nil => exact isOpen
  | plain notQuote notBackslash _ ih =>
    rw [List.reverse_cons, List.append_assoc]
    exact ih (.plain notQuote notBackslash isOpen)
  | escaped _ _ ih =>
    rw [List.reverse_cons, List.reverse_cons, List.append_assoc, List.append_assoc]
    exact ih (.escaped isOpen)

/-- A quote and what a literal holds do not make a closed literal. If the last character is a
quote, then a backslash escapes it. -/
theorem IsBody.isClosedLiteral_eq_false {body : List Char} (isBody : IsBody body) :
    Form.isClosedLiteral ('"' :: body) = false := by
  have notClosed := Form.isClosedLiteral_eq_false (isBody.isOpen .quote)
  rwa [List.reverse_append, List.reverse_reverse] at notClosed

/-- The backslashes at the end of what a literal holds pair up. -/
theorem IsBody.pairsUp {body : List Char} (isBody : IsBody body) : Form.PairsUp body := by
  have even := Form.even_backslashes (isBody.isOpen .quote)
  rwa [Form.takeWhile_backslash_concat, ← Form.pairsUp_iff] at even

/-- The pieces that begin with a quote are string literals, closed or not. -/
theorem Fits.literal_cases {body rest : List Char} (fits : Fits (.lexeme ('"' :: body)) rest) :
    (∃ inside, body = inside ++ ['"'] ∧ IsBody inside) ∨ IsBody body := by
  cases fits with
  | mark isMark => exact absurd isMark (by decide)
  | closed isBody => exact .inl ⟨_, rfl, isBody⟩
  | unclosed isBody _ => exact .inr isBody
  | run _ plain _ =>
    have plainQuote : IsPlain '"' := plain '"' List.mem_cons_self
    exact absurd plainQuote.2 (by decide)

theorem Tiles.exists_fits {before text : List Char} {tokens : List Token} {token : Token}
    (tiles : Tiles before text tokens) (mem : token ∈ tokens) :
    ∃ between lexeme rest, text = between ++ lexeme ++ rest ∧ Fits (.lexeme lexeme) rest ∧
      token = Token.ofLexeme (String.ofList lexeme) (Position.behind (before ++ between)) := by
  induction tiles with
  | nil => cases mem
  | @separator before rest c tokens fits _ ih =>
    obtain ⟨between, lexeme, last, rfl, fitsLexeme, same⟩ := ih mem
    exact ⟨c :: between, lexeme, last, rfl, fitsLexeme, by simpa using same⟩
  | @comment before text rest tokens fits _ ih =>
    obtain ⟨between, lexeme, last, rfl, fitsLexeme, same⟩ := ih mem
    exact ⟨text ++ between, lexeme, last, by simp, fitsLexeme, by simpa using same⟩
  | @lexeme before text rest tokens fits _ ih =>
    rcases List.mem_cons.mp mem with rfl | mem
    · exact ⟨[], text, rest, rfl, fits, by simp⟩
    · obtain ⟨between, lexeme, last, rfl, fitsLexeme, same⟩ := ih mem
      exact ⟨text ++ between, lexeme, last, by simp, fitsLexeme, by simpa using same⟩

end Scan

namespace Token

/-- A string literal without a closing quote. -/
def IsUnclosed (token : Token) : Prop :=
  ∃ body, token.lexeme.toList = '"' :: body ∧ Scan.IsBody body

/-- A token of a text is a piece that fits, and has the place behind what stands in front of it. -/
theorem exists_fits {text : String} {token : Token} (mem : token ∈ scan text) :
    ∃ before lexeme rest, text.toList = before ++ lexeme ++ rest ∧
      Scan.Fits (.lexeme lexeme) rest ∧
      token = ofLexeme (String.ofList lexeme) (Position.behind before) :=
  Scan.Tiles.exists_fits ((scan_eq_iff_tiles text _).mp rfl) mem

section Quoted

variable {text : String} {token : Token} {body : List Char}

theorem kind_of_quoted (mem : token ∈ scan text) (quoted : token.lexeme.toList = '"' :: body) :
    token.kind = .atom := by
  obtain ⟨before, lexeme, rest, _, _, rfl⟩ := exists_fits mem
  rw [ofLexeme, String.toList_ofList] at quoted
  subst quoted
  simp only [ofLexeme, TokenKind.ofLexeme, String.toList_ofList]
  split <;> simp_all

theorem literal_cases (mem : token ∈ scan text) (quoted : token.lexeme.toList = '"' :: body) :
    (∃ inside, body = inside ++ ['"'] ∧ Scan.IsBody inside) ∨ Scan.IsBody body := by
  obtain ⟨before, lexeme, rest, _, fits, rfl⟩ := exists_fits mem
  rw [ofLexeme, String.toList_ofList] at quoted
  subst quoted
  exact fits.literal_cases

theorem isClosedLiteral_iff_exists (mem : token ∈ scan text)
    (quoted : token.lexeme.toList = '"' :: body) :
    Form.isClosedLiteral token.lexeme.toList = true ↔
      ∃ inside, token.lexeme.toList = '"' :: (inside ++ ['"']) ∧ Scan.IsBody inside := by
  rw [quoted]
  constructor
  · intro closed
    -- What the scanner has not closed has no quote at its end that the reader would count.
    rcases literal_cases mem quoted with ⟨inside, rfl, isBody⟩ | isBody
    · exact ⟨inside, rfl, isBody⟩
    · rw [isBody.isClosedLiteral_eq_false] at closed
      cases closed
  · rintro ⟨inside, same, isBody⟩
    exact Form.isClosedLiteral_iff.mpr ⟨inside, (List.cons.inj same).2, isBody.pairsUp⟩

/-- Among the tokens of a text, the unclosed literals are those in which the reader misses the
closing quote. -/
theorem isUnclosed_iff (mem : token ∈ scan text) :
    token.IsUnclosed ↔
      token.lexeme.toList.head? = some '"' ∧ Form.isClosedLiteral token.lexeme.toList = false := by
  constructor
  · rintro ⟨body, quoted, isBody⟩
    rw [quoted]
    exact ⟨rfl, isBody.isClosedLiteral_eq_false⟩
  · rintro ⟨isQuote, notClosed⟩
    obtain ⟨body, quoted⟩ := List.head?_eq_some_iff.mp isQuote
    refine ⟨body, quoted, (literal_cases mem quoted).resolve_left ?_⟩
    rintro ⟨inside, rfl, isBody⟩
    rw [(isClosedLiteral_iff_exists mem quoted).mpr ⟨inside, quoted, isBody⟩] at notClosed
    cases notClosed

/-! ### What is read -/

theorem read_of_quotes (mem : token ∈ scan text)
    (quoted : token.lexeme.toList = '"' :: (body ++ ['"'])) (isBody : Scan.IsBody body)
    (rest : List Token) :
    Form.read (token :: rest) = ⟨.ok (.string (String.ofList body)), rest⟩ :=
  (Form.read_atom_iff (kind_of_quoted mem quoted)).mpr ⟨.string quoted isBody.pairsUp, rfl⟩

theorem read_of_isUnclosed (mem : token ∈ scan text) (unclosed : token.IsUnclosed)
    (rest : List Token) :
    Form.read (token :: rest) = ⟨.error (.unreadable token.position .openString), rest⟩ := by
  obtain ⟨body, quoted, isBody⟩ := unclosed
  obtain ⟨before, lexeme, following, _, _, rfl⟩ := exists_fits mem
  rw [ofLexeme, String.toList_ofList] at quoted
  have reversed : lexeme = (body.reverse ++ ['"']).reverse := by simp [quoted]
  rw [Form.read, Form.readWithin_cons, reversed, Form.step_of_isOpen (isBody.isOpen .quote)]
  rfl

end Quoted

/-- **Scanner and reader agree on where string literals end.** Of the tokens of a text that begin
with a quote, those are closed to the reader that the scanner has closed: there are a quote, then
characters other than quotes and backslashes and backslashes with a character behind them on their
line, then a quote. What stands between the quotes is read as a string. All other tokens that begin
with a quote are unclosed, and reading them fails. -/
theorem isClosedLiteral_iff_quotes {text : String} {token : Token} (mem : token ∈ scan text)
    (quoted : token.lexeme.toList.head? = some '"') :
    (Form.isClosedLiteral token.lexeme.toList = true ↔
      ∃ body, token.lexeme.toList = '"' :: (body ++ ['"']) ∧ Scan.IsBody body) ∧
    (∀ body, token.lexeme.toList = '"' :: (body ++ ['"']) → Scan.IsBody body →
      ∀ rest, Form.read (token :: rest) = ⟨.ok (.string (String.ofList body)), rest⟩) ∧
    (Form.isClosedLiteral token.lexeme.toList = false ↔ token.IsUnclosed) ∧
    (token.IsUnclosed →
      ∀ rest, Form.read (token :: rest) =
        ⟨.error (.unreadable token.position .openString), rest⟩) := by
  obtain ⟨inside, spelled⟩ := List.head?_eq_some_iff.mp quoted
  refine ⟨isClosedLiteral_iff_exists mem spelled, fun body => read_of_quotes mem, ?_,
    read_of_isUnclosed mem⟩
  rw [isUnclosed_iff mem]
  exact (and_iff_right quoted).symm

/-- A literal with an escaped quote in it, behind one that a line break cuts off. -/
theorem isClosedLiteral_iff_quotes_escaped :
    let text := "\"a\\\n \"b\\\"\""
    let token := ofLexeme "\"b\\\"\"" ⟨2, 2⟩
    token ∈ scan text ∧ token.lexeme.toList.head? = some '"' ∧
      Form.isClosedLiteral token.lexeme.toList = true ∧
      Form.read [token] = ⟨.ok (.string "b\\\""), []⟩ := by
  intro text token
  have mem : token ∈ scan text := by decide
  have spelled : token.lexeme.toList = '"' :: (['b', '\\', '"'] ++ ['"']) := by decide
  have quoted : token.lexeme.toList.head? = some '"' := by rw [spelled]; rfl
  have isBody : Scan.IsBody ['b', '\\', '"'] :=
    .plain (by decide) (by decide) (.escaped (by decide) .nil)
  obtain ⟨closed, reads, _⟩ := isClosedLiteral_iff_quotes mem quoted
  exact ⟨mem, quoted, closed.mpr ⟨_, spelled, isBody⟩, reads _ spelled isBody []⟩

end Token

end SmallLisp
