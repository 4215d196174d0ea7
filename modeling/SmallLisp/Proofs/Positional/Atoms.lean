import SmallLisp.Proofs.Positional.Access
import SmallLisp.Proofs.Positional.Cursor
import SmallLisp.Proofs.Positional.Slices
import SmallLisp.Proofs.Reading.Atoms

/-!
# Atoms and maps by position

What strips a keyword of its colon or a string of its quotes cuts the lexeme by bytes, and a map
takes its keys and values by position. It is decided before, by a look at the first and the last
character or at a number of items, that there is something to be cut or taken.

## Main definitions

* `Positional.isClosedLiteral`: whether a string literal is closed, by its bytes
* `Positional.atomOf`: the value of an atom, cut out of its lexeme
* `Positional.mapOf`: a map, its keys and values taken by position

## Main results

* `Positional.atomOf_eq`: atoms have the values that they are read as
* `Positional.mapOf_eq`: maps are built as the reader builds them
-/

namespace SmallLisp.Positional

/-! ### Atoms -/

/-- The text between the first byte and the last. -/
def inside (lexeme : String) : Option String :=
  if 1 ≤ lexeme.utf8ByteSize then slice lexeme 1 (lexeme.utf8ByteSize - 1) else none

/-- Whether a lexeme that starts with a quote ends with another that is not escaped. -/
def isClosedLiteral (lexeme : String) : Option Bool :=
  if lexeme.utf8ByteSize < 2 ∨ lexeme.toList.getLast? ≠ some '"' then return false
  else do
    let body ← inside lexeme
    return (body.toList.reverse.takeWhile (· == '\\')).length % 2 == 0

/-- An optional minus sign and decimal digits, at least one. -/
def isNumeral (lexeme : String) : Bool :=
  match lexeme.toList with
  | '-' :: digits => Number.isDigits digits
  | digits => Number.isDigits digits

/-- The value of a string literal. -/
def literalOf (token : Token) : Reads Value := do
  if ← Reads.ask (isClosedLiteral token.lexeme) then
    return .string (← Reads.ask (inside token.lexeme))
  else throw (.unreadable token.position .openString)

/-- The value of an atom. That a numeral has a value is not looked at. -/
def atomOf (token : Token) : Reads Value :=
  if token.lexeme = "nil" then return .nil
  else if token.lexeme = "true" then return .bool true
  else if token.lexeme = "false" then return .bool false
  else if token.lexeme.toList.head? = some ':' then do
    return .keyword (← Reads.ask (slice token.lexeme 1 token.lexeme.utf8ByteSize))
  else if isNumeral token.lexeme then do
    return .number (← Reads.ask (Number.ofText? token.lexeme.toList))
  else if token.lexeme.toList.head? = some '"' then literalOf token
  else return .symbol token.lexeme

section Atoms

variable {lexeme : String} {token : Token} {c : Char} {text after : List Char} {value : Value}

/-- The text behind a character of one byte, up to some characters at the end. -/
theorem slice_behind (oneByte : bytes [c] = 1) (spelled : lexeme.toList = c :: (text ++ after)) :
    slice lexeme 1 (lexeme.utf8ByteSize - bytes after) = some (String.ofList text) := by
  have divided : lexeme.toList = [c] ++ text ++ after := by simpa using spelled
  have size : lexeme.utf8ByteSize - bytes after = 1 + bytes text := by
    rw [← bytes_toList, divided, bytes_append, bytes_append, oneByte, Nat.add_sub_cancel]
  have cut := slice_of_toList divided
  rwa [oneByte, ← size] at cut

theorem inside_eq (spelled : lexeme.toList = '"' :: (text ++ ['"'])) :
    inside lexeme = some (String.ofList text) := by
  have nonempty : 1 ≤ lexeme.utf8ByteSize := by
    rw [← bytes_toList, spelled, ← List.cons_append, bytes_append]
    exact Nat.le_add_left 1 _
  rw [inside, if_pos nonempty]
  exact slice_behind rfl spelled

theorem isClosedLiteral_eq (spelled : lexeme.toList = '"' :: text) :
    isClosedLiteral lexeme = some (Form.isClosedLiteral ('"' :: text)) := by
  rcases List.eq_nil_or_concat text with rfl | ⟨body, last, rfl⟩
  · -- A quote by itself is the first character and the last.
    have size : lexeme.utf8ByteSize < 2 := by
      rw [← bytes_toList, spelled]
      decide
    rw [isClosedLiteral, if_pos (.inl size)]
    rfl
  rw [List.concat_eq_append] at spelled ⊢
  have ends : ('"' :: (body ++ [last])).getLast? = some last := by
    rw [← List.cons_append, List.getLast?_concat]
  have isBody : Form.literalBody ('"' :: (body ++ [last])) = body := by simp [Form.literalBody]
  rw [isClosedLiteral, Form.isClosedLiteral, spelled, ends, isBody]
  by_cases isQuote : last = '"'
  · subst isQuote
    have size : ¬ lexeme.utf8ByteSize < 2 := by
      rw [← bytes_toList, spelled, ← List.singleton_append, bytes_append, bytes_append]
      have one : bytes ['"'] = 1 := rfl
      omega
    rw [if_neg (by simp [size]), inside_eq spelled]
    simp
  · rw [if_pos (.inr (by simpa using isQuote))]
    simp [isQuote]

/-- A quote by itself is looked at and found open; there is nothing inside of it. -/
example : isClosedLiteral "\"" = some false ∧ inside "\"" = none := by decide

theorem isSome_ofText? (lexeme : String) :
    (Number.ofText? lexeme.toList).isSome = isNumeral lexeme := by
  unfold Number.ofText? isNumeral
  split
  · split <;> simp_all
  · split <;> simp_all

theorem of_ofAtom (isValue : Form.ofLexeme? token.lexeme = some value) :
    Reads.of (Form.ofAtom token) = pure value := by
  rw [Form.ofAtom, isValue]
  rfl

theorem literalOf_eq (spelled : token.lexeme.toList = '"' :: text)
    (isLiteral : Form.ofLexeme? token.lexeme = Form.literalOrSymbol? token.lexeme) :
    literalOf token = .of (Form.ofAtom token) := by
  rw [Form.literalOrSymbol?_of_quote spelled] at isLiteral
  rw [literalOf, isClosedLiteral_eq spelled, Reads.ask_some, pure_bind]
  by_cases closed : Form.isClosedLiteral ('"' :: text) = true
  · obtain ⟨body, rfl, _⟩ := Form.isClosedLiteral_iff.mp closed
    have isBody : Form.literalBody ('"' :: (body ++ ['"'])) = body := by simp [Form.literalBody]
    rw [if_pos closed, isBody] at isLiteral
    rw [if_pos closed, inside_eq spelled, of_ofAtom isLiteral]
    rfl
  · rw [if_neg closed] at isLiteral ⊢
    rw [Form.ofAtom, isLiteral]
    rfl

/-- Atoms have the values that they are read as, and what is cut out of them is there. -/
theorem atomOf_eq (token : Token) : atomOf token = .of (Form.ofAtom token) := by
  rw [atomOf]
  by_cases isNil : token.lexeme = "nil"
  · rw [if_pos isNil, of_ofAtom (Form.Denotes.nil isNil).ofLexeme?]
  by_cases isTrue : token.lexeme = "true"
  · rw [if_neg isNil, if_pos isTrue, of_ofAtom (Form.Denotes.truth isTrue).ofLexeme?]
  by_cases isFalse : token.lexeme = "false"
  · rw [if_neg isNil, if_neg isTrue, if_pos isFalse,
      of_ofAtom (Form.Denotes.falsity isFalse).ofLexeme?]
  rw [if_neg isNil, if_neg isTrue, if_neg isFalse]
  by_cases isKeyword : token.lexeme.toList.head? = some ':'
  · obtain ⟨name, spelled⟩ := List.head?_eq_some_iff.mp isKeyword
    have divided : token.lexeme.toList = ':' :: (name ++ []) := by rwa [List.append_nil]
    have cut : slice token.lexeme 1 token.lexeme.utf8ByteSize = some (String.ofList name) :=
      slice_behind rfl divided
    rw [if_pos isKeyword, cut, of_ofAtom (Form.Denotes.keyword spelled).ofLexeme?]
    rfl
  have plain := Form.ofLexeme?_of_plain (Form.constant?_eq_none isNil isTrue isFalse) isKeyword
  rw [if_neg isKeyword, ← isSome_ofText?]
  cases isNumber : Number.ofText? token.lexeme.toList with
  | some x =>
    rw [isNumber] at plain
    rw [of_ofAtom plain]
    rfl
  | none =>
    rw [isNumber, Option.map_none, Option.none_or] at plain
    rw [Option.isSome_none, if_neg Bool.false_ne_true]
    by_cases isQuoted : token.lexeme.toList.head? = some '"'
    · obtain ⟨text, spelled⟩ := List.head?_eq_some_iff.mp isQuoted
      rw [if_pos isQuoted, literalOf_eq spelled plain]
    · rw [Form.literalOrSymbol?_of_plain isQuoted] at plain
      rw [if_neg isQuoted, of_ofAtom plain]

end Atoms

/-! ### Maps -/

/-- A map from alternating keys and values. -/
def mapOf (forms : List Value) : Reads Value :=
  if forms.length % 2 = 1 then throw (.keyWithoutValue forms.length)
  else do
    let entries ← (chunks forms).foldlM (fun made pair => do
      let key ← Reads.ask pair[0]?
      return Entries.insert made key (← Reads.ask pair[1]?)) []
    return .map entries

theorem mapOf_eq (forms : List Value) : mapOf forms = .of (Form.Delimiters.braces.build forms) := by
  rw [mapOf, Form.Delimiters.build, Entries.ofForms?]
  split
  · rename_i odd
    rw [pairs?_of_odd odd]
    rfl
  · rename_i even
    obtain ⟨pairs, paired⟩ := exists_pairs_of_even (by omega : forms.length % 2 = 0)
    rw [foldlM_chunks (fun _ _ _ => rfl) paired, paired]
    rfl

end SmallLisp.Positional
