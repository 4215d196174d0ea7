import Mathlib.Data.List.TakeWhile
import SmallLisp.Form.Atom

/-!
# What the atoms denote

An atom is told by its first character, or by being one of three names or an integer; whatever is
left is a symbol. A string literal is closed by a quote in front of which the backslashes pair up:
an odd one out would escape the quote.

## Main definitions

* `Form.PairsUp`: a text at whose end the backslashes pair up
* `Form.Denotes`: the value that a lexeme denotes

## Main results

* `Form.isClosedLiteral_iff`: the literals that are closed
* `Form.ofLexeme?_eq_some_iff`: a lexeme is read as the value that it denotes
-/

namespace SmallLisp.Form

/-! ### Closed literals -/

/-- The backslashes at the end of a text pair up. -/
def PairsUp (body : List Char) : Prop :=
  ∃ front pairs, body = front ++ List.replicate (2 * pairs) '\\' ∧ front.getLast? ≠ some '\\'

theorem pairsUp_iff (body : List Char) :
    PairsUp body ↔ (body.reverse.takeWhile (· == '\\')).length % 2 = 0 := by
  constructor
  · rintro ⟨front, pairs, rfl, plain⟩
    have backslashes : ∀ c ∈ List.replicate (2 * pairs) '\\', (c == '\\') = true := by
      intro c mem
      simp [List.eq_of_mem_replicate mem]
    have rest : front.reverse.takeWhile (· == '\\') = [] := by
      rw [List.takeWhile_eq_nil_iff]
      intro nonempty
      rw [← List.head?_reverse, List.head?_eq_getElem?] at plain
      simpa [List.getElem?_eq_getElem nonempty] using plain
    rw [List.reverse_append, List.reverse_replicate, List.takeWhile_append_of_pos backslashes, rest,
      List.append_nil, List.length_replicate]
    omega
  · intro even
    have same : ∀ c ∈ body.reverse.takeWhile (· == '\\'), c = '\\' := by
      intro c mem
      simpa using List.mem_takeWhile_imp mem
    have stops := List.head?_dropWhile_not (· == '\\') body.reverse
    refine ⟨(body.reverse.dropWhile (· == '\\')).reverse,
      (body.reverse.takeWhile (· == '\\')).length / 2, ?_, fun last => ?_⟩
    · rw [Nat.mul_div_cancel' (Nat.dvd_of_mod_eq_zero even)]
      calc
        body = body.reverse.reverse := (List.reverse_reverse body).symm
        _ = (body.reverse.takeWhile (· == '\\') ++
              body.reverse.dropWhile (· == '\\')).reverse := by rw [List.takeWhile_append_dropWhile]
        _ = _ := by
          rw [List.reverse_append, ← List.reverse_replicate, ← List.eq_replicate_of_mem same]
    · rw [List.getLast?_reverse] at last
      rw [last] at stops
      simp at stops

/-- A literal is closed by a last quote in front of which the backslashes pair up. -/
theorem isClosedLiteral_iff {body : List Char} :
    isClosedLiteral ('"' :: body) = true ↔ ∃ inside, body = inside ++ ['"'] ∧ PairsUp inside := by
  rcases List.eq_nil_or_concat body with rfl | ⟨inside, last, rfl⟩
  · simp [isClosedLiteral]
  · have isBody : literalBody ('"' :: (inside ++ [last])) = inside := by simp [literalBody]
    rw [isClosedLiteral, List.concat_eq_append, isBody, ← List.cons_append, List.getLast?_concat]
    rw [Bool.and_eq_true, Bool.and_eq_true, beq_iff_eq, beq_iff_eq, ← pairsUp_iff]
    constructor
    · rintro ⟨⟨_, isQuote⟩, closed⟩
      obtain rfl : last = '"' := by simpa using isQuote
      exact ⟨inside, rfl, closed⟩
    · rintro ⟨_, same, closed⟩
      obtain ⟨rfl, isQuote⟩ := List.append_inj' same rfl
      obtain rfl := List.singleton_inj.mp isQuote
      exact ⟨⟨by simp, by simp⟩, closed⟩

/-! ### Atoms -/

/-- The value that a lexeme denotes. -/
inductive Denotes (lexeme : String) : Value → Prop where
  | nil (named : lexeme = "nil") : Denotes lexeme .nil
  | truth (named : lexeme = "true") : Denotes lexeme (.bool true)
  | falsity (named : lexeme = "false") : Denotes lexeme (.bool false)
  | keyword {name : List Char} (spelled : lexeme.toList = ':' :: name) :
      Denotes lexeme (.keyword (String.ofList name))
  /-- An integer is the double nearest to it. -/
  | natural {digits : List Char} (spelled : lexeme.toList = digits)
      (areDigits : Number.isDigits digits = true) :
      Denotes lexeme (.number (Binary64.ofNat (Nat.ofDigitChars 10 digits 0)))
  | negative {digits : List Char} (spelled : lexeme.toList = '-' :: digits)
      (areDigits : Number.isDigits digits = true) :
      Denotes lexeme (.number (Binary64.ofNegatedNat (Nat.ofDigitChars 10 digits 0)))
  | string {body : List Char} (spelled : lexeme.toList = '"' :: (body ++ ['"']))
      (closed : PairsUp body) : Denotes lexeme (.string (String.ofList body))
  /-- All the rest. -/
  | symbol (noConstant : lexeme ≠ "nil" ∧ lexeme ≠ "true" ∧ lexeme ≠ "false")
      (otherwise : lexeme.toList.head? ≠ some ':' ∧ lexeme.toList.head? ≠ some '"')
      (noInteger : ∀ digits, Number.isDigits digits = true →
        lexeme.toList ≠ digits ∧ lexeme.toList ≠ '-' :: digits) :
      Denotes lexeme (.symbol lexeme)

theorem constant?_eq_none {lexeme : String} (notNil : lexeme ≠ "nil") (notTrue : lexeme ≠ "true")
    (notFalse : lexeme ≠ "false") : constant? lexeme = none := by
  rw [constant?, if_neg notNil, if_neg notTrue, if_neg notFalse]

theorem constant?_eq_some_iff {lexeme : String} {value : Value} :
    constant? lexeme = some value ↔ lexeme = "nil" ∧ value = .nil ∨
      lexeme = "true" ∧ value = .bool true ∨ lexeme = "false" ∧ value = .bool false := by
  unfold constant?
  split
  · rename_i named
    simp [named, eq_comm]
  · split
    · rename_i named
      simp [named, eq_comm]
    · split
      · rename_i named
        simp [named, eq_comm]
      · simp_all

/-- Of the names of constants, none begins like an atom of another kind. -/
theorem constant?_eq_none_of_first {lexeme : String} {c : Char} {rest : List Char}
    (spelled : lexeme.toList = c :: rest) (other : c ≠ 'n' ∧ c ≠ 't' ∧ c ≠ 'f') :
    constant? lexeme = none := by
  have differs {name : String} {d : Char} (first : name.toList.head? = some d) (other : c ≠ d) :
      lexeme ≠ name := by
    rintro rfl
    rw [spelled] at first
    exact other (Option.some.inj first)
  exact constant?_eq_none (differs (by decide) other.1) (differs (by decide) other.2.1)
    (differs (by decide) other.2.2)

theorem number_ofText?_natural {digits : List Char} (areDigits : Number.isDigits digits = true) :
    Number.ofText? digits = some (Binary64.ofNat (Nat.ofDigitChars 10 digits 0)) := by
  unfold Number.ofText?
  split
  · simp [Number.isDigits] at areDigits
  · rw [if_pos areDigits]

theorem number_ofText?_negative {digits : List Char} (areDigits : Number.isDigits digits = true) :
    Number.ofText? ('-' :: digits) =
      some (Binary64.ofNegatedNat (Nat.ofDigitChars 10 digits 0)) := if_pos areDigits

theorem number_ofText?_eq_none_iff {text : List Char} : Number.ofText? text = none ↔
    ∀ digits, Number.isDigits digits = true → text ≠ digits ∧ text ≠ '-' :: digits := by
  constructor
  · intro noNumber digits areDigits
    refine ⟨?_, ?_⟩ <;> rintro rfl
    · simp [number_ofText?_natural areDigits] at noNumber
    · simp [number_ofText?_negative areDigits] at noNumber
  · intro noInteger
    unfold Number.ofText?
    split
    · rename_i digits
      exact if_neg fun areDigits => (noInteger digits areDigits).2 rfl
    · exact if_neg fun areDigits => (noInteger _ areDigits).1 rfl

/-- A lexeme that names no constant and is no keyword is an integer, a string or a symbol. -/
theorem ofLexeme?_of_plain {lexeme : String} (noConstant : constant? lexeme = none)
    (noKeyword : lexeme.toList.head? ≠ some ':') :
    ofLexeme? lexeme =
      ((Number.ofText? lexeme.toList).map .number).or (literalOrSymbol? lexeme) := by
  rw [ofLexeme?, noConstant]
  split
  · rename_i isConstant
    cases isConstant
  · rename_i spelled
    rw [spelled] at noKeyword
    exact absurd rfl noKeyword
  · cases Number.ofText? lexeme.toList <;> rfl

theorem literalOrSymbol?_of_quote {lexeme : String} {body : List Char}
    (spelled : lexeme.toList = '"' :: body) : literalOrSymbol? lexeme =
      if isClosedLiteral ('"' :: body) then
        some (.string (String.ofList (literalBody ('"' :: body))))
      else none := by
  rw [literalOrSymbol?, spelled]
  rfl

theorem literalOrSymbol?_of_plain {lexeme : String} (noQuote : lexeme.toList.head? ≠ some '"') :
    literalOrSymbol? lexeme = some (.symbol lexeme) := by
  unfold literalOrSymbol?
  split
  · rename_i spelled
    rw [spelled] at noQuote
    exact absurd rfl noQuote
  · rfl

theorem denotes_of_number {lexeme : String} {x : Float}
    (isNumber : Number.ofText? lexeme.toList = some x) : Denotes lexeme (.number x) := by
  unfold Number.ofText? at isNumber
  split at isNumber
  · rename_i spelled
    split at isNumber
    · rename_i areDigits
      cases isNumber
      exact .negative spelled areDigits
    · cases isNumber
  · split at isNumber
    · rename_i areDigits
      cases isNumber
      exact .natural rfl areDigits
    · cases isNumber

theorem denotes_of_ofLexeme? {lexeme : String} {value : Value}
    (isValue : ofLexeme? lexeme = some value) : Denotes lexeme value := by
  cases isConstant : constant? lexeme with
  | some constant =>
    rw [ofLexeme?, isConstant] at isValue
    cases isValue
    rcases constant?_eq_some_iff.mp isConstant with ⟨named, rfl⟩ | ⟨named, rfl⟩ | ⟨named, rfl⟩
    · exact .nil named
    · exact .truth named
    · exact .falsity named
  | none =>
    by_cases isKeyword : lexeme.toList.head? = some ':'
    · obtain ⟨name, spelled⟩ := List.head?_eq_some_iff.mp isKeyword
      rw [ofLexeme?, isConstant, spelled] at isValue
      cases isValue
      exact .keyword spelled
    · rw [ofLexeme?_of_plain isConstant isKeyword] at isValue
      cases isNumber : Number.ofText? lexeme.toList with
      | some x =>
        rw [isNumber] at isValue
        cases isValue
        exact denotes_of_number isNumber
      | none =>
        rw [isNumber, Option.map_none, Option.none_or] at isValue
        by_cases isQuoted : lexeme.toList.head? = some '"'
        · obtain ⟨body, spelled⟩ := List.head?_eq_some_iff.mp isQuoted
          rw [literalOrSymbol?_of_quote spelled] at isValue
          split at isValue
          · rename_i isClosed
            obtain ⟨inside, rfl, closed⟩ := isClosedLiteral_iff.mp isClosed
            cases isValue
            rw [literalBody, List.tail_cons, List.dropLast_concat]
            exact .string spelled closed
          · cases isValue
        · rw [literalOrSymbol?_of_plain isQuoted] at isValue
          cases isValue
          refine .symbol ?_ ⟨isKeyword, isQuoted⟩ (number_ofText?_eq_none_iff.mp isNumber)
          refine ⟨?_, ?_, ?_⟩ <;> (intro named; rw [named] at isConstant; cases isConstant)

theorem Denotes.ofLexeme? {lexeme : String} {value : Value} (denotes : Denotes lexeme value) :
    ofLexeme? lexeme = some value := by
  have first_of_digits {digits : List Char} (areDigits : Number.isDigits digits = true) :
      ∃ c rest, digits = c :: rest ∧ c.isDigit = true := by
    cases digits with
    | nil => cases areDigits
    | cons c rest => exact ⟨c, rest, rfl, by simp_all [Number.isDigits]⟩
  cases denotes with
  | nil named =>
    rw [named]
    rfl
  | truth named =>
    rw [named]
    rfl
  | falsity named =>
    rw [named]
    rfl
  | keyword spelled =>
    rw [Form.ofLexeme?, constant?_eq_none_of_first spelled (by decide), spelled]
    rfl
  | natural spelled areDigits =>
    obtain ⟨c, rest, rfl, isDigit⟩ := first_of_digits areDigits
    have differs {d : Char} (noDigit : d.isDigit = false) : c ≠ d := by
      rintro rfl
      rw [isDigit] at noDigit
      cases noDigit
    have noConstant := constant?_eq_none_of_first spelled
      ⟨differs (by decide), differs (by decide), differs (by decide)⟩
    have noKeyword : lexeme.toList.head? ≠ some ':' := by
      simpa [spelled] using differs (d := ':') (by decide)
    rw [ofLexeme?_of_plain noConstant noKeyword, spelled, number_ofText?_natural areDigits]
    rfl
  | negative spelled areDigits =>
    have noConstant := constant?_eq_none_of_first spelled (by decide)
    rw [ofLexeme?_of_plain noConstant (by simp [spelled]), spelled,
      number_ofText?_negative areDigits]
    rfl
  | @string body spelled closed =>
    have noConstant := constant?_eq_none_of_first spelled (by decide)
    have isClosed := isClosedLiteral_iff.mpr ⟨body, rfl, closed⟩
    have isBody : literalBody ('"' :: (body ++ ['"'])) = body := by simp [literalBody]
    have noNumber : Number.ofText? lexeme.toList = none := by
      rw [spelled]
      rfl
    rw [ofLexeme?_of_plain noConstant (by simp [spelled]), noNumber,
      literalOrSymbol?_of_quote spelled, if_pos isClosed, isBody]
    rfl
  | symbol noConstant otherwise noInteger =>
    have noConstant := constant?_eq_none noConstant.1 noConstant.2.1 noConstant.2.2
    rw [ofLexeme?_of_plain noConstant otherwise.1, number_ofText?_eq_none_iff.mpr noInteger,
      literalOrSymbol?_of_plain otherwise.2]
    rfl

/-- A lexeme is read as the value that it denotes, and not read when it denotes none. -/
theorem ofLexeme?_eq_some_iff {lexeme : String} {value : Value} :
    ofLexeme? lexeme = some value ↔ Denotes lexeme value :=
  ⟨denotes_of_ofLexeme?, Denotes.ofLexeme?⟩

end SmallLisp.Form
