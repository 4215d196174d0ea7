import SmallLisp.Proofs.Positional.Atoms
import SmallLisp.Proofs.Positional.Lexemes
import SmallLisp.Proofs.Reading.Grammar

/-!
# Reading by position

The reader once more, as a descent: what reads a form looks at the token at the cursor, and calls
itself for the forms inside. There is no stack of unfinished forms, and nothing is known in advance
about how far the cursor will get. Whatever the tokens are, the descent comes to what the reader
comes to, and the cursor then stands in front of the tokens that the reader leaves: so nothing is
asked for that is not there. Each token lets the calls go deeper by three at most, which is why the
descent ends.

## Main definitions

* `Positional.readForm`: reads a form
* `Positional.readTimes`, `Form.readTimes`: several calls of the reader, one after the other
* `Positional.formOfText`, `Positional.formsOfText`: the first form of a text, and all forms

## Main results

* `Positional.readForm_comesTo`: the descent comes to what the reader comes to
* `reading_stays_in_range`: scanning and reading ask for nothing that is not there
-/

namespace SmallLisp

/-- What several calls of the reader come to, each of which begins with the tokens that the one
before has left; and the tokens that the last one leaves. -/
def Form.readTimes : Nat → List Token → List (Except Error Value) × List Token
  | 0, tokens => ([], tokens)
  | calls + 1, tokens =>
    let reading := read tokens
    let (outcomes, rest) := readTimes calls reading.rest
    (reading.outcome :: outcomes, rest)

namespace Positional

open Form (Delimiters Unfinished readWithin)

/-! ### Forms -/

section Reader

variable (tokens : List Token)

/-- Reads an atom. -/
def readAtom : Reads Value := do
  match ← advance tokens with
  | none => throw .incomplete
  | some token => atomOf token

mutual

/-- Reads a form. The calls go no deeper than a limit, at which reading gives up. -/
def readForm : Nat → Reads Value
  | 0 => Reads.giveUp
  | limit + 1 => do
    match ← peek tokens with
    | none => throw .incomplete
    | some next =>
      match next.kind with
      | .quote => readMarked limit "quote"
      | .backquote => readMarked limit "quasiquote"
      | .tilde => readMarked limit "unquote"
      | .tildeAt => readMarked limit "splice-unquote"
      | .atSign => readMarked limit "deref"
      | .caret => readNoted limit
      | .leftParen => return .list (← readSequence limit)
      | .leftBracket => return .vector (← readSequence limit)
      | .leftBrace => mapOf (← readSequence limit)
      | .rightParen | .rightBracket | .rightBrace =>
        let token ← current tokens
        throw (.unreadable token.position (.unexpected token.lexeme))
      | .atom => readAtom tokens

/-- Reads a mark and the form behind it. -/
def readMarked : Nat → String → Reads Value
  | 0, _ => Reads.giveUp
  | limit + 1, name => do
    let _ ← advance tokens
    return Form.call name [← readForm limit]

/-- Reads the mark of a note, the note, and the form that it is on. -/
def readNoted : Nat → Reads Value
  | 0 => Reads.giveUp
  | limit + 1 => do
    let _ ← advance tokens
    let note ← readForm limit
    let form ← readForm limit
    return Form.call "with-meta" [form, note]

/-- Reads an opening mark and the forms up to the mark that closes it. That it is an opening mark is
not looked at. -/
def readSequence : Nat → Reads (List Value)
  | 0 => Reads.giveUp
  | limit + 1 => do
    match ← advance tokens with
    | none => throw .incomplete
    | some opening =>
      let closer ← Reads.ask opening.kind.closer
      readItems limit closer []

/-- Reads forms up to a closing mark. -/
def readItems : Nat → TokenKind → List Value → Reads (List Value)
  | 0, _, _ => Reads.giveUp
  | limit + 1, closer, forms => do
    match ← peek tokens with
    | none => throw .incomplete
    | some token =>
      if token.kind = closer then
        let _ ← advance tokens
        return forms
      else if token.kind.isClosing then
        throw (.unreadable token.position (.mismatched token.lexeme))
      else
        let form ← readForm limit
        readItems limit closer (forms ++ [form])

end

/-- Reads a form wherever the cursor stands. The limit is never reached. -/
def readNext : Reads Value := readForm tokens (3 * tokens.length + 1)

end Reader

section Agreement

variable {tokens : List Token} {limit : Nat} {token : Token} {rest following left : List Token}
  {name : String} {outcome : Except Error Value}

/-- With some limit, a form comes to what the reader comes to, and leaves what the reader leaves. -/
def Agrees (tokens : List Token) (limit : Nat) (rest : List Token) : Prop :=
  ComesTo tokens (readForm tokens limit) rest (Form.read rest).outcome (Form.read rest).rest

/-- A form that is read is handed to the unfinished forms around it, and reading goes on there. -/
theorem Agrees.bind_within {outer : List Unfinished} {second : Value → Reads Value}
    (inner : Agrees tokens limit rest)
    (goesOn : ∀ form left, Form.read rest = ⟨.ok form, left⟩ →
      ComesTo tokens (second form) left ((Form.deliver form outer).resume left).outcome
        ((Form.deliver form outer).resume left).rest) :
    ComesTo tokens (readForm tokens limit >>= second) rest
      ((Form.read rest).within outer).outcome ((Form.read rest).within outer).rest := by
  rw [Agrees] at inner
  cases reads : Form.read rest with
  | mk outcome left =>
    rw [reads] at inner
    cases outcome with
    | error error => exact inner.bind_error
    | ok form => exact inner.bind_ok (goesOn form left reads)

theorem agrees_nil : Agrees tokens (limit + 1) [] := by
  rw [Agrees, readForm]
  exact (ComesTo.peek []).bind_ok (.throw .incomplete [])

theorem agrees_atom (isAtom : token.kind = .atom) :
    Agrees tokens (limit + 1) (token :: following) := by
  rw [Agrees, Form.read_atom isAtom, readForm]
  refine (ComesTo.peek _).bind_ok ?_
  simp only [List.head?_cons, isAtom, readAtom]
  refine (ComesTo.advance token following).bind_ok ?_
  simp only [atomOf_eq]
  exact .of _ _

theorem agrees_closing (closes : token.kind.isClosing = true) :
    Agrees tokens (limit + 1) (token :: following) := by
  have refused : ComesTo tokens (do
        let token ← current tokens
        throw (.unreadable token.position (.unexpected token.lexeme)) : Reads Value)
      (token :: following) (.error (.unreadable token.position (.unexpected token.lexeme)))
      (token :: following) :=
    (ComesTo.current token following).bind_ok (.throw _ _)
  rw [Agrees, Form.read_of_isClosing closes, readForm]
  refine (ComesTo.peek _).bind_ok ?_
  simp only [List.head?_cons]
  -- The three closing marks are refused alike, and no other kind is closing.
  revert closes
  cases token.kind <;> (intro closes; cases closes) <;> exact refused

theorem readForm_abbreviated (abbreviates : Form.abbreviation? token.kind = some name)
    (marked : ComesTo tokens (readMarked tokens limit name) (token :: following) outcome left) :
    ComesTo tokens (readForm tokens (limit + 1)) (token :: following) outcome left := by
  rw [readForm]
  refine (ComesTo.peek _).bind_ok ?_
  simp only [List.head?_cons]
  -- Each of the five marks has its name; the other kinds have none.
  revert abbreviates
  cases token.kind <;> (intro abbreviates; cases abbreviates) <;> exact marked

theorem agrees_abbreviated (abbreviates : Form.abbreviation? token.kind = some name)
    (inner : Agrees tokens limit following) : Agrees tokens (limit + 2) (token :: following) := by
  refine readForm_abbreviated abbreviates ?_
  rw [Form.read_abbreviated abbreviates, readMarked]
  refine (ComesTo.advance token following).bind_ok ?_
  exact inner.bind_within fun form left _ => .pure _ _

theorem agrees_noted (isMark : token.kind = .caret)
    (inner : ∀ shorter, shorter.length ≤ following.length → Agrees tokens limit shorter) :
    Agrees tokens (limit + 2) (token :: following) := by
  rw [Agrees, Form.read_noted isMark, readForm]
  refine (ComesTo.peek _).bind_ok ?_
  simp only [List.head?_cons, isMark]
  rw [readNoted]
  refine (ComesTo.advance token following).bind_ok ?_
  refine (inner following le_rfl).bind_within fun note middle reads => ?_
  rw [Form.resume_noteMark]
  exact (inner middle (Form.read_length_lt reads).le).bind_within fun form left _ => .pure _ _

/-- The items of a sequence, and what is built of them at its end. -/
theorem readItems_comesTo (delimiters : Delimiters) (reversed : List Value)
    (enough : 3 * rest.length + 2 ≤ limit)
    (inner : ∀ shorter limit, shorter.length ≤ rest.length → 3 * shorter.length + 1 ≤ limit →
      Agrees tokens limit shorter) :
    ComesTo tokens
      (readItems tokens limit delimiters.closer reversed.reverse >>= fun forms =>
        .of (delimiters.build forms)) rest
      (readWithin [.sequence delimiters reversed] rest).outcome
      (readWithin [.sequence delimiters reversed] rest).rest := by
  -- The limit goes down with each item, while fewer tokens remain.
  induction limit generalizing rest reversed with
  | zero => omega
  | succ limit ih =>
    rw [readItems, bind_assoc]
    refine (ComesTo.peek rest).bind_ok ?_
    cases rest with
    | nil => exact ComesTo.bind_error (.throw .incomplete [])
    | cons token following =>
      simp only [List.head?_cons]
      by_cases isCloser : token.kind = delimiters.closer
      · rw [if_pos isCloser, Form.readWithin_closer isCloser, bind_assoc]
        refine (ComesTo.advance token following).bind_ok ?_
        rw [pure_bind]
        exact .of _ following
      rw [if_neg isCloser]
      cases closes : token.kind.isClosing with
      | true =>
        rw [Form.readWithin_mismatched isCloser closes]
        exact ComesTo.bind_error (.throw _ _)
      | false =>
        rw [Form.readWithin_eq_within closes, if_neg Bool.false_ne_true, bind_assoc]
        refine (inner _ limit le_rfl (by omega)).bind_within fun form left reads => ?_
        -- The form joins the items, and fewer tokens are left behind it.
        have fewer := Form.read_length_lt reads
        have others := ih (form :: reversed) (by omega) fun shorter limit short =>
          inner shorter limit (short.trans fewer.le)
        rwa [List.reverse_cons] at others

theorem agrees_sequence {delimiters : Delimiters} (opens : token.kind = delimiters.opener)
    (enough : 3 * following.length + 2 ≤ limit)
    (inner : ∀ shorter limit, shorter.length ≤ following.length → 3 * shorter.length + 1 ≤ limit →
      Agrees tokens limit shorter) :
    Agrees tokens (limit + 2) (token :: following) := by
  have items := readItems_comesTo delimiters [] enough inner
  have enters : ComesTo tokens
      (readSequence tokens (limit + 1) >>= fun forms => .of (delimiters.build forms))
      (token :: following) (readWithin [.sequence delimiters []] following).outcome
      (readWithin [.sequence delimiters []] following).rest := by
    rw [readSequence, bind_assoc]
    refine (ComesTo.advance token following).bind_ok ?_
    simp only [opens, Delimiters.closer_opener, Reads.ask_some, pure_bind]
    exact items
  rw [Agrees, Form.read_sequence opens, readForm]
  refine (ComesTo.peek _).bind_ok ?_
  simp only [List.head?_cons, opens]
  -- Only a map looks once more at what has been read.
  cases delimiters with
  | parens => exact enters
  | brackets => exact enters
  | braces =>
    simp only [← mapOf_eq] at enters
    exact enters

/-- The descent comes to what the reader comes to. Three calls go deeper at most for each token. -/
theorem readForm_comesTo (tokens : List Token) {rest : List Token}
    (enough : 3 * rest.length + 1 ≤ limit) : Agrees tokens limit rest := by
  -- Everything inside a form stands behind its first token, so there is less of it.
  induction size : rest.length using Nat.strong_induction_on generalizing rest limit with
  | _ _ ih =>
    subst size
    cases rest with
    | nil =>
      obtain ⟨limit, rfl⟩ := Nat.exists_eq_add_of_le' enough
      exact agrees_nil
    | cons token following =>
      rw [List.length_cons] at enough
      obtain ⟨limit, rfl⟩ := Nat.exists_eq_add_of_le' (by omega : 2 ≤ limit)
      have inner (shorter : List Token) (limit : Nat) (short : shorter.length ≤ following.length)
          (enough : 3 * shorter.length + 1 ≤ limit) : Agrees tokens limit shorter :=
        ih _ (Nat.lt_succ_of_le short) enough rfl
      rcases Form.kind_cases token.kind with isAtom | ⟨name, abbreviates⟩ | isMark |
        ⟨delimiters, opens⟩ | closes
      · exact agrees_atom isAtom
      · exact agrees_abbreviated abbreviates (inner following limit le_rfl (by omega))
      · exact agrees_noted isMark fun shorter short => inner shorter limit short (by omega)
      · exact agrees_sequence opens (by omega) inner
      · exact agrees_closing closes

/-- Wherever the cursor stands, the next form comes to what the reader comes to. -/
theorem readNext_comesTo (tokens rest : List Token) :
    ComesTo tokens (readNext tokens) rest (Form.read rest).outcome (Form.read rest).rest := by
  intro cursor isAt
  have bound := isAt.length_le
  exact readForm_comesTo tokens (by omega) cursor isAt

end Agreement

/-! ### Texts -/

/-- Reads forms up to the end of the tokens, and gives up after some rounds. -/
def readForms (tokens : List Token) : Nat → List Value → Reads (List Value)
  | 0, _ => Reads.giveUp
  | rounds + 1, forms => do
    if ← isAtEnd tokens then return forms
    else
      let form ← readNext tokens
      readForms tokens rounds (forms ++ [form])

/-- Calls the reader several times, whatever comes of each call. -/
def readTimes (tokens : List Token) : Nat → Nat → Option (List (Except Error Value) × Nat)
  | 0, cursor => return ([], cursor)
  | calls + 1, cursor => do
    let (outcome, cursor) ← (readNext tokens).begin cursor
    let (outcomes, cursor) ← readTimes tokens calls cursor
    return (outcome :: outcomes, cursor)

/-- The first form of a text. -/
def formOfText (source : String) : Option (Except Error Value) := do
  let tokens ← scan source
  let (outcome, _) ← (readNext tokens).begin 0
  return outcome

/-- All forms of a text. There are not more rounds than tokens, and one at the end. -/
def formsOfText (source : String) : Option (Except Error (List Value)) := do
  let tokens ← scan source
  let (outcome, _) ← (readForms tokens (tokens.length + 1) []).begin 0
  return outcome

theorem readForms_comesTo (tokens : List Token) {rest : List Token} {rounds : Nat}
    (enough : rest.length < rounds) (forms : List Value) :
    ∃ left, ComesTo tokens (readForms tokens rounds forms) rest
      ((Form.readAll rest).map (forms ++ ·)) left := by
  induction rounds generalizing rest forms with
  | zero => exact absurd enough (Nat.not_lt_zero _)
  | succ rounds ih =>
    by_cases isEmpty : rest = []
    · subst isEmpty
      rw [Form.readAll_nil, Except.map, List.append_nil, readForms]
      exact ⟨[], (ComesTo.isAtEnd []).bind_ok (.pure forms [])⟩
    have first := readNext_comesTo tokens rest
    rw [Form.readAll_eq_of_ne_nil isEmpty, readForms]
    cases reads : Form.read rest with
    | mk outcome middle =>
      rw [reads] at first
      cases outcome with
      | error error =>
        refine ⟨middle, (ComesTo.isAtEnd rest).bind_ok ?_⟩
        rw [if_neg (by simpa using isEmpty)]
        exact first.bind_error
      | ok form =>
        have fewer := Form.read_length_lt reads
        obtain ⟨left, others⟩ := ih (by omega : middle.length < rounds) (forms ++ [form])
        have joins : ((Form.readAll middle).map (form :: ·)).map (forms ++ ·) =
            (Form.readAll middle).map (forms ++ [form] ++ ·) := by
          cases Form.readAll middle <;> simp [Except.map]
        refine ⟨left, (ComesTo.isAtEnd rest).bind_ok ?_⟩
        rw [if_neg (by simpa using isEmpty), joins]
        exact first.bind_ok others

theorem readTimes_eq (tokens : List Token) (calls : Nat) {cursor : Nat} {rest : List Token}
    (isAt : IsAt tokens cursor rest) :
    ∃ cursor', readTimes tokens calls cursor = some ((Form.readTimes calls rest).1, cursor') ∧
      IsAt tokens cursor' (Form.readTimes calls rest).2 := by
  induction calls generalizing cursor rest with
  | zero => exact ⟨cursor, rfl, isAt⟩
  | succ calls ih =>
    obtain ⟨middle, reads, isAtMiddle⟩ := readNext_comesTo tokens rest cursor isAt
    obtain ⟨last, others, isAtLast⟩ := ih isAtMiddle
    refine ⟨last, ?_, isAtLast⟩
    rw [readTimes, reads]
    simp only [Option.bind_eq_bind, Option.bind_some, others]
    rfl

theorem formOfText_eq (source : String) : formOfText source = some (Form.ofText source) := by
  obtain ⟨cursor, reads, _⟩ := readNext_comesTo _ _ 0 (isAt_zero (Token.scan source))
  rw [formOfText, scan_eq]
  simp only [Option.bind_eq_bind, Option.bind_some, reads]
  rfl

theorem formsOfText_eq (source : String) : formsOfText source = some (Form.allOfText source) := by
  obtain ⟨left, comes⟩ := readForms_comesTo (Token.scan source) (Nat.lt_succ_self _) []
  obtain ⟨cursor, reads, _⟩ := comes 0 (isAt_zero _)
  rw [formsOfText, scan_eq]
  simp only [Option.bind_eq_bind, Option.bind_some, reads, List.nil_append]
  rw [Form.allOfText]
  cases Form.readAll (Token.scan source) <;> rfl

end Positional

/-- **Scanning and reading ask for nothing that is not there.** Lexemes, and what stands between
them, are cut out of a text by bytes; a token is asked for at the cursor, and a mark for the one
that closes it; the colon of a keyword and the quotes of a string are cut off by bytes, and a
numeral is asked for its value. For every text there is always an answer, and scanning and reading
end with what the scanner and the reader come to. The reader may be called any number of times on
any tokens, also after it has failed: each call ends with a form or an error, and leaves the cursor
among the tokens, or at the end, in front of those that remain. -/
theorem reading_stays_in_range (source : String) (tokens : List Token) (calls : Nat) :
    Positional.scan source = some (Token.scan source) ∧
    Positional.formOfText source = some (Form.ofText source) ∧
    Positional.formsOfText source = some (Form.allOfText source) ∧
    ∃ cursor, Positional.readTimes tokens calls 0 =
        some ((Form.readTimes calls tokens).1, cursor) ∧
      cursor ≤ tokens.length ∧ tokens.drop cursor = (Form.readTimes calls tokens).2 :=
  ⟨Positional.scan_eq source, Positional.formOfText_eq source, Positional.formsOfText_eq source,
    Positional.readTimes_eq tokens calls (Positional.isAt_zero tokens)⟩

end SmallLisp
