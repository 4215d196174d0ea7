import SmallLisp.Form.Atom
import SmallLisp.Token.Scan
import SmallLisp.Value.Entries

/-!
# Reading forms

A form is an atom, a sequence between delimiters, or a form behind one of the marks that
abbreviate a call. The tokens are read once from left to right. The forms that have begun and
not ended are kept on a stack, innermost first; a token either opens another one, or completes
a form, which is handed to the innermost one that waits for it.

Reading stops at the end of the first form, and nothing after it is looked at. When it fails,
the tokens that remain are those after the offending one, except that a closing mark that fits
nowhere is left where it stands.

## Main definitions

* `Form.Unfinished`: a form that has begun and not ended
* `Form.deliver`: a completed form handed to the innermost unfinished one
* `Form.step`: what one token does
* `Form.read`: the first form of a run of tokens, and the tokens left
* `Form.readAll`: all forms of a run of tokens
* `Form.ofText`, `Form.allOfText`: the same from a text

## Main results

* `Form.read_length_lt`: reading a form uses up at least one token
-/

namespace SmallLisp.Form

/-- The pairs of marks that delimit a sequence. -/
inductive Delimiters where
  | parens
  | brackets
  | braces
  deriving DecidableEq, Repr

namespace Delimiters

/-- The mark that opens the sequence. -/
def opener : Delimiters → TokenKind
  | parens => .leftParen
  | brackets => .leftBracket
  | braces => .leftBrace

/-- The mark that closes the sequence. -/
def closer : Delimiters → TokenKind
  | parens => .rightParen
  | brackets => .rightBracket
  | braces => .rightBrace

theorem closer_opener (delimiters : Delimiters) :
    delimiters.opener.closer = some delimiters.closer := by
  cases delimiters <;> rfl

/-- The value of a sequence: parentheses make a list, brackets a vector, and braces a map
from alternating keys and values. -/
def build : Delimiters → List Value → Except Error Value
  | parens, items => .ok (.list items)
  | brackets, items => .ok (.vector items)
  | braces, items =>
    match Entries.ofForms? items with
    | some entries => .ok (.map entries)
    | none => .error (.keyWithoutValue items.length)

end Delimiters

/-- A form that has begun and not ended. -/
inductive Unfinished where
  /-- A sequence with the items read so far, in reverse. -/
  | sequence (delimiters : Delimiters) (reversed : List Value)
  /-- A mark that abbreviates a call of `name`. -/
  | marked (name : String)
  /-- The mark of a note on a form; the note is still to come. -/
  | noteMark
  /-- The mark and the note; the form it is on is still to come. -/
  | noted (note : Value)

/-- How far reading has come. -/
inductive Progress where
  | finished (form : Value)
  | unfinished (around : List Unfinished)

/-- A call written out. -/
def call (name : String) (arguments : List Value) : Value := .list (.symbol name :: arguments)

/-- Hands a completed form to the innermost unfinished one, which may complete that in
turn. -/
def deliver (form : Value) : List Unfinished → Progress
  | [] => .finished form
  | .sequence delimiters reversed :: around =>
    .unfinished (.sequence delimiters (form :: reversed) :: around)
  | .marked name :: around => deliver (call name [form]) around
  | .noteMark :: around => .unfinished (.noted form :: around)
  | .noted note :: around => deliver (call "with-meta" [form, note]) around

/-- What one token does. -/
inductive Step where
  /-- The token is read. -/
  | advanced (progress : Progress)
  /-- The token is read, and reading fails. -/
  | failed (error : Error)
  /-- The token is left where it stands, and reading fails. -/
  | refused (error : Error)

/-- Reads a token on which a form starts. -/
def start (token : Token) (around : List Unfinished) : Step :=
  match token.kind with
  | .quote => .advanced (.unfinished (.marked "quote" :: around))
  | .backquote => .advanced (.unfinished (.marked "quasiquote" :: around))
  | .tilde => .advanced (.unfinished (.marked "unquote" :: around))
  | .tildeAt => .advanced (.unfinished (.marked "splice-unquote" :: around))
  | .atSign => .advanced (.unfinished (.marked "deref" :: around))
  | .caret => .advanced (.unfinished (.noteMark :: around))
  | .leftParen => .advanced (.unfinished (.sequence .parens [] :: around))
  | .leftBracket => .advanced (.unfinished (.sequence .brackets [] :: around))
  | .leftBrace => .advanced (.unfinished (.sequence .braces [] :: around))
  | .rightParen | .rightBracket | .rightBrace =>
    .refused (.unreadable token.position (.unexpected token.lexeme))
  | .atom =>
    match ofAtom token with
    | .ok value => .advanced (deliver value around)
    | .error error => .failed error

/-- Closes a sequence. -/
def close (delimiters : Delimiters) (reversed : List Value) (around : List Unfinished) : Step :=
  match delimiters.build reversed.reverse with
  | .ok value => .advanced (deliver value around)
  | .error error => .failed error

/-- Reads a token. Only directly inside a sequence can a closing mark be read. -/
def step (token : Token) (around : List Unfinished) : Step :=
  match around with
  | .sequence delimiters reversed :: outer =>
    if token.kind = delimiters.closer then close delimiters reversed outer
    else if token.kind.isClosing then
      .refused (.unreadable token.position (.mismatched token.lexeme))
    else start token around
  | _ => start token around

/-- A form, or why there is none, and the tokens that remain. -/
structure Reading where
  outcome : Except Error Value
  rest : List Token

/-- Reads on inside unfinished forms until the outermost one is complete. -/
def readWithin : List Unfinished → List Token → Reading
  | _, [] => ⟨.error .incomplete, []⟩
  | around, token :: rest =>
    match step token around with
    | .advanced (.finished form) => ⟨.ok form, rest⟩
    | .advanced (.unfinished around) => readWithin around rest
    | .failed error => ⟨.error error, rest⟩
    | .refused error => ⟨.error error, token :: rest⟩

/-- Reads the first form of a run of tokens. -/
def read (tokens : List Token) : Reading := readWithin [] tokens

theorem readWithin_length_lt {around : List Unfinished} {tokens rest : List Token} {form : Value}
    (complete : readWithin around tokens = ⟨.ok form, rest⟩) : rest.length < tokens.length := by
  induction tokens generalizing around with
  | nil => simp [readWithin] at complete
  | cons token following ih =>
    unfold readWithin at complete
    split at complete
    · cases complete
      simp
    · exact Nat.lt_succ_of_lt (ih complete)
    · cases complete
    · cases complete

/-- Reading a form uses up at least one token. -/
theorem read_length_lt {tokens rest : List Token} {form : Value}
    (complete : read tokens = ⟨.ok form, rest⟩) : rest.length < tokens.length :=
  readWithin_length_lt complete

/-- Reads all forms of a run of tokens, and fails where one of them cannot be read. -/
def readAll (tokens : List Token) : Except Error (List Value) :=
  if tokens.isEmpty then .ok []
  else
    match complete : read tokens with
    | ⟨.error error, _⟩ => .error error
    | ⟨.ok form, rest⟩ =>
      have : rest.length < tokens.length := read_length_lt complete
      (readAll rest).map (form :: ·)
termination_by tokens.length

/-- The first form of a text. What follows it is ignored. -/
def ofText (text : String) : Except Error Value := (read (Token.scan text)).outcome

/-- All forms of a text. -/
def allOfText (text : String) : Except Error (List Value) := readAll (Token.scan text)

end SmallLisp.Form
