import SmallLisp.TopLevel
import SmallLisp.Settings
import SmallLisp.Text.Blank

/-!
# Conversation

A session reads lines and answers each complete form with its value or its error. Lines are
gathered as long as the form they begin is incomplete; whether it is, only reading decides, and
never what its evaluation says. Of each submission the first form is evaluated. A blank line
between submissions is passed over, and a submission that is incomplete when the input ends is
dropped.

## Main definitions

* `Repl.Session`: the lines gathered, and what has been submitted
* `Repl.Verdict`, `Repl.examine`: what becomes of the lines gathered so far
* `Repl.feed`: takes in a line
* `Repl.inputLines`: the lines of an input
* `Repl.prompt`: what is shown before a line is read
-/

namespace SmallLisp.Repl

/-- A conversation under way. -/
structure Session where
  /-- The lines of an incomplete form, each with its line break. -/
  pending : String
  /-- The submissions made, the latest first. -/
  submissions : List String
  deriving DecidableEq, Repr

/-- A conversation in which nothing has been entered. -/
def Session.fresh : Session := ⟨"", []⟩

/-- What becomes of the lines gathered so far. -/
inductive Verdict where
  /-- The form is incomplete, and more lines are awaited. -/
  | incomplete
  /-- The text cannot be read. -/
  | unreadable (error : Error)
  /-- The form is to be evaluated. -/
  | complete (form : Value)

/-- Reads the lines gathered so far. -/
def examine (text : String) : Verdict :=
  match Form.ofText text with
  | .ok form => .complete form
  | .error .incomplete => .incomplete
  | .error error => .unreadable error

/-- The answer to a submission that fails: a thrown value is shown as it is, and any other
error by its wording. -/
def errorAnswer (error : Error) : Eval String := do
  match error with
  | .thrown payload => return "Error: " ++ (← Eval.readableText payload)
  | other => return "Error: " ++ (← Eval.errorText other)

/-- The answer to a complete form: its value, or its error. -/
def answer (fuel : Nat) (form : Value) : Eval String := do
  match ← Eval.attempt (TopLevel.evaluate fuel form) with
  | .ok value => Eval.readableText value
  | .error error => errorAnswer error

/-- Takes in a line, without its line break. -/
def feed (fuel : Nat) (session : Session) (line : String) : Eval Session := do
  if session.pending.isEmpty && isBlankText line then return session
  let text := session.pending ++ line ++ "\n"
  match examine text with
  | .incomplete => return { session with pending := text }
  | .unreadable error =>
    Eval.printLine (← errorAnswer error)
    return ⟨"", text :: session.submissions⟩
  | .complete form =>
    Eval.printLine (← answer fuel form)
    return ⟨"", text :: session.submissions⟩

/-- A line without its line break, which may be preceded by a carriage return. -/
def chomp (line : List Char) : List Char :=
  match line.reverse with
  | '\n' :: '\r' :: rest => rest.reverse
  | '\n' :: rest => rest.reverse
  | _ => line

/-- The lines of an input, each with its line break. The last may lack it. -/
def splitLines : List Char → List (List Char)
  | [] => []
  | c :: rest =>
    if c = '\n' then [c] :: splitLines rest
    else
      match splitLines rest with
      | [] => [[c]]
      | line :: lines => (c :: line) :: lines

/-- The lines of an input, without their line breaks. -/
def inputLines (input : String) : List String :=
  (splitLines input.toList).map fun line => String.ofList (chomp line)

/-- What is shown before a line is read: the prompt, or as much blank space as the prompt has
bytes when a form is incomplete. -/
def prompt (settings : Settings) (session : Session) : String :=
  if session.pending.isEmpty then settings.prompt
  else String.ofList (List.replicate settings.prompt.utf8ByteSize ' ')

end SmallLisp.Repl
