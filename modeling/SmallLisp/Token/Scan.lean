import SmallLisp.Text.Blank
import SmallLisp.Token

/-!
# Cutting a text into tokens

A text is cut by reading it once from left to right. After each character the scanner is in
one of a few modes, which hold the piece that is still growing, and it hands out the pieces
that the character completes. The pieces, put end to end, are the text: separators (white
space and commas, one character each), comments, and lexemes. The tokens are the lexemes with
the places at which they start.

A string literal runs to the first quote that is not escaped. It also ends, unfinished, at the
end of the text, and before a backslash that has no character on its line to escape; that
backslash then starts a piece of its own.

## Main definitions

* `Piece`: a separator, a comment or a lexeme
* `Scan.Mode`: the piece in progress
* `Scan.step`, `Scan.finish`: what a character, or the end of the text, completes
* `Scan.pieces`: the pieces of a text
* `Token.scan`: the tokens of a text

## Main results

* `Scan.step_text`: a character is added to the pieces handed out and in progress, and nothing
  is lost
* `Scan.pieces_text`: the pieces of a text, put end to end, are the text
-/

namespace SmallLisp

/-- A part of a text. -/
inductive Piece where
  | separator (c : Char)
  | comment (text : List Char)
  | lexeme (text : List Char)
  deriving DecidableEq, Repr

/-- The characters of a piece. -/
def Piece.text : Piece → List Char
  | .separator c => [c]
  | .comment text => text
  | .lexeme text => text

namespace Scan

/-- Whether a character separates tokens without being part of one. -/
def isSeparator (c : Char) : Bool := c == ',' || isBlank c

/-- The marks that are tokens by themselves wherever they stand outside strings and
comments. -/
def isMark (c : Char) : Bool :=
  c == '(' || c == ')' || c == '[' || c == ']' || c == '\x7b' || c == '\x7d' ||
    c == '\'' || c == '\x60'

/-- The marks that are tokens by themselves only where a token starts; inside a run they are
ordinary characters. The tilde is treated apart, for it may join with the next character. -/
def isLeadingMark (c : Char) : Bool := c == '^' || c == '@'

/-- Whether a character can belong to a run: the lexemes of numbers, keywords and symbols. -/
def isRunChar (c : Char) : Bool :=
  !(isSeparator c || isMark c || c == '"' || c == ';')

/-- The piece in progress. Its characters are held in reverse. -/
inductive Mode where
  /-- No piece is in progress. -/
  | start
  /-- A tilde, which may still be joined by `@`. -/
  | tilde
  /-- A run. -/
  | run (reversed : List Char)
  /-- A comment. -/
  | comment (reversed : List Char)
  /-- A string literal. -/
  | literal (reversed : List Char)
  /-- A string literal followed by a backslash whose escaped character is still to come. -/
  | escape (reversed : List Char)
  deriving DecidableEq, Repr

/-- The characters of the piece in progress. -/
def Mode.text : Mode → List Char
  | start => []
  | tilde => ['~']
  | run reversed => reversed.reverse
  | comment reversed => reversed.reverse
  | literal reversed => reversed.reverse
  | escape reversed => reversed.reverse ++ ['\\']

/-- What a character does where no piece is in progress. -/
def begin (c : Char) : Mode × List Piece :=
  if isSeparator c then (.start, [.separator c])
  else if isMark c || isLeadingMark c then (.start, [.lexeme [c]])
  else if c = '~' then (.tilde, [])
  else if c = '"' then (.literal [c], [])
  else if c = ';' then (.comment [c], [])
  else (.run [c], [])

/-- Hands out `done` pieces and then treats a character as the first of a new piece. -/
def beginAfter (done : List Piece) (c : Char) : Mode × List Piece :=
  let (mode, pieces) := begin c
  (mode, done ++ pieces)

/-- The mode after a character, and the pieces the character completes. -/
def step : Mode → Char → Mode × List Piece
  | .start, c => begin c
  | .tilde, c =>
    if c = '@' then (.start, [.lexeme ['~', '@']]) else beginAfter [.lexeme ['~']] c
  | .run reversed, c =>
    if isRunChar c then (.run (c :: reversed), [])
    else beginAfter [.lexeme reversed.reverse] c
  | .comment reversed, c =>
    if c = '\n' then beginAfter [.comment reversed.reverse] c
    else (.comment (c :: reversed), [])
  | .literal reversed, c =>
    if c = '"' then (.start, [.lexeme (c :: reversed).reverse])
    else if c = '\\' then (.escape reversed, [])
    else (.literal (c :: reversed), [])
  | .escape reversed, c =>
    if c = '\n' then beginAfter [.lexeme reversed.reverse, .lexeme ['\\']] c
    else (.literal (c :: '\\' :: reversed), [])

/-- The pieces the end of the text completes. -/
def finish : Mode → List Piece
  | .start => []
  | .tilde => [.lexeme ['~']]
  | .run reversed => [.lexeme reversed.reverse]
  | .comment reversed => [.comment reversed.reverse]
  | .literal reversed => [.lexeme reversed.reverse]
  | .escape reversed => [.lexeme reversed.reverse, .lexeme ['\\']]

/-- The pieces handed out from a mode on, to the end of the text. -/
def piecesFrom : Mode → List Char → List Piece
  | mode, [] => finish mode
  | mode, c :: rest =>
    let (next, pieces) := step mode c
    pieces ++ piecesFrom next rest

/-- The pieces of a text. -/
def pieces (text : List Char) : List Piece := piecesFrom .start text

/-- The lexemes among pieces, with the places at which they start when the first piece
starts at `place`. -/
def locate (place : Position) : List Piece → List Token
  | [] => []
  | .lexeme text :: rest =>
    Token.ofLexeme (String.ofList text) place :: locate (place.after text) rest
  | piece :: rest => locate (place.after piece.text) rest

theorem begin_text (c : Char) :
    (begin c).2.flatMap Piece.text ++ (begin c).1.text = [c] := by
  unfold begin
  repeat' split
  all_goals simp_all [Mode.text, Piece.text]

theorem beginAfter_text (done : List Piece) (c : Char) :
    (beginAfter done c).2.flatMap Piece.text ++ (beginAfter done c).1.text =
      done.flatMap Piece.text ++ [c] := by
  simp [beginAfter, List.append_assoc, begin_text]

/-- A character is added to the pieces handed out and in progress, and nothing is lost. -/
theorem step_text (mode : Mode) (c : Char) :
    (step mode c).2.flatMap Piece.text ++ (step mode c).1.text = mode.text ++ [c] := by
  cases mode with
  | start => simpa [step, Mode.text] using begin_text c
  | tilde =>
    by_cases joins : c = '@'
    · simp [step, joins, Mode.text, Piece.text]
    · simp only [step, if_neg joins, beginAfter_text]
      simp [Mode.text, Piece.text]
  | run reversed =>
    by_cases grows : isRunChar c = true
    · simp [step, grows, Mode.text]
    · simp only [step, if_neg grows, beginAfter_text]
      simp [Mode.text, Piece.text]
  | comment reversed =>
    by_cases ends : c = '\n'
    · simp only [step, if_pos ends, beginAfter_text]
      simp [Mode.text, Piece.text]
    · simp [step, ends, Mode.text]
  | literal reversed =>
    by_cases closes : c = '"'
    · simp [step, closes, Mode.text, Piece.text]
    · by_cases escapes : c = '\\'
      · simp [step, escapes, Mode.text]
      · simp [step, closes, escapes, Mode.text]
  | escape reversed =>
    by_cases breaks : c = '\n'
    · simp only [step, if_pos breaks, beginAfter_text]
      simp [Mode.text, Piece.text]
    · simp [step, breaks, Mode.text]

theorem finish_text (mode : Mode) : (finish mode).flatMap Piece.text = mode.text := by
  cases mode <;> simp [finish, Mode.text, Piece.text]

theorem piecesFrom_text (mode : Mode) (text : List Char) :
    (piecesFrom mode text).flatMap Piece.text = mode.text ++ text := by
  induction text generalizing mode with
  | nil => simp [piecesFrom, finish_text]
  | cons c rest ih =>
    simp only [piecesFrom, List.flatMap_append, ih, ← List.append_assoc, step_text]
    simp

/-- The pieces of a text, put end to end, are the text. -/
theorem pieces_text (text : List Char) : (pieces text).flatMap Piece.text = text :=
  piecesFrom_text .start text

end Scan

/-- The tokens of a text. -/
def Token.scan (text : String) : List Token :=
  Scan.locate Position.start (Scan.pieces text.toList)

end SmallLisp
