/-!
# Tokens

A token is a lexeme with the place where it starts. Punctuation has a kind of its own for
each mark; everything else (numbers, strings, keywords, symbols) is an atom, and what sort of
atom it is shows only when it is read.

## Main definitions

* `TokenKind`: the twelve punctuation marks, and atoms
* `TokenKind.ofLexeme`: the kind of a lexeme
* `TokenKind.closer`: the mark that closes an opening mark
* `Position`: a place in a text, by line and column
* `Token`: a lexeme with its kind and place
-/

namespace SmallLisp

/-- What a lexeme is to the reader. -/
inductive TokenKind where
  | leftParen
  | rightParen
  | leftBracket
  | rightBracket
  | leftBrace
  | rightBrace
  | quote
  | backquote
  | tilde
  | tildeAt
  | caret
  | atSign
  | atom
  deriving DecidableEq, Repr, Inhabited

namespace TokenKind

/-- The kind of a lexeme: punctuation by its spelling, and an atom otherwise. -/
def ofLexeme (lexeme : String) : TokenKind :=
  match lexeme.toList with
  | ['('] => leftParen
  | [')'] => rightParen
  | ['['] => leftBracket
  | [']'] => rightBracket
  | ['\x7b'] => leftBrace
  | ['\x7d'] => rightBrace
  | ['\''] => quote
  | ['\x60'] => backquote
  | ['~'] => tilde
  | ['~', '@'] => tildeAt
  | ['^'] => caret
  | ['@'] => atSign
  | _ => atom

/-- The mark that closes an opening mark. -/
def closer : TokenKind → Option TokenKind
  | leftParen => some rightParen
  | leftBracket => some rightBracket
  | leftBrace => some rightBrace
  | _ => none

/-- Whether the kind is a closing mark. -/
def isClosing : TokenKind → Bool
  | rightParen | rightBracket | rightBrace => true
  | _ => false

end TokenKind

/-- A place in a text. Lines and columns are counted from one, columns in characters. -/
structure Position where
  line : Nat
  column : Nat
  deriving DecidableEq, Repr, Inhabited

namespace Position

/-- The place of the first character of a text. -/
def start : Position := ⟨1, 1⟩

/-- The place after a character; only a newline begins a new line. -/
def next (place : Position) (c : Char) : Position :=
  if c = '\n' then ⟨place.line + 1, 1⟩ else ⟨place.line, place.column + 1⟩

/-- The place after a run of characters. -/
def after (place : Position) (text : List Char) : Position := text.foldl next place

@[simp] theorem after_nil (place : Position) : place.after [] = place := rfl

@[simp] theorem after_cons (place : Position) (c : Char) (rest : List Char) :
    place.after (c :: rest) = (place.next c).after rest := rfl

@[simp] theorem after_append (place : Position) (first second : List Char) :
    place.after (first ++ second) = (place.after first).after second := by
  simp [after]

end Position

/-- A lexeme with its kind and the place of its first character. -/
structure Token where
  kind : TokenKind
  lexeme : String
  position : Position
  deriving DecidableEq, Repr, Inhabited

/-- The token of a lexeme at a place. -/
def Token.ofLexeme (lexeme : String) (position : Position) : Token :=
  ⟨TokenKind.ofLexeme lexeme, lexeme, position⟩

end SmallLisp
