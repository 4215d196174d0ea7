import SmallLisp.Error
import SmallLisp.Number.Text

/-!
# Reading an atom

A token that is no punctuation is a constant, a keyword, an integer, a string literal or, when
it is none of these, a symbol. The text of a string is what stands between its quotes, as it
stands: a backslash keeps the next character from ending the string, but both remain in the
text.

## Main definitions

* `Form.isClosedLiteral`: whether a lexeme that starts with a quote ends with another that is
  not escaped
* `Form.ofAtom`: the value of an atom
-/

namespace SmallLisp.Form

/-- The characters between the first and the last of a literal. -/
def literalBody (lexeme : List Char) : List Char := lexeme.tail.dropLast

/-- Whether a lexeme that starts with a quote ends with another that is not escaped: the
backslashes before the last quote pair up. -/
def isClosedLiteral (lexeme : List Char) : Bool :=
  decide (2 ≤ lexeme.length) && lexeme.getLast? == some '"' &&
    ((literalBody lexeme).reverse.takeWhile (· == '\\')).length % 2 == 0

/-- The constant a lexeme names. -/
def constant? (lexeme : String) : Option Value :=
  if lexeme = "nil" then some .nil
  else if lexeme = "true" then some (.bool true)
  else if lexeme = "false" then some (.bool false)
  else none

/-- The value of a lexeme that names no constant and is no keyword or number; `none` for a
string literal that does not end. -/
def literalOrSymbol? (lexeme : String) : Option Value :=
  match lexeme.toList with
  | '"' :: body =>
    if isClosedLiteral ('"' :: body) then some (.string (String.ofList (literalBody ('"' :: body))))
    else none
  | _ => some (.symbol lexeme)

/-- The value of a lexeme that is no punctuation; `none` for a string literal that does not
end. -/
def ofLexeme? (lexeme : String) : Option Value :=
  match constant? lexeme, lexeme.toList with
  | some value, _ => some value
  | none, ':' :: name => some (.keyword (String.ofList name))
  | none, characters =>
    match Number.ofText? characters with
    | some x => some (.number x)
    | none => literalOrSymbol? lexeme

/-- The value of an atom. Only a string literal that does not end has none. -/
def ofAtom (token : Token) : Except Error Value :=
  match ofLexeme? token.lexeme with
  | some value => .ok value
  | none => .error (.unreadable token.position .openString)

end SmallLisp.Form
