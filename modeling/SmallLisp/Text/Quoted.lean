/-!
# Quoted text

The printer's readable form of a string: quotes around it, and a backslash before each quote
and backslash; a newline becomes a backslash and the letter `n`. All other characters stand
for themselves, control characters included.

## Main definitions

* `Quoted.escapeChar`: how one character is written between the quotes
* `Quoted.encode`: the quoted form of a text
-/

namespace SmallLisp.Quoted

/-- How one character is written between the quotes. -/
def escapeChar : Char → List Char
  | '\\' => ['\\', '\\']
  | '"' => ['\\', '"']
  | '\n' => ['\\', 'n']
  | c => [c]

/-- The text between the quotes. -/
def escape (text : List Char) : List Char := text.flatMap escapeChar

/-- The quoted form of a text. -/
def encode (text : String) : String := String.ofList ('"' :: escape text.toList ++ ['"'])

@[simp] theorem escape_nil : escape [] = [] := rfl

@[simp] theorem escape_cons (c : Char) (rest : List Char) :
    escape (c :: rest) = escapeChar c ++ escape rest := rfl

end SmallLisp.Quoted
