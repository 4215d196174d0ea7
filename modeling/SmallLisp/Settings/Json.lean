/-!
# Reading JSON

The data format of settings files, read strictly: one value with nothing but white space
around it, numbers and strings exactly as the format defines them. The value of a number is
not kept, for no setting is one. A string may spell characters by their units of sixteen bits,
and then two units make one character or fail to; a string with a unit that finds no partner
is read, but has no text.

## Main definitions

* `Json`: a value of the format
* `Json.combine?`: the text that characters and units make
* `Json.ofText?`: the value a text denotes
-/

namespace SmallLisp.Settings

/-- A value of the format. Strings with an unpaired unit have no text. -/
inductive Json where
  | null
  | bool (b : Bool)
  | number
  | string (text : Option String)
  | array (items : List Json)
  | object (members : List (Option String × Json))

namespace Json

/-- White space of the format. -/
def isSpace (c : Char) : Bool := c == ' ' || c == '\n' || c == '\t' || c == '\r'

/-- A text without the white space in front. -/
def skipSpace (text : List Char) : List Char := text.dropWhile isSpace

/-- The value of a hexadecimal digit. -/
def hexDigit? (c : Char) : Option Nat :=
  if '0' ≤ c ∧ c ≤ '9' then some (c.toNat - '0'.toNat)
  else if 'a' ≤ c ∧ c ≤ 'f' then some (c.toNat - 'a'.toNat + 10)
  else if 'A' ≤ c ∧ c ≤ 'F' then some (c.toNat - 'A'.toNat + 10)
  else none

/-- The unit that four hexadecimal digits spell. -/
def hexUnit? (digits : List Char) : Option Nat := do
  let values ← digits.mapM hexDigit?
  return values.foldl (fun made value => 16 * made + value) 0

/-- The character a backslash and a letter stand for. -/
def escaped? : Char → Option Char
  | '"' => some '"'
  | '\\' => some '\\'
  | '/' => some '/'
  | 'b' => some '\x08'
  | 'f' => some '\x0c'
  | 'n' => some '\n'
  | 'r' => some '\r'
  | 't' => some '\t'
  | _ => none

/-- Whether a unit is the first of a pair. -/
def isLeading (unit : Nat) : Bool := 0xD800 ≤ unit && unit < 0xDC00

/-- Whether a unit is the second of a pair. -/
def isTrailing (unit : Nat) : Bool := 0xDC00 ≤ unit && unit < 0xE000

/-- The character that a pair of units makes. -/
def paired (leading trailing : Nat) : Char :=
  Char.ofNat (0x10000 + (leading - 0xD800) * 0x400 + (trailing - 0xDC00))

/-- The text that characters and units make; `none` when a unit lacks its partner. -/
def combine? : List (Char ⊕ Nat) → Option (List Char)
  | [] => some []
  | .inl c :: rest => (combine? rest).map (c :: ·)
  | .inr leading :: .inr trailing :: rest =>
    if isLeading leading && isTrailing trailing then
      (combine? rest).map (paired leading trailing :: ·)
    else if isLeading leading || isTrailing leading then none
    else (combine? (.inr trailing :: rest)).map (Char.ofNat leading :: ·)
  | .inr unit :: rest =>
    if isLeading unit || isTrailing unit then none
    else (combine? rest).map (Char.ofNat unit :: ·)

/-- The characters and units of a string up to its closing quote, and what follows. -/
def stringBody? : List Char → Option (List (Char ⊕ Nat) × List Char)
  | [] => none
  | '"' :: rest => some ([], rest)
  | '\\' :: 'u' :: a :: b :: c :: d :: rest => do
    let unit ← hexUnit? [a, b, c, d]
    let (body, rest) ← stringBody? rest
    return (.inr unit :: body, rest)
  | '\\' :: c :: rest => do
    let character ← escaped? c
    let (body, rest) ← stringBody? rest
    return (.inl character :: body, rest)
  | c :: rest => do
    if c.toNat < 0x20 then none
    let (body, rest) ← stringBody? rest
    return (.inl c :: body, rest)

/-- The text of a string up to its closing quote, if it has one, and what follows. -/
def stringText? (text : List Char) : Option (Option String × List Char) := do
  let (body, rest) ← stringBody? text
  return ((combine? body).map String.ofList, rest)

/-- What follows one or more digits. -/
def afterDigits? (text : List Char) : Option (List Char) :=
  match text with
  | c :: rest => if c.isDigit then some (rest.dropWhile Char.isDigit) else none
  | [] => none

/-- What follows the integer part of a number: digits that start with no superfluous zero. -/
def afterInteger? (text : List Char) : Option (List Char) :=
  match text with
  | '0' :: c :: rest => if c.isDigit then none else some (c :: rest)
  | _ => afterDigits? text

/-- What follows a fractional part, if there is one. -/
def afterFraction? (text : List Char) : Option (List Char) :=
  match text with
  | '.' :: rest => afterDigits? rest
  | _ => some text

/-- What follows an exponent, if there is one. -/
def afterExponent? (text : List Char) : Option (List Char) :=
  match text with
  | c :: rest =>
    if c == 'e' || c == 'E' then
      match rest with
      | sign :: digits =>
        if sign == '+' || sign == '-' then afterDigits? digits else afterDigits? rest
      | [] => none
    else some text
  | [] => some text

/-- What follows a number. -/
def afterNumber? (text : List Char) : Option (List Char) := do
  let unsigned := if text.head? == some '-' then text.tail else text
  afterExponent? (← afterFraction? (← afterInteger? unsigned))

/-- What follows a given word. -/
def afterWord? (word : String) (text : List Char) : Option (List Char) :=
  if word.toList.isPrefixOf text then some (text.drop word.length) else none

mutual

/-- The value at the start of a text, and what follows it. The depth bounds the nesting and
the length of arrays and objects. -/
def value? : Nat → List Char → Option (Json × List Char)
  | 0, _ => none
  | depth + 1, text =>
    match skipSpace text with
    | 'n' :: rest => (afterWord? "null" ('n' :: rest)).map (null, ·)
    | 't' :: rest => (afterWord? "true" ('t' :: rest)).map (bool true, ·)
    | 'f' :: rest => (afterWord? "false" ('f' :: rest)).map (bool false, ·)
    | '"' :: rest => (stringText? rest).map fun (text, rest) => (string text, rest)
    | '[' :: rest =>
      match skipSpace rest with
      | ']' :: rest => some (array [], rest)
      | rest => (items? depth rest).map fun (items, rest) => (array items, rest)
    | '\x7b' :: rest =>
      match skipSpace rest with
      | '\x7d' :: rest => some (object [], rest)
      | rest => (members? depth rest).map fun (members, rest) => (object members, rest)
    | rest => (afterNumber? rest).map (number, ·)

/-- The items of an array up to its closing bracket, and what follows. -/
def items? : Nat → List Char → Option (List Json × List Char)
  | 0, _ => none
  | depth + 1, text => do
    let (item, rest) ← value? depth text
    match skipSpace rest with
    | ',' :: rest => do
      let (items, rest) ← items? depth rest
      return (item :: items, rest)
    | ']' :: rest => return ([item], rest)
    | _ => none

/-- The members of an object up to its closing brace, and what follows. -/
def members? : Nat → List Char → Option (List (Option String × Json) × List Char)
  | 0, _ => none
  | depth + 1, text => do
    match skipSpace text with
    | '"' :: rest => do
      let (name, rest) ← stringText? rest
      match skipSpace rest with
      | ':' :: rest => do
        let (value, rest) ← value? depth rest
        match skipSpace rest with
        | ',' :: rest => do
          let (members, rest) ← members? depth rest
          return ((name, value) :: members, rest)
        | '\x7d' :: rest => return ([(name, value)], rest)
        | _ => none
      | _ => none
    | _ => none

end

/-- The value a text denotes. Every step into the text uses up a character, so its length is
depth enough. -/
def ofText? (text : String) : Option Json := do
  let (value, rest) ← value? (text.length + 1) text.toList
  if (skipSpace rest).isEmpty then return value else none

end Json

end SmallLisp.Settings
