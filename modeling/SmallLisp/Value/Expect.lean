import SmallLisp.Error

/-!
# Values of an expected kind

A value is taken as one of a kind, or it is an error that names the kind expected and the kind
found.

## Main definitions

* `Value.expectNumber`, `Value.expectString`, …: what a value of a kind holds, or the error
-/

namespace SmallLisp.Value

/-- What a value was found to hold, or the error that it is of another kind. -/
def expect {α : Type} (expected : Expectation) (value : Value) (found : Option α) :
    Except Error α :=
  match found with
  | some content => .ok content
  | none => .error (.wrongType expected value.type)

/-- The name of a symbol. -/
def expectSymbol (value : Value) : Except Error String := value.expect .symbol value.symbol?

/-- The number a value is. -/
def expectNumber (value : Value) : Except Error Float := value.expect .number value.number?

/-- The text of a string. -/
def expectString (value : Value) : Except Error String := value.expect .string value.string?

/-- The cell of an atom. -/
def expectCell (value : Value) : Except Error CellId := value.expect .atom value.cell?

/-- The entries of a map. -/
def expectEntries (value : Value) : Except Error Entries := value.expect .map value.entries?

/-- The items of a list or vector. -/
def expectItems (value : Value) : Except Error (List Value) :=
  value.expect .sequence value.items?

end SmallLisp.Value
