import SmallLisp.Form
import SmallLisp.Value.Expect

/-!
# Operations

The native functions that compute from their arguments alone. Each says what it takes by the
patterns of its arguments; a number of arguments that matches none is an error, and the
catalogue's arities describe these patterns.

## Main definitions

* `Operation.run`: the result of an operation

## Main results

* `Operation.run_eq_wrongCount_of_arity`: an operation refuses every number of arguments that
  its arity does not admit
-/

namespace SmallLisp

/-- The largest index that is told apart from larger ones. -/
def indexLimit : Nat := Nat.pow 2 64 - 1

/-- The index that a number denotes: a natural number, where those above the limit count as
the limit. Negative zero denotes zero. -/
def index? (x : Float) : Option Nat :=
  match Binary64.integer? x with
  | some (.ofNat n) => some (min n indexLimit)
  | _ => none

/-- The item of a sequence at an index. -/
def itemAt (items : List Value) (index : Nat) : Except Error Value :=
  match items[index]? with
  | some item => .ok item
  | none => .error (.indexOutOfBounds index items.length)

namespace Operation

/-- A function of two numbers. -/
def onNumbers (f : Float → Float → Value) (left right : Value) : Except Error Value := do
  let x ← left.expectNumber
  let y ← right.expectNumber
  return f x y

/-- The number of a count. -/
def countValue (count : Nat) : Value := .number (Binary64.ofNat count)

/-- A map from alternating keys and values. -/
def entriesOf (forms : List Value) : Except Error Entries :=
  match Entries.ofForms? forms with
  | some entries => .ok entries
  | none => .error (.keyWithoutValue forms.length)

/-- The item of a sequence at the index that a number denotes. -/
def nthOf (sequence index : Value) : Except Error Value := do
  let items ← sequence.expectItems
  let x ← index.expectNumber
  match index? x with
  | some n => itemAt items n
  | none => .error (.wrongType .index index.type)

/-- The number of items of a sequence or entries of a map; `nil` has none. -/
def sizeOf (value : Value) : Except Error Nat :=
  match value with
  | .nil => .ok 0
  | .map entries => .ok entries.length
  | other => return (← other.expectItems).length

/-- The first item of a sequence. -/
def firstOf (value : Value) : Except Error Value :=
  match value with
  | .nil => .ok .nil
  | other => return (← other.expectItems).headD .nil

/-- The items of a sequence after the first. -/
def restOf (value : Value) : Except Error Value :=
  match value with
  | .nil => .ok (.list [])
  | other => return .list (← other.expectItems).tail

/-- The value under a key of a map. -/
def getFrom (value key : Value) : Except Error Value :=
  match value with
  | .nil => .ok .nil
  | other => return (Entries.find? (← other.expectEntries) key).getD .nil

/-- A map with the entries of alternating keys and values put into it. The keys and values make
a map of their own first, whose entries are then put in. -/
def assocTo (value : Value) (forms : List Value) : Except Error Value := do
  let entries ← value.expectEntries
  let more ← entriesOf forms
  return .map (Entries.insertAll entries more)

/-- A map without some keys. -/
def dissocFrom (value : Value) (removed : List Value) : Except Error Value :=
  return .map (removed.foldl Entries.erase (← value.expectEntries))

/-- The keyword of a name; a keyword stays what it is. -/
def keywordOf (value : Value) : Except Error Value :=
  match value with
  | .keyword name => .ok (.keyword name)
  | other => return .keyword (← other.expectString)

/-- The line of documentation of a native function. -/
def docOf (value : Value) : Value :=
  match value with
  | .native f => .string f.description
  | _ => .nil

/-- Whether a value is of a kind. -/
def hasType (type : ValueType) (value : Value) : Except Error Value :=
  .ok (.bool (value.type == type))

/-- The result of an operation. -/
def run : Operation → List Value → Except Error Value
  | .add, [left, right] => onNumbers (fun x y => .number (x + y)) left right
  | .subtract, [left, right] => onNumbers (fun x y => .number (x - y)) left right
  | .multiply, [left, right] => onNumbers (fun x y => .number (x * y)) left right
  | .divide, [left, right] => onNumbers (fun x y => .number (x / y)) left right
  | .less, [left, right] => onNumbers (fun x y => .bool (x < y)) left right
  | .lessOrEqual, [left, right] => onNumbers (fun x y => .bool (x ≤ y)) left right
  | .greater, [left, right] => onNumbers (fun x y => .bool (y < x)) left right
  | .greaterOrEqual, [left, right] => onNumbers (fun x y => .bool (y ≤ x)) left right
  | .equal, [left, right] => .ok (.bool (left == right))
  | .list, items => .ok (.list items)
  | .vector, items => .ok (.vector items)
  | .cons, [item, sequence] => return .list (item :: (← sequence.expectItems))
  | .concat, sequences => return .list (← sequences.mapM Value.expectItems).flatten
  | .first, [sequence] => firstOf sequence
  | .rest, [sequence] => restOf sequence
  | .nth, [sequence, index] => nthOf sequence index
  | .count, [value] => return countValue (← sizeOf value)
  | .isEmpty, [value] => return .bool ((← sizeOf value) == 0)
  | .isSequential, [value] => .ok (.bool value.items?.isSome)
  | .hashMap, forms => return .map (← entriesOf forms)
  | .assoc, value :: forms => assocTo value forms
  | .dissoc, value :: removed => dissocFrom value removed
  | .get, [value, key] => getFrom value key
  | .contains, [value, key] => return .bool (Entries.contains (← value.expectEntries) key)
  | .keys, [value] => return .list (Entries.keys (← value.expectEntries))
  | .vals, [value] => return .list (Entries.values (← value.expectEntries))
  | .isNil, [value] => hasType .nil value
  | .isTrue, [value] => .ok (.bool (value.bool? == some true))
  | .isFalse, [value] => .ok (.bool (value.bool? == some false))
  | .isSymbol, [value] => hasType .symbol value
  | .isKeyword, [value] => hasType .keyword value
  | .isList, [value] => hasType .list value
  | .isVector, [value] => hasType .vector value
  | .isMap, [value] => hasType .map value
  | .isAtom, [value] => hasType .atom value
  | .isFunction, [value] => .ok (.bool value.isFunction)
  | .symbol, [value] => return .symbol (← value.expectString)
  | .keyword, [value] => keywordOf value
  | .readString, [value] => do Form.ofText (← value.expectString)
  | .throw, [value] => .error (.thrown value)
  | .doc, [value] => .ok (docOf value)
  | operation, arguments => .error (.wrongCount (.operation operation) arguments.length)

/-- An operation refuses every number of arguments that its arity does not admit. -/
theorem run_eq_wrongCount_of_arity (operation : Operation) (arguments : List Value)
    (refused : operation.signature.arity.admits arguments.length = false) :
    operation.run arguments = .error (.wrongCount (.operation operation) arguments.length) := by
  rcases arguments with _ | ⟨first, _ | ⟨second, _ | ⟨third, rest⟩⟩⟩ <;>
    cases operation <;> simp_all [run, signature, Arity.admits]

end Operation

end SmallLisp
