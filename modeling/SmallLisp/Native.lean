/-!
# Native functions

The functions a program finds in place before it defines any. They are grouped by what they
may touch: an *operation* computes from its arguments alone, an *effect* also reads or writes
cells, files or the output, and a *control* function calls back into evaluation. Each has a
name, a rule for the number of its arguments, and a line of documentation.

## Main definitions

* `Arity`: a rule for the number of arguments
* `Operation`, `Effect`, `Control`, `Native`: the functions, by what they may touch
* `Native.name`, `Native.arity`, `Native.description`: their catalogue entries
* `Native.all`: the whole catalogue
* `Native.named?`: looking a function up by name

## Main results

* `Native.mem_all`: the catalogue is complete
* `Native.named?_name`: every native function is found under its name
-/

namespace SmallLisp

/-- A rule for the number of arguments. -/
inductive Arity where
  | exactly (count : Nat)
  | atLeast (count : Nat)
  | any
  deriving DecidableEq, Repr

namespace Arity

/-- Whether a number of arguments obeys the rule. -/
def admits : Arity → Nat → Bool
  | exactly count, given => given == count
  | atLeast count, given => count ≤ given
  | any, _ => true

section Admitted

variable {α : Type} {items : List α}

theorem exists_of_exactly_one (admitted : (exactly 1).admits items.length = true) :
    ∃ item, items = [item] :=
  List.length_eq_one_iff.mp (by simpa [admits] using admitted)

theorem exists_of_exactly_two (admitted : (exactly 2).admits items.length = true) :
    ∃ first second, items = [first, second] := by
  rcases items with _ | ⟨first, _ | ⟨second, _ | ⟨third, rest⟩⟩⟩
  · cases admitted
  · cases admitted
  · exact ⟨first, second, rfl⟩
  · simp [admits] at admitted

theorem exists_of_atLeast_one (admitted : (atLeast 1).admits items.length = true) :
    ∃ first rest, items = first :: rest := by
  cases items with
  | nil => cases admitted
  | cons first rest => exact ⟨first, rest, rfl⟩

theorem exists_of_atLeast_two (admitted : (atLeast 2).admits items.length = true) :
    ∃ first second rest, items = first :: second :: rest := by
  rcases items with _ | ⟨first, _ | ⟨second, rest⟩⟩
  · cases admitted
  · simp [admits] at admitted
  · exact ⟨first, second, rest, rfl⟩

end Admitted

/-- The number of arguments, where the rule leaves only one. -/
def onlyCount? : Arity → Option Nat
  | exactly count => some count
  | _ => none

end Arity

/-- A catalogue entry. -/
structure Signature where
  name : String
  arity : Arity
  description : String
  deriving Repr

/-- Native functions whose result depends on their arguments alone. -/
inductive Operation where
  | add | subtract | multiply | divide
  | less | lessOrEqual | greater | greaterOrEqual | equal
  | list | vector | cons | concat | first | rest | nth | count | isEmpty | isSequential
  | hashMap | assoc | dissoc | get | contains | keys | vals
  | isNil | isTrue | isFalse | isSymbol | isKeyword | isList | isVector | isMap | isAtom
  | isFunction
  | symbol | keyword | readString | throw | doc
  deriving DecidableEq, Repr

/-- Native functions that read or write cells, files or the output. -/
inductive Effect where
  | atom | deref | reset | str | prStr | println | prn | slurp
  deriving DecidableEq, Repr

/-- Native functions that call other functions or evaluate forms. -/
inductive Control where
  | swap | apply | map | eval
  deriving DecidableEq, Repr

/-- A native function. -/
inductive Native where
  | operation (operation : Operation)
  | effect (effect : Effect)
  | control (control : Control)
  deriving DecidableEq, Repr

/-- The catalogue entry of an operation. -/
def Operation.signature : Operation → Signature
  | add => ⟨"+", .exactly 2, "Add two numbers"⟩
  | subtract => ⟨"-", .exactly 2, "Subtract the second number from the first"⟩
  | multiply => ⟨"*", .exactly 2, "Multiply two numbers"⟩
  | divide => ⟨"/", .exactly 2, "Divide the first number by the second"⟩
  | less => ⟨"<", .exactly 2, "True if the first number is smaller"⟩
  | lessOrEqual => ⟨"<=", .exactly 2, "True if the first number is not larger"⟩
  | greater => ⟨">", .exactly 2, "True if the first number is larger"⟩
  | greaterOrEqual => ⟨">=", .exactly 2, "True if the first number is not smaller"⟩
  | equal => ⟨"=", .exactly 2, "Structural equality; lists equal vectors with the same elements"⟩
  | list => ⟨"list", .any, "Collect the arguments into a list"⟩
  | vector => ⟨"vector", .any, "Collect the arguments into a vector"⟩
  | cons => ⟨"cons", .exactly 2, "Prepend a value to a list or vector, returning a list"⟩
  | concat => ⟨"concat", .any, "Join any number of lists or vectors into one list"⟩
  | first => ⟨"first", .exactly 1, "First element of a sequence; nil for nil or an empty sequence"⟩
  | rest => ⟨"rest", .exactly 1, "All but the first element, as a list; empty for nil"⟩
  | nth => ⟨"nth", .exactly 2, "Element at a zero-based index; out of range is an error"⟩
  | count => ⟨"count", .exactly 1, "Number of elements in a sequence or map; 0 for nil"⟩
  | isEmpty => ⟨"empty?", .exactly 1, "True if a sequence or map has no elements"⟩
  | isSequential => ⟨"sequential?", .exactly 1, "True for lists and vectors"⟩
  | hashMap => ⟨"hash-map", .any, "Build a map from alternating keys and values"⟩
  | assoc => ⟨"assoc", .atLeast 1, "Copy of a map with the given key/value pairs added or replaced"⟩
  | dissoc => ⟨"dissoc", .atLeast 1, "Copy of a map with the given keys removed"⟩
  | get => ⟨"get", .exactly 2, "Value stored under a key; nil when missing or when the map is nil"⟩
  | contains => ⟨"contains?", .exactly 2, "True if the map has an entry for the key"⟩
  | keys => ⟨"keys", .exactly 1, "List of the map's keys"⟩
  | vals => ⟨"vals", .exactly 1, "List of the map's values"⟩
  | isNil => ⟨"nil?", .exactly 1, "True for nil"⟩
  | isTrue => ⟨"true?", .exactly 1, "True only for the boolean true"⟩
  | isFalse => ⟨"false?", .exactly 1, "True only for the boolean false"⟩
  | isSymbol => ⟨"symbol?", .exactly 1, "True for symbols"⟩
  | isKeyword => ⟨"keyword?", .exactly 1, "True for keywords"⟩
  | isList => ⟨"list?", .exactly 1, "True for lists, but not vectors"⟩
  | isVector => ⟨"vector?", .exactly 1, "True for vectors"⟩
  | isMap => ⟨"map?", .exactly 1, "True for hash-maps"⟩
  | isAtom => ⟨"atom?", .exactly 1, "True for atoms"⟩
  | isFunction => ⟨"fn?", .exactly 1, "True for native functions and closures, false for macros"⟩
  | symbol => ⟨"symbol", .exactly 1, "Symbol whose name is the given string"⟩
  | keyword =>
    ⟨"keyword", .exactly 1, "Keyword whose name is the given string; keywords pass through"⟩
  | readString =>
    ⟨"read-string", .exactly 1, "Parse the first form in a string without evaluating it"⟩
  | throw => ⟨"throw", .exactly 1, "Abort evaluation, carrying the value as the error payload"⟩
  | doc => ⟨"doc", .exactly 1, "Description string of a native function; nil for anything else"⟩

/-- The catalogue entry of an effect. -/
def Effect.signature : Effect → Signature
  | atom => ⟨"atom", .exactly 1, "Create a mutable cell holding the value"⟩
  | deref => ⟨"deref", .exactly 1, "Current contents of an atom"⟩
  | reset => ⟨"reset!", .exactly 2, "Replace an atom's contents and return the new value"⟩
  | str => ⟨"str", .any, "Concatenate the non-readable renderings of the arguments"⟩
  | prStr => ⟨"pr-str", .any, "Join the readable renderings of the arguments with spaces"⟩
  | println =>
    ⟨"println", .any, "Print the non-readable renderings joined by spaces, then a newline"⟩
  | prn => ⟨"prn", .any, "Print the readable renderings joined by spaces, then a newline"⟩
  | slurp => ⟨"slurp", .exactly 1, "Read an entire file into a string"⟩

/-- The catalogue entry of a control function. -/
def Control.signature : Control → Signature
  | swap =>
    ⟨"swap!", .atLeast 2, "Set an atom to (f current extra-args...) and return the new value"⟩
  | apply =>
    ⟨"apply", .atLeast 2,
      "Call a function with leading arguments plus the elements of a final sequence"⟩
  | map => ⟨"map", .exactly 2, "List of the results of calling the function on each element"⟩
  | eval => ⟨"eval", .exactly 1, "Evaluate a form in the root environment"⟩

/-- The operations, in the order of the catalogue. -/
def Operation.all : List Operation :=
  [.add, .subtract, .multiply, .divide, .less, .lessOrEqual, .greater, .greaterOrEqual, .equal,
    .list, .vector, .cons, .concat, .first, .rest, .nth, .count, .isEmpty, .isSequential,
    .hashMap, .assoc, .dissoc, .get, .contains, .keys, .vals,
    .isNil, .isTrue, .isFalse, .isSymbol, .isKeyword, .isList, .isVector, .isMap, .isAtom,
    .isFunction, .symbol, .keyword, .readString, .throw, .doc]

/-- The effects, in the order of the catalogue. -/
def Effect.all : List Effect :=
  [.atom, .deref, .reset, .str, .prStr, .println, .prn, .slurp]

/-- The control functions, in the order of the catalogue. -/
def Control.all : List Control := [.swap, .apply, .map, .eval]

namespace Native

/-- The catalogue entry of a native function. -/
def signature : Native → Signature
  | operation f => f.signature
  | effect f => f.signature
  | control f => f.signature

/-- The name a native function is bound to. -/
def name (f : Native) : String := f.signature.name

/-- The rule for the number of its arguments. -/
def arity (f : Native) : Arity := f.signature.arity

/-- Its line of documentation. -/
def description (f : Native) : String := f.signature.description

/-- A short text that tells a native function from others. -/
def label (f : Native) : String := "Builtin(" ++ f.name ++ ")"

/-- The whole catalogue. -/
def all : List Native :=
  Operation.all.map operation ++ Effect.all.map effect ++ Control.all.map control

/-- The native function of a name. -/
def named? (name : String) : Option Native := all.find? fun f => f.name == name

/-- The catalogue in the alphabetical order of names. -/
def sorted : List Native := all.mergeSort fun f g => f.name ≤ g.name

/-- The catalogue is complete. -/
theorem mem_all (f : Native) : f ∈ all := by
  cases f with
  | operation f => cases f <;> decide
  | effect f => cases f <;> decide
  | control f => cases f <;> decide

/-- Every native function is found under its name. -/
theorem named?_name (f : Native) : named? f.name = some f := by
  cases f with
  | operation f => cases f <;> rfl
  | effect f => cases f <;> rfl
  | control f => cases f <;> rfl

end Native

end SmallLisp
