import SmallLisp.Native

/-!
# Values

Programs and data are the same values. A reference (to a scope, a cell or a procedure)
carries its identity and whatever about it can never change; what can change is kept apart,
in the store. So a scope is the chain of frames it can see, which is fixed when the scope
opens, while the bindings in the frames are not part of it; and an atom is the name of a cell,
without the contents.

## Main definitions

* `Env`: a scope, as the chain of its frames
* `Value`: what programs compute with, and what they are made of
* `Value.type`: the kinds of values that programs can tell apart
* `Value.items?`, `Value.entries?`, `Value.symbol?`, …: a value seen as one of a kind
-/

namespace SmallLisp

/-- The identity of a frame of bindings. -/
abbrev FrameId := Nat

/-- The identity of a mutable cell. -/
abbrev CellId := Nat

/-- The identity of a procedure. -/
abbrev ProcedureId := Nat

/-- A scope: its own frame and the frames around it, innermost first. -/
structure Env where
  frame : FrameId
  outer : List FrameId
  deriving DecidableEq, Repr, Inhabited

namespace Env

/-- The frames a scope sees, innermost first. -/
def frames (env : Env) : List FrameId := env.frame :: env.outer

/-- The scope that sees one more frame, inside all others. -/
def nest (env : Env) (frame : FrameId) : Env := ⟨frame, env.frames⟩

/-- The scope of the outermost frame alone. -/
def root (env : Env) : Env := ⟨env.outer.getLastD env.frame, []⟩

/-- The number of frames, from the scope's own to the outermost. -/
def depth (env : Env) : Nat := env.frames.length

@[simp] theorem depth_nest (env : Env) (frame : FrameId) :
    (env.nest frame).depth = env.depth + 1 := rfl

@[simp] theorem root_nest (env : Env) (frame : FrameId) : (env.nest frame).root = env.root := by
  simp only [nest, root, frames, List.getLastD_cons]

end Env

/-- The two sorts of sequences: parenthesised lists, which are calls when evaluated, and
bracketed vectors, which are not. -/
inductive SeqKind where
  | list
  | vector
  deriving DecidableEq, Repr

/-- The two sorts of procedures: functions take values, and expanders take the forms of a
call and give the form that stands for it. -/
inductive ProcedureKind where
  | function
  | expander
  deriving DecidableEq, Repr

/-- What programs compute with, and what they are made of. -/
inductive Value where
  | nil
  | bool (b : Bool)
  | number (x : Float)
  | string (text : String)
  | symbol (name : String)
  /-- A self-evaluating tag; the name is held without the colon in front. -/
  | keyword (name : String)
  | seq (kind : SeqKind) (items : List Value)
  /-- A finite map, as its entries in the order in which their keys came in. -/
  | map (entries : List (Value × Value))
  /-- A mutable cell. -/
  | atom (cell : CellId)
  | native (f : Native)
  /-- A procedure written in the language, with the scope it was made in. -/
  | procedure (kind : ProcedureKind) (id : ProcedureId) (parameters : List Value)
      (body : Value) (env : Env)
  deriving Inhabited

/-- The entries of a finite map. -/
abbrev Entries := List (Value × Value)

/-- The kinds of values that programs can tell apart. -/
inductive ValueType where
  | nil
  | bool
  | number
  | string
  | symbol
  | keyword
  | list
  | vector
  | map
  | atom
  | native
  | function
  | expander
  deriving DecidableEq, Repr

/-- The name of a kind of values in messages. -/
def ValueType.name : ValueType → String
  | nil => "nil"
  | bool => "bool"
  | number => "number"
  | string => "string"
  | symbol => "symbol"
  | keyword => "keyword"
  | list => "list"
  | vector => "vector"
  | map => "hash-map"
  | atom => "atom"
  | native => "native-function"
  | function => "function"
  | expander => "macro"

namespace Value

/-- A list of values. -/
@[match_pattern] abbrev list (items : List Value) : Value := .seq .list items

/-- A vector of values. -/
@[match_pattern] abbrev vector (items : List Value) : Value := .seq .vector items

/-- The kind of a value. -/
def type : Value → ValueType
  | nil => .nil
  | bool _ => .bool
  | number _ => .number
  | string _ => .string
  | symbol _ => .symbol
  | keyword _ => .keyword
  | list _ => .list
  | vector _ => .vector
  | map _ => .map
  | atom _ => .atom
  | native _ => .native
  | procedure .function .. => .function
  | procedure .expander .. => .expander

/-- Whether a value counts as true in a condition: all do but `nil` and `false`. -/
def countsAsTrue : Value → Bool
  | nil => false
  | bool b => b
  | _ => true

/-- Whether a value is `nil`. -/
def isNil : Value → Bool
  | nil => true
  | _ => false

/-- The truth value that a value is, if it is one. -/
def bool? : Value → Option Bool
  | bool b => some b
  | _ => none

/-- The number that a value is, if it is one. -/
def number? : Value → Option Float
  | number x => some x
  | _ => none

/-- The text of a string. -/
def string? : Value → Option String
  | string text => some text
  | _ => none

/-- The name of a symbol. -/
def symbol? : Value → Option String
  | symbol name => some name
  | _ => none

/-- The name of a keyword. -/
def keyword? : Value → Option String
  | keyword name => some name
  | _ => none

/-- The items of a list or vector. -/
def items? : Value → Option (List Value)
  | seq _ items => some items
  | _ => none

/-- The entries of a map. -/
def entries? : Value → Option Entries
  | map entries => some entries
  | _ => none

/-- The cell of an atom. -/
def cell? : Value → Option CellId
  | atom cell => some cell
  | _ => none

/-- The native function that a value is, if it is one. -/
def native? : Value → Option Native
  | native f => some f
  | _ => none

/-- The sort and identity of a procedure. -/
def procedure? : Value → Option (ProcedureKind × ProcedureId)
  | procedure kind id .. => some (kind, id)
  | _ => none

/-- Whether a value is the symbol of a given name. -/
def isSymbol (value : Value) (name : String) : Bool := value.symbol? == some name

/-- Whether a value is a list or vector with at least one item. -/
def isNonemptySeq (value : Value) : Bool :=
  match value.items? with
  | some (_ :: _) => true
  | _ => false

/-- Whether a value is a native function or a function of the language. Expanders do not
count, although they can be called. -/
def isFunction : Value → Bool
  | native _ => true
  | procedure .function .. => true
  | _ => false

/-! ### Values inside values -/

theorem sizeOf_lt_of_mem_items (kind : SeqKind) {items : List Value} {item : Value}
    (mem : item ∈ items) : sizeOf item < sizeOf (Value.seq kind items) := by
  have smaller := List.sizeOf_lt_of_mem mem
  rw [Value.seq.sizeOf_spec]
  omega

theorem sizeOf_lt_of_mem_entries {entries : Entries} {entry : Value × Value}
    (mem : entry ∈ entries) :
    sizeOf entry.1 < sizeOf (Value.map entries) ∧ sizeOf entry.2 < sizeOf (Value.map entries) := by
  have smaller := List.sizeOf_lt_of_mem mem
  have parts : sizeOf entry = 1 + sizeOf entry.1 + sizeOf entry.2 := by
    cases entry
    rfl
  rw [Value.map.sizeOf_spec]
  omega

end Value

end SmallLisp
