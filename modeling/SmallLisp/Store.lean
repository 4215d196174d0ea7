import SmallLisp.Error
import SmallLisp.Value.Render

/-!
# The store

Everything about the world that evaluation can change or find out: the bindings in frames, the
contents of cells, how many procedures there are, the text printed so far, and what the host
has told about files. Frames and cells are only ever added, and bindings only added or
replaced.

Evaluation is a computation over the store that may stop early: with an error, because its
fuel runs out, or because it needs a file of which the host has told nothing. What it did to
the store before it stopped stays done.

## Main definitions

* `Bindings`: the names bound in a frame
* `Store`: the state of the world
* `Store.tell`, `Store.refreshed`: what the host tells about files, and a new step
* `Store.lookup?`, `Store.owner?`: the innermost binding of a name, and the scope that has it
* `Halt`: why a computation stops early
* `Eval`: computations over the store
* `Eval.openScope`, `Eval.define`, `Eval.newCell`, `Eval.writeCell`, …: the primitive effects

## Main results

* `Bindings.find?_insert`: binding a name changes what that name is bound to, and nothing else
* `Store.isSome_owner?`: a name has an owner in scope exactly when it has a value
-/

namespace SmallLisp

/-- The names bound in a frame, in the order in which they were first bound. -/
abbrev Bindings := List (String × Value)

namespace Bindings

/-- The value a name is bound to. -/
def find? (bindings : Bindings) (name : String) : Option Value := bindings.lookup name

/-- Binds a name, replacing the value of a name that is bound already. -/
def insert : Bindings → String → Value → Bindings
  | [], name, value => [(name, value)]
  | (bound, old) :: rest, name, value =>
    if bound = name then (bound, value) :: rest else (bound, old) :: insert rest name value

@[simp] theorem find?_nil (name : String) : find? [] name = none := rfl

theorem find?_cons (bound name : String) (value : Value) (rest : Bindings) :
    find? ((bound, value) :: rest) name = if name = bound then some value else find? rest name := by
  by_cases same : name = bound
  · simp [find?, same]
  · have different : (name == bound) = false := by simpa using same
    simp [find?, List.lookup_cons, same, different]

/-- Binding a name changes what that name is bound to, and nothing else. -/
theorem find?_insert (bindings : Bindings) (name other : String) (value : Value) :
    find? (insert bindings name value) other =
      if other = name then some value else find? bindings other := by
  induction bindings with
  | nil => simp [insert, find?_cons]
  | cons binding rest ih =>
    obtain ⟨bound, old⟩ := binding
    by_cases same : bound = name
    · subst same
      rw [insert, if_pos rfl, find?_cons, find?_cons]
      split <;> rfl
    · rw [insert, if_neg same, find?_cons, find?_cons, ih]
      by_cases found : other = bound
      · subst found
        rw [if_pos rfl, if_pos rfl, if_neg same]
      · rw [if_neg found, if_neg found]

end Bindings

/-- The state of the world. -/
structure Store where
  /-- The bindings of each frame. -/
  frames : Array Bindings
  /-- The contents of each cell. -/
  cells : Array Value
  /-- How many procedures have been made. -/
  procedures : Nat
  /-- The text printed so far. -/
  output : String
  /-- What reading a path gives, as far as the host has told. -/
  files : String → Option (Except FileFault String)

namespace Store

/-- The world before anything has happened. -/
def initial (files : String → Option (Except FileFault String)) : Store :=
  { frames := #[], cells := #[], procedures := 0, output := "", files }

/-- The world after the host has told what reading a path gives. -/
def tell (store : Store) (path : String) (contents : Except FileFault String) : Store :=
  { store with files := fun asked => if asked = path then some contents else store.files asked }

/-- The world at the start of another step: nothing printed yet, and nothing known of files. -/
def refreshed (store : Store) : Store := { store with output := "", files := fun _ => none }

/-- The bindings of a frame. -/
def bindings (store : Store) (frame : FrameId) : Bindings := store.frames[frame]?.getD []

/-- The contents of a cell. -/
def contents (store : Store) (cell : CellId) : Value := store.cells[cell]?.getD .nil

/-- The value a name is bound to in the innermost of the frames that bind it. -/
def lookup? (store : Store) (env : Env) (name : String) : Option Value :=
  env.frames.findSome? fun frame => (store.bindings frame).find? name

/-- The scope of the innermost frame that binds a name, among a frame and those around it. -/
def ownerWithin (store : Store) (name : String) (frame : FrameId) : List FrameId → Option Env
  | [] => if ((store.bindings frame).find? name).isSome then some ⟨frame, []⟩ else none
  | next :: outer =>
    if ((store.bindings frame).find? name).isSome then some ⟨frame, next :: outer⟩
    else ownerWithin store name next outer

/-- The scope of the innermost frame that binds a name. -/
def owner? (store : Store) (env : Env) (name : String) : Option Env :=
  store.ownerWithin name env.frame env.outer

theorem isSome_ownerWithin (store : Store) (name : String) (frame : FrameId)
    (outer : List FrameId) :
    (store.ownerWithin name frame outer).isSome =
      ((frame :: outer).findSome? fun frame => (store.bindings frame).find? name).isSome := by
  induction outer generalizing frame with
  | nil =>
    simp only [ownerWithin, List.findSome?_cons, List.findSome?_nil]
    cases (store.bindings frame).find? name <;> rfl
  | cons next outer ih =>
    simp only [ownerWithin, List.findSome?_cons] at ih ⊢
    cases (store.bindings frame).find? name with
    | none => simpa using ih next
    | some value => rfl

/-- A name has an owner in scope exactly when it has a value. -/
theorem isSome_owner? (store : Store) (env : Env) (name : String) :
    (store.owner? env name).isSome = (store.lookup? env name).isSome :=
  store.isSome_ownerWithin name env.frame env.outer

/-- A summary of a scope: the number of names bound in its own frame, and its depth. -/
def scopeSummary (store : Store) (env : Env) : String :=
  "Environment \x7b bindings: " ++ Nat.repr (store.bindings env.frame).length ++ ", depth: " ++
    Nat.repr env.depth ++ " \x7d"

/-- The text of a value, with what its atoms now hold. No cell is entered twice on the way down,
and nothing lies inside a cell that there is not. -/
def render (store : Store) (style : Style) (value : Value) : String :=
  value.render store.contents (store.cells.size + 1) style

/-- The readable text of a value. -/
def readableText (store : Store) (value : Value) : String := store.render .readable value

/-- The wording of an error, with what the atoms in it now hold. -/
def errorText (store : Store) (error : Error) : String := error.message store.readableText

end Store

/-- Why a computation stops early. -/
inductive Halt where
  /-- Something went wrong. -/
  | failure (error : Error)
  /-- There is no fuel left. -/
  | exhausted
  /-- The contents of a file are needed and not known. -/
  | awaiting (path : String)

/-- Computations over the store. -/
abbrev Eval := EStateM Halt Store

namespace Eval

/-- Stops with an error. -/
def fail {α : Type} (error : Error) : Eval α := throw (.failure error)

/-- Goes on with a result, or stops with an error. -/
def ofExcept {α : Type} : Except Error α → Eval α
  | .ok value => pure value
  | .error error => fail error

/-- Runs a computation and hands on its error as a result. What it did before stays done. -/
def attempt {α : Type} (action : Eval α) : Eval (Except Error α) := fun store =>
  match action store with
  | .ok value store => .ok (.ok value) store
  | .error (.failure error) store => .ok (.error error) store
  | .error halt store => .error halt store

/-- Opens a scope inside another, with some names bound. -/
def openScope (env : Env) (bindings : Bindings) : Eval Env :=
  modifyGet fun store =>
    (env.nest store.frames.size, { store with frames := store.frames.push bindings })

/-- Opens a scope that lies inside no other. -/
def openRoot (bindings : Bindings) : Eval Env :=
  modifyGet fun store =>
    (⟨store.frames.size, []⟩, { store with frames := store.frames.push bindings })

/-- Binds a name in a scope's own frame. -/
def define (env : Env) (name : String) (value : Value) : Eval Unit :=
  modify fun store =>
    { store with frames := store.frames.modify env.frame (·.insert name value) }

/-- The value of a name, which must be bound. -/
def lookup (env : Env) (name : String) : Eval Value := do
  match (← get).lookup? env name with
  | some value => pure value
  | none => fail (.unbound name)

/-- Makes a cell. -/
def newCell (value : Value) : Eval Value :=
  modifyGet fun store =>
    (.atom store.cells.size, { store with cells := store.cells.push value })

/-- The contents of a cell. -/
def readCell (cell : CellId) : Eval Value := return (← get).contents cell

/-- Replaces the contents of a cell. -/
def writeCell (cell : CellId) (value : Value) : Eval Unit :=
  modify fun store => { store with cells := store.cells.setIfInBounds cell value }

/-- Makes a function with an identity of its own. -/
def newFunction (parameters : List Value) (body : Value) (env : Env) : Eval Value :=
  modifyGet fun store =>
    (.procedure .function store.procedures parameters body env,
      { store with procedures := store.procedures + 1 })

/-- Prints a text. -/
def print (text : String) : Eval Unit :=
  modify fun store => { store with output := store.output ++ text }

/-- Prints a line. -/
def printLine (line : String) : Eval Unit := print (line ++ "\n")

/-- The text of a file. -/
def readFile (path : String) : Eval String := do
  match (← get).files path with
  | some (.ok text) => pure text
  | some (.error fault) => fail (.file path fault)
  | none => throw (.awaiting path)

/-- The text of a value, with what its atoms now hold. -/
def render (style : Style) (value : Value) : Eval String := return (← get).render style value

/-- The readable text of a value. -/
def readableText (value : Value) : Eval String := return (← get).readableText value

/-- The wording of an error, with what the atoms in it now hold. -/
def errorText (error : Error) : Eval String := return (← get).errorText error

end Eval

end SmallLisp
