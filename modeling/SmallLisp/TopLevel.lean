import SmallLisp.Evaluation
import SmallLisp.Prelude

/-!
# The top level

One world with one outermost frame, in which everything at top level happens. The native
functions are bound in it from the start, and the prelude is evaluated in it unless it is left
out. A text can be evaluated up to its first form or as a whole; a whole text is read before
anything of it is evaluated, and then evaluated as the items of one `do` form.

## Main definitions

* `TopLevel.root`: the outermost scope
* `TopLevel.start`: sets up the world
* `TopLevel.evaluate`, `TopLevel.expand`: a form at top level
* `TopLevel.evaluateFirst`, `TopLevel.evaluateAll`: a text
* `TopLevel.evaluateFile`: a file
* `TopLevel.reply`: the text a line of input is answered with
-/

namespace SmallLisp.TopLevel

/-- The outermost scope. -/
def root : Env := ⟨0, []⟩

/-- The bindings of the native functions. -/
def nativeBindings : Bindings := Native.all.map fun f => (f.name, .native f)

/-- Evaluates a form at top level. -/
def evaluate (fuel : Nat) (form : Value) : Eval Value := run fuel (.evaluate form root)

/-- Expands a form at top level, as long as it calls an expander. -/
def expand (fuel : Nat) (form : Value) : Eval Value := run fuel (.expand form root)

/-- Calls a function from top level. -/
def call (fuel : Nat) (callee : Value) (arguments : List Value) : Eval Value :=
  run fuel (.call callee arguments root)

/-- Reads the first form of a text. -/
def read (source : String) : Eval Value := Eval.ofExcept (Form.ofText source)

/-- Evaluates the first form of a text. -/
def evaluateFirst (fuel : Nat) (source : String) : Eval Value := do
  evaluate fuel (← read source)

/-- Evaluates all forms of a text, after reading all of them. The value is that of the last,
or `nil` when there are none. -/
def evaluateAll (fuel : Nat) (source : String) : Eval Value := do
  match ← Eval.ofExcept (Form.allOfText source) with
  | [] => return .nil
  | forms => evaluate fuel (Form.call SpecialForm.sequence.keyword forms)

/-- Evaluates all forms of a file. -/
def evaluateFile (fuel : Nat) (path : String) : Eval Value := do
  evaluateAll fuel (← Eval.readFile path)

/-- Binds the arguments of the program, as a list of strings. -/
def setArguments (arguments : List String) : Eval Unit :=
  Eval.define root "*ARGV*" (.list (arguments.map .string))

/-- Evaluates the prelude. -/
def loadPrelude (fuel : Nat) : Eval Unit :=
  Prelude.definitions.forM fun source => discard (evaluateFirst fuel source)

/-- Sets up the world: the outermost frame with the native functions, and the prelude if it is
wanted. -/
def start (fuel : Nat) (withPrelude : Bool) : Eval Unit := do
  let _ ← Eval.openRoot nativeBindings
  if withPrelude then loadPrelude fuel

/-- Evaluates the first form of a text, and answers with the readable text of its value or the
wording of the error. -/
def reply (fuel : Nat) (source : String) : Eval String := do
  match ← Eval.attempt (evaluateFirst fuel source) with
  | .ok value => Eval.readableText value
  | .error error => Eval.errorText error

end SmallLisp.TopLevel
