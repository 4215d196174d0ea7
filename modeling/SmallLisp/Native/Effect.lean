import SmallLisp.Store
import SmallLisp.Value.Expect

/-!
# Effects

The native functions that read or write cells, files or the output, and call nothing back. An
effect with something wrong about its arguments leaves the store as it is.

## Main definitions

* `Effect.textOf`: the texts of some values in a row
* `Effect.run`: the result of an effect

## Main results

* `Effect.run_eq_wrongCount_of_arity`: an effect refuses every number of arguments that its arity
  does not admit
-/

namespace SmallLisp.Effect

/-- The texts of some values in a row, with a text between each two. -/
def textOf (style : Style) (separator : String) (values : List Value) : Eval String :=
  return separator.intercalate (values.map ((← get).render style))

/-- Prints the texts of some values as a line. -/
def printAll (style : Style) (values : List Value) : Eval Value := do
  Eval.printLine (← textOf style " " values)
  return .nil

/-- Replaces the contents of an atom. -/
def resetTo (atom value : Value) : Eval Value := do
  Eval.writeCell (← Eval.ofExcept atom.expectCell) value
  return value

/-- The result of an effect. -/
def run : Effect → List Value → Eval Value
  | .atom, [value] => Eval.newCell value
  | .deref, [value] => do Eval.readCell (← Eval.ofExcept value.expectCell)
  | .reset, [value, contents] => resetTo value contents
  | .str, values => return .string (← textOf .plain "" values)
  | .prStr, values => return .string (← textOf .readable " " values)
  | .println, values => printAll .plain values
  | .prn, values => printAll .readable values
  | .slurp, [value] => do
    let path ← Eval.ofExcept value.expectString
    return .string (← Eval.readFile path)
  | effect, arguments => Eval.fail (.wrongCount (.effect effect) arguments.length)

/-- An effect refuses every number of arguments that its arity does not admit. -/
theorem run_eq_wrongCount_of_arity (effect : Effect) (arguments : List Value)
    (refused : effect.signature.arity.admits arguments.length = false) :
    effect.run arguments = Eval.fail (.wrongCount (.effect effect) arguments.length) := by
  rcases arguments with _ | ⟨first, _ | ⟨second, _ | ⟨third, rest⟩⟩⟩ <;>
    cases effect <;> simp_all [run, signature, Arity.admits]

end SmallLisp.Effect
