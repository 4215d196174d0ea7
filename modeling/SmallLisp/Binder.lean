import SmallLisp.Store

/-!
# Binding parameters

A procedure's parameters are bound to arguments from left to right; of a name that occurs
twice the last counts. A parameter behind the marker `&`, which must be the last but one, gets
the list of the remaining arguments. Arguments beyond the parameters are ignored where there
is no such marker.

## Main definitions

* `Binder.split`: the positional parameters and the rest parameter
* `Binder.bind`: the bindings of parameters to arguments
-/

namespace SmallLisp.Binder

/-- The symbol in front of the rest parameter. -/
def restMarker : String := "&"

/-- The positional parameters and the rest parameter, as the first marker divides them. -/
def split (parameters : List Value) : Except Error (List Value × Option Value) :=
  let positional := parameters.takeWhile fun parameter => !parameter.isSymbol restMarker
  match parameters.drop positional.length with
  | [] => .ok (positional, none)
  | [_, rest] => .ok (positional, some rest)
  | _ => .error (.binder .restMarker)

/-- The name of a parameter. -/
def nameOf (parameter : Value) : Except Error String :=
  match parameter.symbol? with
  | some name => .ok name
  | none => .error (.binder (.parameter parameter.type))

/-- Binds parameters to arguments one by one, as far as both go. -/
def bindEach (bindings : Bindings) : List Value → List Value → Except Error Bindings
  | parameter :: parameters, argument :: arguments => do
    bindEach (bindings.insert (← nameOf parameter) argument) parameters arguments
  | _, _ => .ok bindings

/-- The bindings of parameters to arguments. -/
def bind (parameters arguments : List Value) : Except Error Bindings := do
  let (positional, rest) ← split parameters
  if arguments.length < positional.length then
    throw (.tooFewArguments positional.length arguments.length)
  let bindings ← bindEach [] positional arguments
  match rest with
  | none => return bindings
  | some parameter =>
    return bindings.insert (← nameOf parameter) (.list (arguments.drop positional.length))

end SmallLisp.Binder
