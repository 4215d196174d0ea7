import SmallLisp.Binder
import SmallLisp.Native.Effect
import SmallLisp.Native.Operation
import SmallLisp.Template

/-!
# Evaluation

What remains to be done at any time is one *task*: a form to evaluate, a form to expand, or a
function to call. Performing a task either gives its value or replaces it by another task that
has the same value: the chosen branch of a condition, the last form of a sequence, the body of
a procedure. All other evaluations on the way are complete runs of their own. A run performs
tasks until there is a value, so a chain of replacements, however long, is no deeper than one
task.

A list is treated in this order. When its head is a symbol bound to an expander, the list is
replaced by its expansion, and the expansion is treated likewise. When its head is the symbol
of a special form, that form's rule applies, whatever the symbol is bound to. Otherwise its
items are evaluated from left to right, the head first, and the value of the head is called;
only then does it matter whether that can be called.

## Main definitions

* `Task`: what remains to be done
* `Progress`: a value, or the task that takes a task's place
* `expansion?`: the expander that a form calls, and its arguments
* `perform`: performs one task, given how to run others
* `run`: performs tasks until there is a value or the fuel is spent

## Main results

* `run_succ`: a run is one task and the run of its replacement
-/

namespace SmallLisp

/-- What remains to be done. -/
inductive Task where
  | evaluate (form : Value) (env : Env)
  | expand (form : Value) (env : Env)
  | call (callee : Value) (arguments : List Value) (env : Env)

/-- How far a task has come. -/
inductive Progress where
  | done (value : Value)
  | next (task : Task)

/-- A call of an expander: the expander's parameters, body and scope, and the forms it is
given. -/
structure Expansion where
  parameters : List Value
  body : Value
  scope : Env
  arguments : List Value

/-- The call of an expander that a form is, in a scope: a list whose head is a symbol bound to
an expander. -/
def expansion? (store : Store) (env : Env) : Value → Option Expansion
  | .list (.symbol name :: arguments) =>
    match store.lookup? env name with
    | some (.procedure .expander _ parameters body scope) =>
      some ⟨parameters, body, scope, arguments⟩
    | _ => none
  | _ => none

/-- The special form that a form starts with. -/
def specialForm? : Value → Option SpecialForm
  | .symbol name => SpecialForm.ofKeyword? name
  | _ => none

section Tasks

variable (self : Task → Eval Value)

/-- Evaluates forms from left to right. -/
def evaluateEach (env : Env) (forms : List Value) : Eval (List Value) :=
  forms.mapM fun form => self (.evaluate form env)

/-- Calls a function on each of some values, from left to right. -/
def callEach (callee : Value) (env : Env) (values : List Value) : Eval (List Value) :=
  values.mapM fun value => self (.call callee [value] env)

/-- Opens a scope inside another one, with parameters bound to arguments. -/
def Env.extend (env : Env) (parameters arguments : List Value) : Eval Env := do
  Eval.openScope env (← Eval.ofExcept (Binder.bind parameters arguments))

/-- The body of a procedure as a task, in a fresh scope with the parameters bound. -/
def enter (parameters : List Value) (body : Value) (scope : Env) (arguments : List Value) :
    Eval Task := do
  return .evaluate body (← scope.extend parameters arguments)

/-- Sets an atom to what a function gives for its contents and further arguments. -/
def swapAtom (atom callee : Value) (more : List Value) (env : Env) : Eval Value := do
  let cell ← Eval.ofExcept atom.expectCell
  let current ← Eval.readCell cell
  let updated ← self (.call callee (current :: more) env)
  Eval.writeCell cell updated
  return updated

/-- Calls a function with some arguments and the items of a last one. -/
def applyTo (callee first : Value) (more : List Value) (env : Env) : Eval Value := do
  let arguments := first :: more
  let last := arguments.getLastD .nil
  let spread ← Eval.ofExcept last.expectItems
  self (.call callee (arguments.dropLast ++ spread) env)

/-- The result of a control function. -/
def runControl (env : Env) : Control → List Value → Eval Value
  | .swap, atom :: callee :: more => swapAtom self atom callee more env
  | .apply, callee :: first :: more => applyTo self callee first more env
  | .map, [callee, sequence] => do
    let items ← Eval.ofExcept sequence.expectItems
    return .list (← callEach self callee env items)
  | .eval, [form] => self (.evaluate form env.root)
  | control, arguments => Eval.fail (.wrongCount (.control control) arguments.length)

/-- The result of a native function. The number of arguments is settled before anything
else. -/
def runNative (env : Env) (f : Native) (arguments : List Value) : Eval Value :=
  if f.arity.admits arguments.length then
    match f with
    | .operation operation => Eval.ofExcept (operation.run arguments)
    | .effect effect => effect.run arguments
    | .control control => runControl self env control arguments
  else Eval.fail (.wrongCount f arguments.length)

/-- Calls a value. Procedures of either sort can be called. -/
def performCall (env : Env) (callee : Value) (arguments : List Value) : Eval Progress := do
  match callee with
  | .native f => return .done (← runNative self env f arguments)
  | .procedure _ _ parameters body scope => return .next (← enter parameters body scope arguments)
  | other => Eval.fail (.notFunction (← Eval.render .readable other))

/-- Evaluates forms for their effects, but for the last, which is returned as it is. -/
def evaluateAllButLast (env : Env) : Value → List Value → Eval Value
  | last, [] => return last
  | form, next :: rest => do
    let _ ← self (.evaluate form env)
    evaluateAllButLast env next rest

/-- Binds names to the values of forms, one after the other, in a scope that each of the forms
is evaluated in. -/
def bindEach (scope : Env) : List Value → Eval Unit
  | name :: form :: rest => do
    match name.symbol? with
    | some text =>
      let value ← self (.evaluate form scope)
      Eval.define scope text value
      bindEach scope rest
    | none => Eval.fail (.binder (.bindingName name.type))
  | _ => return ()

/-- A scope with names bound to the values of forms. Nothing is evaluated unless the names and
forms pair up. -/
def evaluateBindings (env : Env) (bindings : Value) : Eval Env := do
  match bindings.items? with
  | none => Eval.fail (.binder (.bindingList bindings.type))
  | some items =>
    if items.length % 2 = 1 then Eval.fail (.binder .oddBindings)
    else
      let scope ← Eval.openScope env []
      bindEach self scope items
      return scope

/-- A function with parameters and a body. The parameters must be symbols. -/
def makeFunction (env : Env) (parameters body : Value) : Eval Value :=
  match parameters.items? with
  | none => Eval.fail (.binder (.parameterList parameters.type))
  | some items =>
    match items.find? fun item => item.symbol?.isNone with
    | some item => Eval.fail (.binder (.parameter item.type))
    | none => Eval.newFunction items body env

/-- Binds a name to the value of a form. -/
def evaluateDefinition (env : Env) (name form : Value) : Eval Value := do
  let text ← Eval.ofExcept name.expectSymbol
  let value ← self (.evaluate form env)
  Eval.define env text value
  return value

/-- The expander that does what a procedure does. -/
def expanderOf : Value → Except Error Value
  | .procedure _ id parameters body scope => .ok (.procedure .expander id parameters body scope)
  | other => .error (.wrongType .function other.type)

/-- Binds a name to the expander made from the value of a form. -/
def evaluateExpanderDefinition (env : Env) (name form : Value) : Eval Value := do
  let text ← Eval.ofExcept name.expectSymbol
  let value ← self (.evaluate form env)
  let expander ← Eval.ofExcept (expanderOf value)
  Eval.define env text expander
  return expander

/-- Evaluates a special form with the given parts. Parts beyond those it has are ignored. -/
def performSpecial (env : Env) : SpecialForm → List Value → Eval Progress
  | .quote, form :: _ => return .done form
  | .quasiquote, template :: _ => do
    return .next (.evaluate (← Eval.ofExcept (Template.expand template)) env)
  | .sequence, form :: rest => do
    return .next (.evaluate (← evaluateAllButLast self env form rest) env)
  | .conditional, condition :: consequent :: rest => do
    let value ← self (.evaluate condition env)
    return .next (.evaluate (if value.countsAsTrue then consequent else rest.headD .nil) env)
  | .function, parameters :: body :: _ => return .done (← makeFunction env parameters body)
  | .define, name :: form :: _ => return .done (← evaluateDefinition self env name form)
  | .defineExpander, name :: form :: _ =>
    return .done (← evaluateExpanderDefinition self env name form)
  | .expand, form :: _ => return .next (.expand form env)
  | .bindings, bindings :: body :: _ => do
    return .next (.evaluate body (← evaluateBindings self env bindings))
  | special, _ => Eval.fail (.missingPart special)

/-- Evaluates the values of a map's entries, in order, and puts each of them under the entry's
key in the map that is made. The keys are kept as they are. -/
def evaluateEntries (env : Env) (made : Entries) : Entries → Eval Entries
  | [] => return made
  | (key, form) :: rest => do
    let value ← self (.evaluate form env)
    evaluateEntries env (Entries.insert made key value) rest

/-- Evaluates a form that calls no expander. -/
def performExpanded (env : Env) : Value → Eval Progress
  | .list [] => return .done (.list [])
  | .list (head :: arguments) => do
    match specialForm? head with
    | some special => performSpecial self env special arguments
    | none =>
      let callee ← self (.evaluate head env)
      return .next (.call callee (← evaluateEach self env arguments) env)
  | .vector items => return .done (.vector (← evaluateEach self env items))
  | .map entries => return .done (.map (← evaluateEntries self env [] entries))
  | .symbol name => return .done (← Eval.lookup env name)
  | other => return .done other

/-- The form that stands for a call of an expander. -/
def expandOnce (expansion : Expansion) : Eval Value := do
  self (← enter expansion.parameters expansion.body expansion.scope expansion.arguments)

/-- Performs one task, given how to run others. -/
def perform : Task → Eval Progress
  | .evaluate form env => do
    match expansion? (← get) env form with
    | some expansion => return .next (.evaluate (← expandOnce self expansion) env)
    | none => performExpanded self env form
  | .expand form env => do
    match expansion? (← get) env form with
    | some expansion => return .next (.expand (← expandOnce self expansion) env)
    | none => return .done form
  | .call callee arguments env => performCall self env callee arguments

end Tasks

/-- Performs a task and those that take its place until there is a value. Fuel bounds both the
number of replacements and the depth of the runs within runs. -/
def run : Nat → Task → Eval Value
  | 0, _ => throw .exhausted
  | fuel + 1, task => do
    match ← perform (run fuel) task with
    | .done value => return value
    | .next task => run fuel task

/-- A run is one task and the run of its replacement. -/
theorem run_succ (fuel : Nat) (task : Task) :
    run (fuel + 1) task = (do
      match ← perform (run fuel) task with
      | .done value => return value
      | .next task => run fuel task) := rfl

end SmallLisp
