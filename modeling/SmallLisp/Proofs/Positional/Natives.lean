import SmallLisp.Proofs.Evaluation.Adequacy
import SmallLisp.Proofs.Positional.Access

/-!
# Arguments taken by position

A native function with a fixed number of arguments takes each of them by its position and does not
ask how many there are; the number is settled before it is called. A function with a least number of
arguments asks for that number itself, and then takes its arguments by position as well, the last
ones in a row. No function gives up on any list of arguments: the number that it is declared with or
asks for covers all positions that it takes.

## Main definitions

* `Positional.body`: what a native function does with its arguments, taken by position
* `Positional.invoke`: the same, once the number of arguments is settled

## Main results

* `Positional.invoke_eq`: this is what native functions do, whatever their arguments
-/

namespace SmallLisp.Positional

/-- Refuses fewer arguments than a function must have. -/
def requireAtLeast (f : Native) (least : Nat) (arguments : List Value) : Taking Unit :=
  if arguments.length < least then .of (Eval.fail (.wrongCount f arguments.length)) else return

/-- The result of an operation, its arguments taken by position. -/
def operationBody (operation : Operation) (arguments : List Value) : Taking Value :=
  match operation with
  | .list | .vector | .concat => .of (Eval.ofExcept (operation.run arguments))
  | .hashMap => do return .map (← entriesOf arguments)
  | .assoc => do
    requireAtLeast (.operation operation) 1 arguments
    let value ← item arguments 0
    let entries ← .of (Eval.ofExcept value.expectEntries)
    let more ← entriesOf (← itemsFrom arguments 1)
    return .map (Entries.insertAll entries more)
  | .dissoc => do
    requireAtLeast (.operation operation) 1 arguments
    let value ← item arguments 0
    let entries ← .of (Eval.ofExcept value.expectEntries)
    return .map ((← itemsFrom arguments 1).foldl Entries.erase entries)
  | .add | .subtract | .multiply | .divide | .less | .lessOrEqual | .greater | .greaterOrEqual
  | .equal | .cons | .nth | .get | .contains => do
    let first ← item arguments 0
    let second ← item arguments 1
    .of (Eval.ofExcept (operation.run [first, second]))
  | .first | .rest | .count | .isEmpty | .isSequential | .keys | .vals | .isNil | .isTrue | .isFalse
  | .isSymbol | .isKeyword | .isList | .isVector | .isMap | .isAtom | .isFunction | .symbol
  | .keyword | .readString | .throw | .doc => do
    let value ← item arguments 0
    .of (Eval.ofExcept (operation.run [value]))

/-- The result of an effect, its arguments taken by position. -/
def effectBody (effect : Effect) (arguments : List Value) : Taking Value :=
  match effect with
  | .str | .prStr | .println | .prn => .of (effect.run arguments)
  | .atom | .deref | .slurp => do
    let value ← item arguments 0
    .of (effect.run [value])
  | .reset => do
    let atom ← item arguments 0
    let value ← item arguments 1
    .of (effect.run [atom, value])

section Calls

variable (self : Task → Taking Value) (env : Env)

/-- The result of a control function, its arguments taken by position. -/
def controlBody (control : Control) (arguments : List Value) : Taking Value :=
  match control with
  | .swap => do
    requireAtLeast (.control control) 2 arguments
    let atom ← item arguments 0
    let cell ← .of (Eval.ofExcept atom.expectCell)
    let current ← .of (Eval.readCell cell)
    let more ← itemsFrom arguments 2
    let callee ← item arguments 1
    let updated ← self (.call callee (current :: more) env)
    .of (Eval.writeCell cell updated)
    return updated
  | .apply => do
    requireAtLeast (.control control) 2 arguments
    let last ← item arguments (← lastPosition arguments)
    let middle ← itemsBetween arguments 1 (← lastPosition arguments)
    let spread ← .of (Eval.ofExcept last.expectItems)
    let callee ← item arguments 0
    self (.call callee (middle ++ spread) env)
  | .map => do
    let sequence ← item arguments 1
    let items ← .of (Eval.ofExcept sequence.expectItems)
    return .list (← items.mapM fun value => do
      let callee ← item arguments 0
      self (.call callee [value] env))
  | .eval => do
    let form ← item arguments 0
    self (.evaluate form env.root)

/-- What a native function does with its arguments, taken by position. -/
def body (f : Native) (arguments : List Value) : Taking Value :=
  match f with
  | .operation operation => operationBody operation arguments
  | .effect effect => effectBody effect arguments
  | .control control => controlBody self env control arguments

/-- The result of a native function. A fixed number of arguments is settled before anything
else. -/
def invoke (f : Native) (arguments : List Value) : Taking Value :=
  match f.arity with
  | .exactly count =>
    if arguments.length = count then body self env f arguments
    else .of (Eval.fail (.wrongCount f arguments.length))
  | .atLeast _ | .any => body self env f arguments

end Calls

/-! ### Enough arguments -/

@[simp] theorem requireAtLeast_one (f : Native) (first : Value) (rest : List Value) :
    requireAtLeast f 1 (first :: rest) = pure () := if_neg (by simp)

@[simp] theorem requireAtLeast_two (f : Native) (first second : Value) (rest : List Value) :
    requireAtLeast f 2 (first :: second :: rest) = pure () := if_neg (by simp)

theorem requireAtLeast_of_lt {f : Native} {least : Nat} {arguments : List Value}
    (tooFew : arguments.length < least) :
    requireAtLeast f least arguments = .of (Eval.fail (.wrongCount f arguments.length)) := by
  rw [requireAtLeast, if_pos tooFew]

theorem operationBody_eq {operation : Operation} {arguments : List Value}
    (admitted : (Native.operation operation).arity.admits arguments.length) :
    operationBody operation arguments = .of (Eval.ofExcept (operation.run arguments)) := by
  cases operation with
  | list | vector | concat => rfl
  | hashMap =>
    rw [operationBody, entriesOf_eq, Operation.run]
    cases Operation.entriesOf arguments with
    | ok entries => rfl
    | error error => rfl
  | assoc =>
    obtain ⟨value, forms, rfl⟩ := Arity.exists_of_atLeast_one admitted
    simp only [operationBody, requireAtLeast_one, item_zero, itemsFrom_one, pure_bind, entriesOf_eq]
    rw [Operation.run, Operation.assocTo]
    simp only [ofExcept_bind, Taking.of_bind]
    rfl
  | dissoc =>
    obtain ⟨value, removed, rfl⟩ := Arity.exists_of_atLeast_one admitted
    simp only [operationBody, requireAtLeast_one, item_zero, itemsFrom_one, pure_bind]
    rw [Operation.run, Operation.dissocFrom]
    simp only [ofExcept_bind, Taking.of_bind]
    rfl
  | add | subtract | multiply | divide | less | lessOrEqual | greater | greaterOrEqual
  | equal | cons | nth | get | contains =>
    obtain ⟨first, second, rfl⟩ := Arity.exists_of_exactly_two admitted
    rfl
  | first | rest | count | isEmpty | isSequential | keys | vals | isNil | isTrue | isFalse
  | isSymbol | isKeyword | isList | isVector | isMap | isAtom | isFunction | symbol
  | keyword | readString | throw | doc =>
    obtain ⟨value, rfl⟩ := Arity.exists_of_exactly_one admitted
    rfl

theorem effectBody_eq {effect : Effect} {arguments : List Value}
    (admitted : (Native.effect effect).arity.admits arguments.length) :
    effectBody effect arguments = .of (effect.run arguments) := by
  cases effect with
  | str | prStr | println | prn => rfl
  | atom | deref | slurp =>
    obtain ⟨value, rfl⟩ := Arity.exists_of_exactly_one admitted
    rfl
  | reset =>
    obtain ⟨atom, value, rfl⟩ := Arity.exists_of_exactly_two admitted
    rfl

theorem mapM_of {α β : Type} (action : α → Eval β) (items : List α) :
    (items.mapM fun item => Taking.of (action item)) = .of (items.mapM action) := by
  induction items with
  | nil => rfl
  | cons first rest ih =>
    rw [List.mapM_cons, List.mapM_cons, ih]
    simp only [Taking.of_bind, Taking.of_pure]

section Control

variable {self : Task → Eval Value} {env : Env} {arguments : List Value}

theorem controlBody_eq {control : Control}
    (admitted : (Native.control control).arity.admits arguments.length) :
    controlBody (fun task => .of (self task)) env control arguments =
      .of (runControl self env control arguments) := by
  cases control with
  | swap =>
    obtain ⟨atom, callee, more, rfl⟩ := Arity.exists_of_atLeast_two admitted
    rw [controlBody, runControl, swapAtom]
    simp only [requireAtLeast_two, item_zero, item_one, itemsFrom_two, pure_bind, Taking.of_bind]
    rfl
  | apply =>
    obtain ⟨callee, first, more, rfl⟩ := Arity.exists_of_atLeast_two admitted
    obtain ⟨leading, last, split⟩ : ∃ leading last, first :: more = leading ++ [last] :=
      ⟨_, _, (List.dropLast_concat_getLast (List.cons_ne_nil first more)).symm⟩
    rw [← runNative_control admitted, controlBody, requireAtLeast_two, split, runNative_apply]
    simp only [pure_bind, lastPosition_concat, item_concat, itemsBetween_concat, item_zero]
    rw [Taking.of_bind]
  | map =>
    obtain ⟨callee, sequence, rfl⟩ := Arity.exists_of_exactly_two admitted
    simp only [controlBody, runControl, callEach, item_zero, item_one, pure_bind, Taking.of_bind,
      ← mapM_of]
    rfl
  | eval =>
    obtain ⟨form, rfl⟩ := Arity.exists_of_exactly_one admitted
    rfl

theorem body_eq {f : Native} (admitted : f.arity.admits arguments.length) :
    body (fun task => .of (self task)) env f arguments =
      .of (runNative self env f arguments) := by
  cases f with
  | operation operation =>
    rw [runNative_operation admitted]
    exact operationBody_eq admitted
  | effect effect =>
    rw [runNative_effect admitted]
    exact effectBody_eq admitted
  | control control =>
    rw [runNative_control admitted]
    exact controlBody_eq admitted

end Control

/-- The functions with a least number of arguments ask for that number themselves. -/
theorem body_of_refused {self : Task → Taking Value} {env : Env} {f : Native} {least : Nat}
    {arguments : List Value} (declared : f.arity = .atLeast least)
    (tooFew : arguments.length < least) :
    body self env f arguments = .of (Eval.fail (.wrongCount f arguments.length)) := by
  cases f with
  | operation operation =>
    cases operation with
    | assoc | dissoc =>
      cases declared
      rw [body, operationBody, requireAtLeast_of_lt tooFew]
      rfl
    | _ => cases declared
  | effect effect => cases effect <;> cases declared
  | control control =>
    cases control with
    | swap | apply =>
      cases declared
      rw [body, controlBody, requireAtLeast_of_lt tooFew]
      rfl
    | _ => cases declared

/-- A number of arguments that a function is not declared with is refused, whatever there is to
perform tasks. -/
theorem invoke_of_refused {self : Task → Taking Value} {env : Env} {f : Native}
    {arguments : List Value} (refused : f.arity.admits arguments.length = false) :
    invoke self env f arguments = .of (Eval.fail (.wrongCount f arguments.length)) := by
  unfold invoke
  cases declared : f.arity with
  | exactly count =>
    rw [declared] at refused
    exact if_neg (by simpa [Arity.admits] using refused)
  | atLeast least =>
    rw [declared] at refused
    exact body_of_refused declared (by simpa [Arity.admits] using refused)
  | any =>
    rw [declared] at refused
    cases refused

/-- Native functions do what they do with arguments taken by position, however many there are. -/
theorem invoke_eq (self : Task → Eval Value) (env : Env) (f : Native) (arguments : List Value) :
    invoke (fun task => .of (self task)) env f arguments =
      .of (runNative self env f arguments) := by
  cases admitted : f.arity.admits arguments.length with
  | true =>
    rw [← body_eq admitted]
    unfold invoke
    cases declared : f.arity with
    | exactly count =>
      rw [declared] at admitted
      exact if_pos (by simpa [Arity.admits] using admitted)
    | atLeast least => rfl
    | any => rfl
  | false => rw [invoke_of_refused admitted, runNative_of_refused admitted]

end SmallLisp.Positional
