import SmallLisp.Proofs.Positional.Natives

/-!
# Evaluation by position

The evaluator once more, with the parts of forms, the parameters of procedures and the arguments of
native functions taken by position. What takes a part asks for it without a look at whether it is
there: a special form relies on the number of parts that it has asked about before, a call on the
fact that forms which have been evaluated are as many as before, and a pair of a name and a form on
the even number of items that it is taken from. None of this ever gives up, so each form comes to
what the evaluator says.

## Main definitions

* `Positional.perform`: performs one task, given how to run others
* `Positional.run`: performs tasks until there is a value or the fuel is spent

## Main results

* `Positional.perform_eq`: one task is performed as the evaluator does it
* `positions_exist`: no run and no native function asks for an item that is not there
-/

namespace SmallLisp

namespace Positional

/-- The call of an expander that a form is, its arguments taken by position. -/
def expansion? (store : Store) (env : Env) (form : Value) : Taking (Option Expansion) :=
  match form with
  | .list items =>
    match items.head? with
    | some (.symbol name) =>
      match store.lookup? env name with
      | some (.procedure .expander _ parameters body scope) => do
        return some ⟨parameters, body, scope, ← itemsFrom items 1⟩
      | _ => return none
    | _ => return none
  | _ => return none

section Tasks

variable (self : Task → Taking Value)

/-- Evaluates forms from left to right. -/
def evaluateEach (env : Env) (forms : List Value) : Taking (List Value) :=
  forms.mapM fun form => self (.evaluate form env)

/-- The body of a procedure as a task, in a fresh scope with the parameters bound. -/
def enter (parameters : List Value) (body : Value) (scope : Env) (arguments : List Value) :
    Taking Task := do
  let bindings ← bind parameters arguments
  return .evaluate body (← .of (Eval.openScope scope bindings))

/-- Calls a value. -/
def performCall (env : Env) (callee : Value) (arguments : List Value) : Taking Progress :=
  match callee with
  | .native f => do return .done (← invoke self env f arguments)
  | .procedure _ _ parameters body scope => do
    return .next (← enter parameters body scope arguments)
  | other => .of (Eval.render .readable other >>= fun text => Eval.fail (.notFunction text))

/-- The first part of a special form that cannot do without one. -/
def firstPart (special : SpecialForm) (parts : List Value) : Taking Value :=
  match parts.head? with
  | some part => return part
  | none => .of (Eval.fail (.missingPart special))

/-- Refuses fewer parts than two. -/
def requireTwo (special : SpecialForm) (parts : List Value) : Taking Unit :=
  if parts.length < 2 then .of (Eval.fail (.missingPart special)) else return

/-- Binds the name of each pair to the value of its form. -/
def bindPairs (scope : Env) : List (List Value) → Taking Unit
  | [] => return
  | pair :: rest => do
    let name ← item pair 0
    match name.symbol? with
    | some text =>
      let form ← item pair 1
      let value ← self (.evaluate form scope)
      .of (Eval.define scope text value)
      bindPairs scope rest
    | none => .of (Eval.fail (.binder (.bindingName name.type)))

/-- A scope with names bound to the values of forms. -/
def evaluateBindings (env : Env) (bindings : Value) : Taking Env :=
  match bindings.items? with
  | none => .of (Eval.fail (.binder (.bindingList bindings.type)))
  | some items =>
    if items.length % 2 = 1 then .of (Eval.fail (.binder .oddBindings))
    else do
      let scope ← .of (Eval.openScope env [])
      bindPairs self scope (chunks items)
      return scope

/-- Evaluates a special form, its parts taken by position. -/
def performSpecial (env : Env) (special : SpecialForm) (parts : List Value) : Taking Progress :=
  match special with
  | .quote => do return .done (← firstPart special parts)
  | .quasiquote => do return .next (.evaluate (← expand (← firstPart special parts)) env)
  | .sequence =>
    match parts.getLast? with
    | some last => do
      parts.dropLast.forM fun form => do
        let _ ← self (.evaluate form env)
      return .next (.evaluate last env)
    | none => .of (Eval.fail (.missingPart special))
  | .conditional => do
    requireTwo special parts
    let condition ← item parts 0
    let value ← self (.evaluate condition env)
    if value.countsAsTrue then
      return .next (.evaluate (← item parts 1) env)
    else return .next (.evaluate (parts[2]?.getD .nil) env)
  | .function => do
    requireTwo special parts
    let parameters ← item parts 0
    let body ← item parts 1
    return .done (← .of (makeFunction env parameters body))
  | .define => do
    requireTwo special parts
    let name ← item parts 0
    let text ← .of (Eval.ofExcept name.expectSymbol)
    let form ← item parts 1
    let value ← self (.evaluate form env)
    .of (Eval.define env text value)
    return .done value
  | .defineExpander => do
    requireTwo special parts
    let name ← item parts 0
    let text ← .of (Eval.ofExcept name.expectSymbol)
    let form ← item parts 1
    let value ← self (.evaluate form env)
    let expander ← .of (Eval.ofExcept (expanderOf value))
    .of (Eval.define env text expander)
    return .done expander
  | .expand => do return .next (.expand (← firstPart special parts) env)
  | .bindings => do
    requireTwo special parts
    let bindings ← item parts 0
    let scope ← evaluateBindings self env bindings
    return .next (.evaluate (← item parts 1) scope)

/-- Evaluates the values of a map's entries, in order. -/
def evaluateEntries (env : Env) (made : Entries) : Entries → Taking Entries
  | [] => return made
  | (key, form) :: rest => do
    let value ← self (.evaluate form env)
    evaluateEntries env (Entries.insert made key value) rest

/-- Evaluates a form that calls no expander. -/
def performExpanded (env : Env) (form : Value) : Taking Progress :=
  match form with
  | .list items =>
    match items.head? with
    | none => return .done form
    | some head => do
      let arguments ← itemsFrom items 1
      match specialForm? head with
      | some special => performSpecial self env special arguments
      | none =>
        -- The items have been evaluated, and now there must be a first one to call.
        let evaluated ← evaluateEach self env items
        match evaluated with
        | callee :: values => return .next (.call callee values env)
        | [] => giveUp
  | .vector items => do return .done (.vector (← evaluateEach self env items))
  | .map entries => do return .done (.map (← evaluateEntries self env [] entries))
  | .symbol name => do return .done (← .of (Eval.lookup env name))
  | other => return .done other

/-- The form that stands for a call of an expander. -/
def expandOnce (expansion : Expansion) : Taking Value := do
  let task ← enter expansion.parameters expansion.body expansion.scope expansion.arguments
  self task

/-- Performs one task, given how to run others. -/
def perform : Task → Taking Progress
  | .evaluate form env => do
    match ← expansion? (← .of get) env form with
    | some expansion => return .next (.evaluate (← expandOnce self expansion) env)
    | none => performExpanded self env form
  | .expand form env => do
    match ← expansion? (← .of get) env form with
    | some expansion => return .next (.expand (← expandOnce self expansion) env)
    | none => return .done form
  | .call callee arguments env => performCall self env callee arguments

end Tasks

/-- Performs a task and those that take its place until there is a value. -/
def run : Nat → Task → Taking Value
  | 0, _ => .of (throw .exhausted)
  | fuel + 1, task => do
    match ← perform (run fuel) task with
    | .done value => return value
    | .next task => run fuel task

/-! ### Every item is there -/

section Agreement

variable (self : Task → Eval Value)

theorem expansion?_eq (store : Store) (env : Env) (form : Value) :
    expansion? store env form = pure (SmallLisp.expansion? store env form) := by
  cases form with
  | seq kind items =>
    cases kind with
    | vector => rfl
    | list =>
      rcases items with _ | ⟨head, arguments⟩
      · rfl
      · cases head with
        | symbol name =>
          simp only [expansion?, List.head?_cons, itemsFrom_one, SmallLisp.expansion?]
          rcases store.lookup? env name with _ | value
          · rfl
          · cases value with
            | procedure kind => cases kind <;> rfl
            | _ => rfl
        | _ => rfl
  | _ => rfl

theorem evaluateEach_eq (env : Env) (forms : List Value) :
    evaluateEach (fun task => .of (self task)) env forms =
      .of (SmallLisp.evaluateEach self env forms) :=
  mapM_of (fun form => self (.evaluate form env)) forms

theorem enter_eq (parameters : List Value) (body : Value) (scope : Env) (arguments : List Value) :
    enter parameters body scope arguments =
      .of (SmallLisp.enter parameters body scope arguments) := by
  rw [enter, bind_eq, SmallLisp.enter, Env.extend, bind_assoc]
  simp only [Taking.of_bind, Taking.of_pure]

theorem performCall_eq (env : Env) (callee : Value) (arguments : List Value) :
    performCall (fun task => .of (self task)) env callee arguments =
      .of (SmallLisp.performCall self env callee arguments) := by
  cases callee with
  | native f =>
    simp only [performCall, SmallLisp.performCall, invoke_eq, Taking.of_bind, Taking.of_pure]
  | procedure kind id parameters body scope =>
    simp only [performCall, SmallLisp.performCall, enter_eq, Taking.of_bind, Taking.of_pure]
  | _ => rfl

theorem bindPairs_eq (scope : Env) {items : List Value} (even : items.length % 2 = 0) :
    bindPairs (fun task => .of (self task)) scope (chunks items) =
      .of (bindEach self scope items) := by
  induction items using chunks.induct with
  | case1 => rfl
  | case2 last => cases even
  | case3 name form rest ih =>
    have even : rest.length % 2 = 0 := by
      simp only [List.length_cons] at even
      omega
    rw [chunks, bindPairs, bindEach, item_zero, item_one, pure_bind, ih even]
    cases name.symbol? with
    | none => rfl
    | some text => simp only [pure_bind, Taking.of_bind]

theorem evaluateBindings_eq (env : Env) (bindings : Value) :
    evaluateBindings (fun task => .of (self task)) env bindings =
      .of (SmallLisp.evaluateBindings self env bindings) := by
  unfold evaluateBindings SmallLisp.evaluateBindings
  cases bindings.items? with
  | none => rfl
  | some items =>
    by_cases odd : items.length % 2 = 1
    · simp only [if_pos odd]
    · simp only [if_neg odd, bindPairs_eq self _ (by omega : items.length % 2 = 0), Taking.of_bind,
        Taking.of_pure]

/-- The last form and those before it, from either end. -/
theorem evaluateAllButLast_eq (env : Env) (form : Value) (rest : List Value) :
    (do
      ((form :: rest).dropLast.forM fun form => do
        let _ ← Taking.of (self (.evaluate form env)))
      return (form :: rest).getLast (List.cons_ne_nil form rest) : Taking Value) =
    .of (evaluateAllButLast self env form rest) := by
  induction rest generalizing form with
  | nil => rfl
  | cons next rest ih =>
    rw [evaluateAllButLast, Taking.of_bind, ← ih next]
    simp

@[simp] theorem requireTwo_of_two (special : SpecialForm) (first second : Value)
    (more : List Value) : requireTwo special (first :: second :: more) = pure () := if_neg (by simp)

theorem performSpecial_eq (env : Env) (special : SpecialForm) (parts : List Value) :
    performSpecial (fun task => .of (self task)) env special parts =
      .of (SmallLisp.performSpecial self env special parts) := by
  match special, parts with
  | .quote, [] | .quote, _ :: _ | .quasiquote, [] | .sequence, [] | .expand, []
  | .expand, _ :: _ => rfl
  | .quasiquote, template :: _ =>
    simp only [performSpecial, SmallLisp.performSpecial, firstPart, List.head?_cons, pure_bind,
      expand_eq, Taking.of_bind, Taking.of_pure]
  | .sequence, form :: rest =>
    rw [performSpecial, List.getLast?_eq_some_getLast (List.cons_ne_nil form rest),
      SmallLisp.performSpecial, Taking.of_bind, ← evaluateAllButLast_eq]
    simp
  | .conditional, [] | .conditional, [_] | .function, [] | .function, [_] | .define, []
  | .define, [_] | .defineExpander, [] | .defineExpander, [_] | .bindings, []
  | .bindings, [_] => rfl
  | .conditional, condition :: consequent :: more =>
    simp only [performSpecial, SmallLisp.performSpecial, requireTwo_of_two, item_zero, item_one,
      pure_bind, Taking.of_bind]
    refine bind_congr fun value => ?_
    cases value.countsAsTrue with
    | true => rfl
    | false => cases more <;> rfl
  | .function, parameters :: body :: _ =>
    simp only [performSpecial, SmallLisp.performSpecial, requireTwo_of_two, item_zero, item_one,
      pure_bind, Taking.of_bind, Taking.of_pure]
  | .define, name :: form :: _ =>
    simp only [performSpecial, SmallLisp.performSpecial, requireTwo_of_two, item_zero, item_one,
      pure_bind, evaluateDefinition, Taking.of_bind, Taking.of_pure, bind_assoc]
  | .defineExpander, name :: form :: _ =>
    simp only [performSpecial, SmallLisp.performSpecial, requireTwo_of_two, item_zero, item_one,
      pure_bind, evaluateExpanderDefinition, Taking.of_bind, Taking.of_pure, bind_assoc]
  | .bindings, bindings :: body :: _ =>
    simp only [performSpecial, SmallLisp.performSpecial, requireTwo_of_two, item_zero, item_one,
      pure_bind, evaluateBindings_eq, Taking.of_bind, Taking.of_pure]

theorem evaluateEntries_eq (env : Env) (made rest : Entries) :
    evaluateEntries (fun task => .of (self task)) env made rest =
      .of (SmallLisp.evaluateEntries self env made rest) := by
  induction rest generalizing made with
  | nil => rfl
  | cons entry rest ih =>
    rw [evaluateEntries, SmallLisp.evaluateEntries, Taking.of_bind]
    simp only [ih]

theorem performExpanded_eq (env : Env) (form : Value) :
    performExpanded (fun task => .of (self task)) env form =
      .of (SmallLisp.performExpanded self env form) := by
  match form with
  | .list [] => rfl
  | .list (head :: arguments) =>
    simp only [performExpanded, SmallLisp.performExpanded, List.head?_cons, itemsFrom_one,
      pure_bind]
    cases specialForm? head with
    | some special => exact performSpecial_eq self env special arguments
    | none =>
      -- As many values as there are items come out, so there is a first one.
      simp only [evaluateEach_eq, SmallLisp.evaluateEach, List.mapM_cons, Taking.of_bind,
        Taking.of_pure, bind_assoc, pure_bind]
  | .vector items =>
    simp only [performExpanded, SmallLisp.performExpanded, evaluateEach_eq, Taking.of_bind,
      Taking.of_pure]
  | .map entries =>
    simp only [performExpanded, SmallLisp.performExpanded, evaluateEntries_eq, Taking.of_bind,
      Taking.of_pure]
  | .symbol name =>
    simp only [performExpanded, SmallLisp.performExpanded, Taking.of_bind, Taking.of_pure]
  | .nil | .bool _ | .number _ | .string _ | .keyword _ | .atom _ | .native _ | .procedure .. => rfl

theorem expandOnce_eq (expansion : Expansion) :
    expandOnce (fun task => .of (self task)) expansion =
      .of (SmallLisp.expandOnce self expansion) := by
  rw [expandOnce, SmallLisp.expandOnce, enter_eq, Taking.of_bind]

/-- One task is performed as the evaluator does it. -/
theorem perform_eq (task : Task) :
    perform (fun task => .of (self task)) task = .of (SmallLisp.perform self task) := by
  cases task with
  | evaluate form env =>
    rw [perform, SmallLisp.perform, Taking.of_bind]
    refine bind_congr fun store => ?_
    rw [expansion?_eq, pure_bind]
    cases SmallLisp.expansion? store env form with
    | some expansion => simp only [expandOnce_eq, Taking.of_bind, Taking.of_pure]
    | none => exact performExpanded_eq self env form
  | expand form env =>
    rw [perform, SmallLisp.perform, Taking.of_bind]
    refine bind_congr fun store => ?_
    rw [expansion?_eq, pure_bind]
    cases SmallLisp.expansion? store env form with
    | some expansion => simp only [expandOnce_eq, Taking.of_bind, Taking.of_pure]
    | none => rfl
  | call callee arguments env => exact performCall_eq self env callee arguments

end Agreement

/-- Runs that take items by position come to what runs come to. -/
theorem run_eq (fuel : Nat) : run fuel = fun task => .of (SmallLisp.run fuel task) := by
  induction fuel with
  | zero => rfl
  | succ fuel ih =>
    -- The runs within a task have less fuel, so nothing about them is left to be shown.
    funext task
    rw [run, run_succ, ih, perform_eq, Taking.of_bind]
    refine bind_congr fun progress => ?_
    cases progress with
    | done value => rfl
    | next task => rfl

end Positional

/-- **Every item that is asked for is there.** A run in which parts of forms, parameters and
arguments are taken by position gives up on no task, and comes to what the evaluator comes to. The
same goes for each native function with any arguments. Where their number is not one that the
function is declared with, the answer is that this is so, and nothing has changed. -/
theorem positions_exist (fuel : Nat) (s : Store) :
    (∀ task, ¬ (Positional.run fuel task).GivesUp s ∧
      Positional.run fuel task = .of (run fuel task)) ∧
    ∀ f arguments env,
      ¬ (Positional.invoke (Positional.run fuel) env f arguments).GivesUp s ∧
      Positional.invoke (Positional.run fuel) env f arguments =
        .of (runNative (run fuel) env f arguments) ∧
      (f.arity.admits arguments.length = false →
        runNative (run fuel) env f arguments s =
          .error (.failure (.wrongCount f arguments.length)) s) := by
  have runs := Positional.run_eq fuel
  have calls := Positional.invoke_eq (run fuel)
  rw [runs]
  refine ⟨fun task => ⟨Taking.not_givesUp_of _ s, rfl⟩, fun f arguments env => ⟨?_, ?_, ?_⟩⟩
  · rw [calls]
    exact Taking.not_givesUp_of _ s
  · exact calls env f arguments
  · intro refused
    rw [runNative_of_refused refused]
    rfl

/-- A sum of one number. -/
theorem positions_exist_add :
    let s := Store.initial fun _ => none
    (Native.operation .add).arity.admits [Value.bool true].length = false ∧
      runNative (run 1) TopLevel.root (.operation .add) [.bool true] s =
        .error (.failure (.wrongCount (.operation .add) 1)) s := by
  intro s
  have refused : (Native.operation .add).arity.admits [Value.bool true].length = false := rfl
  obtain ⟨_, natives⟩ := positions_exist 1 s
  exact ⟨refused, (natives (.operation .add) [.bool true] TopLevel.root).2.2 refused⟩

/-- Where the number of arguments is not settled first, an operation does give up. -/
example (s : Store) : (Positional.operationBody .add [.bool true]).GivesUp s := ⟨s, rfl⟩

end SmallLisp
