import SmallLisp.Proofs.Scope.Mirror

/-!
# Runs do not see the names of frames

A task that is begun in two worlds that differ only in the names of frames ends alike in both. This
is so for one task when it is so for the runs within it, part by part of the evaluator, and for runs
by induction on the fuel.

## Main definitions

* `Mirrored`: a way to perform tasks that does not see the names of frames

## Main results

* `Mirrored.perform`: nor does one task, performed in this way
* `mirrored_run`: runs do not see the names of frames
-/

namespace SmallLisp

variable {ρ : FrameId → FrameId}

/-- A way to perform tasks that does not see the names of frames. -/
def Mirrored (ρ : FrameId → FrameId) (self : Task → Eval Value) : Prop :=
  ∀ task : Task, Eval.Mirrors ρ (Value.rename ρ) (self task) (self (task.rename ρ))

/-! ### Effects -/

namespace Effect

theorem textOf_mirrors (style : Style) (separator : String) (values : List Value) :
    Eval.Mirrors ρ id (textOf style separator values)
      (textOf style separator (values.map (Value.rename ρ))) := by
  refine .get_bind fun s t mirrors => ?_
  have texts : (values.map (Value.rename ρ)).map (t.render style) =
      values.map (s.render style) := by
    rw [List.map_map]
    exact List.map_congr_left fun value _ => mirrors.render style value
  rw [texts]
  exact .pure _

theorem printAll_mirrors (style : Style) (values : List Value) :
    Eval.Mirrors ρ (Value.rename ρ) (printAll style values)
      (printAll style (values.map (Value.rename ρ))) :=
  (textOf_mirrors style " " values).bind fun text =>
    (Eval.Mirrors.print (text ++ "\n")).bind fun _ => .pure Value.nil

theorem run_mirrors (effect : Effect) (arguments : List Value) :
    Eval.Mirrors ρ (Value.rename ρ) (effect.run arguments)
      (effect.run (arguments.map (Value.rename ρ))) := by
  by_cases admitted : effect.signature.arity.admits arguments.length = true
  case neg =>
    -- How many arguments there are is all that counts, so each effect takes as many as it needs.
    have refused := Bool.eq_false_iff.mpr admitted
    have sameCount : (arguments.map (Value.rename ρ)).length = arguments.length :=
      List.length_map _
    rw [run_eq_wrongCount_of_arity effect _ refused,
      run_eq_wrongCount_of_arity effect _ (sameCount ▸ refused), sameCount]
    exact .fail _
  cases effect with
  | atom =>
    obtain ⟨value, rfl⟩ := Arity.exists_of_exactly_one admitted
    exact .newCell value
  | deref =>
    obtain ⟨value, rfl⟩ := Arity.exists_of_exactly_one admitted
    exact (Eval.Mirrors.ofExcept (Value.expectCell_rename ρ value)).bind fun cell => .readCell cell
  | reset =>
    obtain ⟨atom, value, rfl⟩ := Arity.exists_of_exactly_two admitted
    exact (Eval.Mirrors.ofExcept (Value.expectCell_rename ρ atom)).bind fun cell =>
      (Eval.Mirrors.writeCell cell value).bind fun _ => .pure value
  | str | prStr => exact (textOf_mirrors _ _ arguments).bind fun text => .pure (Value.string text)
  | println | prn => exact printAll_mirrors _ arguments
  | slurp =>
    obtain ⟨value, rfl⟩ := Arity.exists_of_exactly_one admitted
    exact (Eval.Mirrors.ofExcept (Value.expectString_rename ρ value)).bind fun path =>
      (Eval.Mirrors.readFile path).bind fun text => .pure (Value.string text)

end Effect

/-! ### Forms -/

/-- A call of an expander with renamed frames. -/
def Expansion.rename (ρ : FrameId → FrameId) (expansion : Expansion) : Expansion where
  parameters := expansion.parameters.map (Value.rename ρ)
  body := expansion.body.rename ρ
  scope := expansion.scope.rename ρ
  arguments := expansion.arguments.map (Value.rename ρ)

theorem Store.Mirrors.expansion? {s t : Store} (mirrors : s.Mirrors ρ t) (env : Env)
    (form : Value) :
    SmallLisp.expansion? t (env.rename ρ) (form.rename ρ) =
      (SmallLisp.expansion? s env form).map (Expansion.rename ρ) := by
  -- Only a list with a symbol at its head can call an expander.
  cases form with
  | seq kind items =>
    cases kind with
    | vector => rfl
    | list =>
      cases items with
      | nil => rfl
      | cons head arguments =>
        cases head with
        | symbol name =>
          rw [Value.rename_seq, List.map_cons, Value.rename_symbol, SmallLisp.expansion?,
            mirrors.lookup? env name, SmallLisp.expansion?]
          cases s.lookup? env name with
          | none => rfl
          | some value =>
            cases value with
            | procedure kind id parameters body scope =>
              rw [Option.map_some, Value.rename_procedure]
              cases kind <;> rfl
            | _ => rfl
        | _ => rfl
  | _ => rfl

theorem specialForm?_rename (head : Value) : specialForm? (head.rename ρ) = specialForm? head := by
  cases head <;> rfl

theorem expanderOf_rename (value : Value) :
    expanderOf (value.rename ρ) = renamed ρ (Value.rename ρ) (expanderOf value) := by
  cases value with
  | seq kind items => cases kind <;> rfl
  | procedure kind id parameters body env => rfl
  | _ => rfl

theorem extend_mirrors (env : Env) (parameters arguments : List Value) :
    Eval.Mirrors ρ (Env.rename ρ) (env.extend parameters arguments)
      ((env.rename ρ).extend (parameters.map (Value.rename ρ)) (arguments.map (Value.rename ρ))) :=
  (Eval.Mirrors.ofExcept (Binder.bind_rename ρ parameters arguments)).bind fun made =>
    .openScope env made

theorem enter_mirrors (parameters : List Value) (body : Value) (scope : Env)
    (arguments : List Value) :
    Eval.Mirrors ρ (Task.rename ρ) (enter parameters body scope arguments)
      (enter (parameters.map (Value.rename ρ)) (body.rename ρ) (scope.rename ρ)
        (arguments.map (Value.rename ρ))) :=
  (extend_mirrors scope parameters arguments).bind fun env => .pure (Task.evaluate body env)

theorem makeFunction_mirrors (env : Env) (parameters body : Value) :
    Eval.Mirrors ρ (Value.rename ρ) (makeFunction env parameters body)
      (makeFunction (env.rename ρ) (parameters.rename ρ) (body.rename ρ)) := by
  unfold makeFunction
  rw [Value.items?_rename, Value.type_rename]
  cases parameters.items? with
  | none => exact .fail _
  | some items =>
    -- What is refused is the first parameter that is no symbol, and it is so in both worlds.
    have found : (items.map (Value.rename ρ)).find? (fun item => item.symbol?.isNone) =
        (items.find? fun item => item.symbol?.isNone).map (Value.rename ρ) := by
      rw [List.find?_map]
      simp only [Function.comp_def, Value.symbol?_rename]
    simp only [Option.map_some, found]
    cases items.find? fun item => item.symbol?.isNone with
    | none => exact .newFunction items body env
    | some item =>
      simp only [Option.map_some, Value.type_rename]
      exact .fail _

namespace Mirrored

variable {self : Task → Eval Value} (mirrored : Mirrored ρ self)
include mirrored

theorem evaluate (form : Value) (env : Env) :
    Eval.Mirrors ρ (Value.rename ρ) (self (.evaluate form env))
      (self (.evaluate (form.rename ρ) (env.rename ρ))) :=
  mirrored (.evaluate form env)

theorem call (callee : Value) (arguments : List Value) (env : Env) :
    Eval.Mirrors ρ (Value.rename ρ) (self (.call callee arguments env))
      (self (.call (callee.rename ρ) (arguments.map (Value.rename ρ)) (env.rename ρ))) :=
  mirrored (.call callee arguments env)

theorem evaluateEach (env : Env) (forms : List Value) :
    Eval.Mirrors ρ (List.map (Value.rename ρ)) (evaluateEach self env forms)
      (evaluateEach self (env.rename ρ) (forms.map (Value.rename ρ))) := by
  refine Eval.Mirrors.mapM (fun form => ?_) forms
  exact mirrored.evaluate form env

theorem callEach (callee : Value) (env : Env) (values : List Value) :
    Eval.Mirrors ρ (List.map (Value.rename ρ)) (callEach self callee env values)
      (callEach self (callee.rename ρ) (env.rename ρ) (values.map (Value.rename ρ))) := by
  refine Eval.Mirrors.mapM (fun value => ?_) values
  exact mirrored.call callee [value] env

theorem swapAtom (atom callee : Value) (more : List Value) (env : Env) :
    Eval.Mirrors ρ (Value.rename ρ) (swapAtom self atom callee more env)
      (swapAtom self (atom.rename ρ) (callee.rename ρ) (more.map (Value.rename ρ))
        (env.rename ρ)) :=
  (Eval.Mirrors.ofExcept (Value.expectCell_rename ρ atom)).bind fun cell =>
    (Eval.Mirrors.readCell cell).bind fun current =>
      (mirrored.call callee (current :: more) env).bind fun updated =>
        (Eval.Mirrors.writeCell cell updated).bind fun _ => .pure updated

theorem applyTo (callee first : Value) (more : List Value) (env : Env) :
    Eval.Mirrors ρ (Value.rename ρ) (applyTo self callee first more env)
      (applyTo self (callee.rename ρ) (first.rename ρ) (more.map (Value.rename ρ))
        (env.rename ρ)) := by
  have last : ((first :: more).map (Value.rename ρ)).getLastD .nil =
      ((first :: more).getLastD .nil).rename ρ := by
    rw [List.getLastD_eq_getLast?, List.getLast?_map, List.getLastD_eq_getLast?]
    cases (first :: more).getLast? <;> rfl
  have spread := Value.expectItems_rename ρ ((first :: more).getLastD .nil)
  rw [← last] at spread
  refine (Eval.Mirrors.ofExcept spread).bind fun items => ?_
  have whole := mirrored.call callee ((first :: more).dropLast ++ items) env
  rwa [List.map_append, List.map_dropLast] at whole

theorem runControl (env : Env) (control : Control) (arguments : List Value) :
    Eval.Mirrors ρ (Value.rename ρ) (runControl self env control arguments)
      (runControl self (env.rename ρ) control (arguments.map (Value.rename ρ))) := by
  have refused : Eval.Mirrors ρ (Value.rename ρ)
      (Eval.fail (.wrongCount (.control control) arguments.length))
      (Eval.fail (.wrongCount (.control control) (arguments.map (Value.rename ρ)).length)) := by
    rw [List.length_map]
    exact .fail _
  match control, arguments with
  | .swap, [] | .swap, [_] | .apply, [] | .apply, [_] | .map, [] | .map, [_] | .eval, [] =>
    exact refused
  | .swap, atom :: callee :: more => exact mirrored.swapAtom atom callee more env
  | .apply, callee :: first :: more => exact mirrored.applyTo callee first more env
  | .map, [callee, sequence] =>
    refine (Eval.Mirrors.ofExcept (Value.expectItems_rename ρ sequence)).bind fun items => ?_
    exact (mirrored.callEach callee env items).bind fun results =>
      .pure_of_eq (Value.rename_seq ρ .list results).symm
  | .map, _ :: _ :: _ :: _ => exact refused
  | .eval, [form] =>
    -- The form is evaluated in the outermost scope, whichever scope the call is made in.
    rw [List.map_singleton, SmallLisp.runControl, SmallLisp.runControl, Env.root_rename]
    exact mirrored.evaluate form env.root
  | .eval, _ :: _ :: _ => exact refused

theorem runNative (env : Env) (f : Native) (arguments : List Value) :
    Eval.Mirrors ρ (Value.rename ρ) (runNative self env f arguments)
      (runNative self (env.rename ρ) f (arguments.map (Value.rename ρ))) := by
  unfold SmallLisp.runNative
  rw [List.length_map]
  split
  · cases f with
    | operation operation => exact .ofExcept (Operation.run_rename ρ operation arguments)
    | effect effect => exact effect.run_mirrors arguments
    | control control => exact mirrored.runControl env control arguments
  · exact .fail _

theorem performCall (env : Env) (callee : Value) (arguments : List Value) :
    Eval.Mirrors ρ (Progress.rename ρ) (performCall self env callee arguments)
      (performCall self (env.rename ρ) (callee.rename ρ) (arguments.map (Value.rename ρ))) := by
  -- The text of a value shows no frame, so what is no function is refused in the same words.
  have refused : Eval.Mirrors ρ (Progress.rename ρ)
      (do Eval.fail (.notFunction (← Eval.render .readable callee)))
      (do Eval.fail (.notFunction (← Eval.render .readable (callee.rename ρ)))) :=
    (Eval.Mirrors.render .readable callee).bind fun text => .fail (.notFunction text)
  cases callee with
  | native f =>
    exact (mirrored.runNative env f arguments).bind fun value => .pure (Progress.done value)
  | procedure kind id parameters body scope =>
    rw [Value.rename_procedure]
    exact (enter_mirrors parameters body scope arguments).bind fun task =>
      .pure (Progress.next task)
  | seq kind items =>
    rw [Value.rename_seq] at refused ⊢
    exact refused
  | map entries =>
    rw [Value.rename_map] at refused ⊢
    exact refused
  | _ => exact refused

theorem evaluateAllButLast (env : Env) (form : Value) (rest : List Value) :
    Eval.Mirrors ρ (Value.rename ρ) (evaluateAllButLast self env form rest)
      (evaluateAllButLast self (env.rename ρ) (form.rename ρ) (rest.map (Value.rename ρ))) := by
  induction rest generalizing form with
  | nil => exact .pure form
  | cons next rest ih => exact (mirrored.evaluate form env).bind fun _ => ih next

theorem bindEach (scope : Env) (items : List Value) :
    Eval.Mirrors ρ id (bindEach self scope items)
      (bindEach self (scope.rename ρ) (items.map (Value.rename ρ))) := by
  match items with
  | [] | [_] => exact .pure ()
  | name :: form :: rest =>
    rw [List.map_cons, List.map_cons, SmallLisp.bindEach, SmallLisp.bindEach,
      Value.symbol?_rename, Value.type_rename]
    cases name.symbol? with
    | some text =>
      exact (mirrored.evaluate form scope).bind fun value =>
        (Eval.Mirrors.define scope text value).bind fun _ => bindEach scope rest
    | none => exact .fail _

theorem evaluateBindings (env : Env) (bindings : Value) :
    Eval.Mirrors ρ (Env.rename ρ) (evaluateBindings self env bindings)
      (evaluateBindings self (env.rename ρ) (bindings.rename ρ)) := by
  unfold SmallLisp.evaluateBindings
  rw [Value.items?_rename, Value.type_rename]
  cases bindings.items? with
  | none => exact .fail _
  | some items =>
    simp only [Option.map_some, List.length_map]
    split
    · exact .fail _
    · exact (Eval.Mirrors.openScope env []).bind fun scope =>
        (mirrored.bindEach scope items).bind fun _ => .pure scope

theorem evaluateDefinition (env : Env) (name form : Value) :
    Eval.Mirrors ρ (Value.rename ρ) (evaluateDefinition self env name form)
      (evaluateDefinition self (env.rename ρ) (name.rename ρ) (form.rename ρ)) :=
  (Eval.Mirrors.ofExcept (Value.expectSymbol_rename ρ name)).bind fun text =>
    (mirrored.evaluate form env).bind fun value =>
      (Eval.Mirrors.define env text value).bind fun _ => .pure value

theorem evaluateExpanderDefinition (env : Env) (name form : Value) :
    Eval.Mirrors ρ (Value.rename ρ) (evaluateExpanderDefinition self env name form)
      (evaluateExpanderDefinition self (env.rename ρ) (name.rename ρ) (form.rename ρ)) :=
  (Eval.Mirrors.ofExcept (Value.expectSymbol_rename ρ name)).bind fun text =>
    (mirrored.evaluate form env).bind fun value =>
      (Eval.Mirrors.ofExcept (expanderOf_rename value)).bind fun expander =>
        (Eval.Mirrors.define env text expander).bind fun _ => .pure expander

theorem performSpecial (env : Env) (special : SpecialForm) (parts : List Value) :
    Eval.Mirrors ρ (Progress.rename ρ) (performSpecial self env special parts)
      (performSpecial self (env.rename ρ) special (parts.map (Value.rename ρ))) := by
  match special, parts with
  | .quote, [] | .quasiquote, [] | .sequence, [] | .expand, [] | .conditional, []
  | .conditional, [_] | .function, [] | .function, [_] | .define, [] | .define, [_]
  | .defineExpander, [] | .defineExpander, [_] | .bindings, [] | .bindings, [_] =>
    exact .fail (.missingPart _)
  | .quote, form :: _ => exact .pure (Progress.done form)
  | .quasiquote, template :: _ =>
    exact (Eval.Mirrors.ofExcept (Template.expand_rename ρ template)).bind fun form =>
      .pure (Progress.next (.evaluate form env))
  | .sequence, form :: rest =>
    exact (mirrored.evaluateAllButLast env form rest).bind fun last =>
      .pure (Progress.next (.evaluate last env))
  | .conditional, condition :: consequent :: rest =>
    refine (mirrored.evaluate condition env).bind fun value => ?_
    have otherwise : (rest.map (Value.rename ρ)).headD .nil = (rest.headD .nil).rename ρ := by
      cases rest <;> rfl
    -- The branch is chosen first and renamed then.
    rw [Value.countsAsTrue_rename, otherwise, ← apply_ite (Value.rename ρ)]
    exact .pure (Progress.next (.evaluate _ env))
  | .function, parameters :: body :: _ =>
    exact (makeFunction_mirrors env parameters body).bind fun value => .pure (Progress.done value)
  | .define, name :: form :: _ =>
    exact (mirrored.evaluateDefinition env name form).bind fun value => .pure (Progress.done value)
  | .defineExpander, name :: form :: _ =>
    exact (mirrored.evaluateExpanderDefinition env name form).bind fun value =>
      .pure (Progress.done value)
  | .expand, form :: _ => exact .pure (Progress.next (.expand form env))
  | .bindings, bindings :: body :: _ =>
    exact (mirrored.evaluateBindings env bindings).bind fun scope =>
      .pure (Progress.next (.evaluate body scope))

theorem evaluateEntries (env : Env) (made entries : Entries) :
    Eval.Mirrors ρ (Entries.rename ρ) (evaluateEntries self env made entries)
      (evaluateEntries self (env.rename ρ) (Entries.rename ρ made) (Entries.rename ρ entries)) := by
  induction entries generalizing made with
  | nil => exact .pure made
  | cons entry rest ih =>
    obtain ⟨key, form⟩ := entry
    refine (mirrored.evaluate form env).bind fun value => ?_
    rw [Entries.insert_rename]
    exact ih (Entries.insert made key value)

theorem performExpanded (env : Env) (form : Value) :
    Eval.Mirrors ρ (Progress.rename ρ) (performExpanded self env form)
      (performExpanded self (env.rename ρ) (form.rename ρ)) := by
  match form with
  | .list [] => exact .pure (Progress.done (.list []))
  | .list (head :: arguments) =>
    rw [Value.rename_seq, List.map_cons, SmallLisp.performExpanded, SmallLisp.performExpanded,
      specialForm?_rename]
    cases specialForm? head with
    | some special => exact mirrored.performSpecial env special arguments
    | none =>
      exact (mirrored.evaluate head env).bind fun callee =>
        (mirrored.evaluateEach env arguments).bind fun values =>
          .pure (Progress.next (.call callee values env))
  | .vector items =>
    rw [Value.rename_seq]
    exact (mirrored.evaluateEach env items).bind fun values =>
      .pure_of_eq (congrArg Progress.done (Value.rename_seq ρ .vector values).symm)
  | .map entries =>
    rw [Value.rename_map]
    exact (mirrored.evaluateEntries env [] entries).bind fun made =>
      .pure_of_eq (congrArg Progress.done (Value.rename_map ρ made).symm)
  | .symbol name =>
    exact (Eval.Mirrors.lookup env name).bind fun value => .pure (Progress.done value)
  | .nil | .bool _ | .number _ | .string _ | .keyword _ | .atom _ | .native _ | .procedure .. =>
    exact .pure (Progress.done _)

theorem expandOnce (expansion : Expansion) :
    Eval.Mirrors ρ (Value.rename ρ) (expandOnce self expansion)
      (expandOnce self (expansion.rename ρ)) :=
  (enter_mirrors expansion.parameters expansion.body expansion.scope expansion.arguments).bind
    fun task => mirrored task

/-- One task does not see the names of frames when the runs within it do not. -/
theorem perform (task : Task) :
    Eval.Mirrors ρ (Progress.rename ρ) (perform self task) (perform self (task.rename ρ)) := by
  cases task with
  | evaluate form env =>
    -- What is called is looked up before anything happens, so both worlds expand or neither does.
    refine .get_bind fun s t mirrors => ?_
    rw [mirrors.expansion? env form]
    cases expansion? s env form with
    | some expansion =>
      exact (mirrored.expandOnce expansion).bind fun form =>
        .pure (Progress.next (.evaluate form env))
    | none => exact mirrored.performExpanded env form
  | expand form env =>
    refine .get_bind fun s t mirrors => ?_
    rw [mirrors.expansion? env form]
    cases expansion? s env form with
    | some expansion =>
      exact (mirrored.expandOnce expansion).bind fun form =>
        .pure (Progress.next (.expand form env))
    | none => exact .pure (Progress.done form)
  | call callee arguments env => exact mirrored.performCall env callee arguments

end Mirrored

/-- Runs do not see the names of frames, however much fuel they have. -/
theorem mirrored_run (fuel : Nat) : Mirrored ρ (run fuel) := by
  induction fuel with
  | zero => exact fun _ _ _ mirrors => ⟨rfl, mirrors⟩
  | succ fuel ih =>
    intro task
    rw [run_succ, run_succ]
    -- The runs within a task and the task that it goes on as have less fuel.
    refine (ih.perform task).bind fun progress => ?_
    cases progress with
    | done value => exact .pure value
    | next task => exact ih task

end SmallLisp
