import Mathlib.Order.Filter.AtTopBot.Basic
import SmallLisp.Proofs.Evaluation.Performing

/-!
# Runs and rules agree

Whatever the rules of evaluation say, every run with enough fuel does. Together with the fact
that runs follow the rules, a run that performs tasks in a loop, each replaced by the next, ends
exactly as plain recursion over forms says: with the same value or for the same reason, and with
the same store. How long a chain of replacements is makes no difference.

## Main definitions

* `Work.Settles`: how a work ends with enough fuel
* `Ending.IsExhausted`: whether the fuel was spent

## Main results

* `settles_of_stage`, `settles_of_value`: a task by the computation that its step begins with
* `settles_sequence`, `settles_conditional`, `settles_definition`, `settles_bindings`,
  `settles_swap`: what every run does with a special form and with a native function
* `Ends.settles`: what the rules say is what every run with enough fuel does
* `Ends.unique`: the rules say one thing at most
* `run_evaluate_iff_ends`: a form ends in a run as the rules say, and only so
-/

open Filter (atTop eventually_atTop tendsto_add_atTop_nat)

namespace SmallLisp

/-- Whether a computation stopped because its fuel was spent. -/
def Ending.IsExhausted {α : Type} : Ending α → Prop
  | .error .exhausted _ => True
  | _ => False

/-- How a work ends with enough fuel. -/
def Work.Settles (work : Work) (s : Store) (ending : Ending Value) : Prop :=
  ∀ᶠ fuel in atTop, work.via (run fuel) s = ending

/-! ### From one task to its run -/

section Run

variable {task next : Task} {s t : Store} {value : Value} {halt : Halt} {ending : Ending Value}

/-- A run has one unit of fuel more than the runs within it. -/
theorem settles_of_succ (h : ∀ᶠ fuel in atTop, run (fuel + 1) task s = ending) :
    (Work.task task).Settles s ending := by
  obtain ⟨least, enough⟩ := eventually_atTop.mp h
  refine eventually_atTop.mpr ⟨least + 1, fun fuel le => ?_⟩
  obtain ⟨fuel, rfl⟩ : ∃ n, fuel = n + 1 := ⟨fuel - 1, by omega⟩
  exact enough fuel (by omega)

theorem settles_of_done
    (h : ∀ᶠ fuel in atTop, perform (run fuel) task s = .ok (.done value) t) :
    (Work.task task).Settles s (.ok value t) := by
  refine settles_of_succ (h.mono fun fuel ends => ?_)
  rw [run_succ, Eval.bind_of_ok ends]
  rfl

theorem settles_of_next (h : ∀ᶠ fuel in atTop, perform (run fuel) task s = .ok (.next next) t)
    (settles : (Work.task next).Settles t ending) : (Work.task task).Settles s ending := by
  refine settles_of_succ ((h.and settles).mono fun fuel ⟨ends, goesOn⟩ => ?_)
  rw [run_succ, Eval.bind_of_ok ends]
  exact goesOn

/-- A task whose value is that of a computation ends as the computation does. -/
theorem settles_of_value (action : (Task → Eval Value) → Eval Value)
    (shape : ∀ self, perform self task s = (do return .done (← action self) : Eval Progress) s)
    (h : ∀ᶠ fuel in atTop, action (run fuel) s = ending) : (Work.task task).Settles s ending := by
  refine settles_of_succ (h.mono fun fuel ends => ?_)
  rw [run_succ]
  cases ending with
  | ok value after =>
    rw [Eval.bind_of_ok ((shape _).trans (Eval.bind_of_ok ends))]
    rfl
  | error halt after => rw [Eval.bind_of_error ((shape _).trans (Eval.bind_of_error ends))]

theorem settles_of_stop (h : ∀ᶠ fuel in atTop, perform (run fuel) task s = .error halt t) :
    (Work.task task).Settles s (.error halt t) := by
  refine settles_of_succ (h.mono fun fuel ends => ?_)
  rw [run_succ, Eval.bind_of_error ends]

/-- A task that is replaced once a computation has a result ends as its replacement does. -/
theorem settles_of_stage {α : Type} {action : (Task → Eval Value) → Eval α} {replace : α → Task}
    {result : α}
    (shape : ∀ self,
      perform self task s = (do return .next (replace (← action self)) : Eval Progress) s)
    (h : ∀ᶠ fuel in atTop, action (run fuel) s = .ok result t)
    (settles : (Work.task (replace result)).Settles t ending) : (Work.task task).Settles s ending :=
  settles_of_next (h.mono fun _ ends => (shape _).trans (Eval.bind_of_ok ends)) settles

/-- A task stops early where its first computation does. -/
theorem settles_of_stage_stops {α : Type} {action : (Task → Eval Value) → Eval α}
    {goesOn : (Task → Eval Value) → α → Eval Progress}
    (shape : ∀ self, perform self task s = (action self >>= goesOn self) s)
    (h : ∀ᶠ fuel in atTop, action (run fuel) s = .error halt t) :
    (Work.task task).Settles s (.error halt t) :=
  settles_of_stop (h.mono fun _ ends => (shape _).trans (Eval.bind_of_error ends))

end Run

/-! ### Rows of tasks, and expansion -/

section Parts

variable {tasks : List Task} {s t : Store} {values : List Value} {halt : Halt}

theorem eventually_mapM_ok (settles : (Work.each tasks).Settles s (.ok (.list values) t)) :
    ∀ᶠ fuel in atTop, tasks.mapM (run fuel) s = .ok values t :=
  settles.mono fun _ => via_each_eq_ok_iff.mp

theorem eventually_mapM_error (settles : (Work.each tasks).Settles s (.error halt t)) :
    ∀ᶠ fuel in atTop, tasks.mapM (run fuel) s = .error halt t :=
  settles.mono fun _ => via_each_eq_error_iff.mp

/-- Calling an expander and expanding a form by it come to the same. -/
theorem eventually_expandOnce {kind : ProcedureKind} {id : ProcedureId} {body : Value}
    {parameters arguments : List Value} {scope env : Env} {ending : Ending Value}
    (settles :
      (Work.call (.procedure kind id parameters body scope) arguments env).Settles s ending) :
    ∀ᶠ fuel in atTop, expandOnce (run fuel) ⟨parameters, body, scope, arguments⟩ s = ending := by
  refine ((tendsto_add_atTop_nat 1).eventually settles).mono fun fuel h => ?_
  rw [← h, Work.via, run_succ, perform, performCall, expandOnce, bind_assoc]
  rfl

end Parts

/-! ### Special forms -/

section SpecialForms

variable {special : SpecialForm} {accept : Value → Except Error Value} {env : Env} {s t : Store}
  {condition consequent template form parameters body bindings value : Value}
  {items more : List Value} {text : String} {halt : Halt} {ending : Ending Value}

theorem settles_quasiquote
    (plain : expansion? s env (SpecialForm.quasiquote.form (template :: more)) = none)
    (expands : Template.expand template = .ok form)
    (evaluates : (Work.evaluate form env).Settles s ending) :
    (Work.evaluate (SpecialForm.quasiquote.form (template :: more)) env).Settles s ending :=
  settles_of_stage (fun _ => perform_special plain)
    (.of_forall fun _ => Eval.ofExcept_of_ok expands) evaluates

theorem settles_quasiquote_fails {error : Error}
    (plain : expansion? s env (SpecialForm.quasiquote.form (template :: more)) = none)
    (fails : Template.expand template = .error error) :
    (Work.evaluate (SpecialForm.quasiquote.form (template :: more)) env).Settles s
      (.error (.failure error) s) :=
  settles_of_stage_stops (fun _ => perform_special plain)
    (.of_forall fun _ => Eval.ofExcept_of_error fails)

/-- The forms of a sequence but for the last are evaluated, and then the last one takes its
place. -/
theorem settles_sequence
    (plain : expansion? s env (SpecialForm.sequence.form (form :: more)) = none)
    (evaluates : (Work.body (form :: more) env).Settles s ending) :
    (Work.evaluate (SpecialForm.sequence.form (form :: more)) env).Settles s ending := by
  refine settles_of_succ (evaluates.mono fun fuel h => ?_)
  rw [run_succ, Eval.bind_congr_left (perform_special plain), performSpecial, bind_assoc]
  exact h

theorem settles_conditional
    (plain : expansion? s env
      (SpecialForm.conditional.form (condition :: consequent :: more)) = none)
    (decides : (Work.evaluate condition env).Settles s (.ok value t))
    (evaluates : (Work.evaluate
      (if value.countsAsTrue then consequent else more.headD .nil) env).Settles t ending) :
    (Work.evaluate (SpecialForm.conditional.form (condition :: consequent :: more)) env).Settles s
      ending :=
  settles_of_stage (fun _ => perform_special plain) decides evaluates

theorem settles_conditional_stops
    (plain : expansion? s env
      (SpecialForm.conditional.form (condition :: consequent :: more)) = none)
    (stops : (Work.evaluate condition env).Settles s (.error halt t)) :
    (Work.evaluate (SpecialForm.conditional.form (condition :: consequent :: more)) env).Settles s
      (.error halt t) :=
  settles_of_stage_stops (fun _ => perform_special plain) stops

/-- A function is made, or its parameters are refused. -/
theorem settles_function
    (plain : expansion? s env (SpecialForm.function.form (parameters :: body :: more)) = none)
    (makes : makeFunction env parameters body s = ending) :
    (Work.evaluate (SpecialForm.function.form (parameters :: body :: more)) env).Settles s ending :=
  settles_of_value _ (fun _ => perform_special plain) (.of_forall fun _ => makes)

section Definitions

variable {name : Value}
  (shape : ∀ self name form more, performSpecial self env special (name :: form :: more) =
    Progress.done <$> defineAs self accept env name form)
include shape

/-- A definition ends as its parts say, whichever of the two forms it is. -/
theorem settles_of_defineAs
    (plain : expansion? s env (special.form (name :: form :: more)) = none)
    (h : ∀ᶠ fuel in atTop, defineAs (run fuel) accept env name form s = ending) :
    (Work.evaluate (special.form (name :: form :: more)) env).Settles s ending := by
  refine settles_of_value (defineAs · accept env name form) (fun self => ?_) h
  rw [perform_special plain, shape, bind_pure_comp]

theorem settles_definition
    (plain : expansion? s env (special.form (.symbol text :: form :: more)) = none)
    (evaluates : (Work.evaluate form env).Settles s (.ok value t)) :
    (Work.evaluate (special.form (.symbol text :: form :: more)) env).Settles s
      (definitionEnding accept env text value t) :=
  settles_of_defineAs shape plain (evaluates.mono fun _ => defineAs_of_ok)

theorem settles_definition_stops
    (plain : expansion? s env (special.form (.symbol text :: form :: more)) = none)
    (stops : (Work.evaluate form env).Settles s (.error halt t)) :
    (Work.evaluate (special.form (.symbol text :: form :: more)) env).Settles s (.error halt t) :=
  settles_of_defineAs shape plain (stops.mono fun _ => defineAs_of_error)

theorem settles_definition_of_notSymbol
    (plain : expansion? s env (special.form (name :: form :: more)) = none)
    (notSymbol : name.symbol? = none) :
    (Work.evaluate (special.form (name :: form :: more)) env).Settles s
      (.error (.failure (.wrongType .symbol name.type)) s) :=
  settles_of_defineAs shape plain (.of_forall fun _ => defineAs_of_notSymbol notSymbol)

end Definitions

section Bindings

variable (plain : expansion? s env (SpecialForm.bindings.form (bindings :: body :: more)) = none)
include plain

theorem settles_bindings (isSeq : bindings.items? = some items) (paired : items.length % 2 = 0)
    (binds : (Work.bindings items (env.nest s.frames.size)).Settles (s.opened []) (.ok value t))
    (evaluates : (Work.evaluate body (env.nest s.frames.size)).Settles t ending) :
    (Work.evaluate (SpecialForm.bindings.form (bindings :: body :: more)) env).Settles s ending :=
  settles_of_stage (fun _ => perform_special plain)
    (binds.mono fun _ h => evaluateBindings_of_ok isSeq paired (bindEach_of_via_eq_ok h)) evaluates

theorem settles_bindings_stops (isSeq : bindings.items? = some items)
    (paired : items.length % 2 = 0)
    (stops : (Work.bindings items (env.nest s.frames.size)).Settles (s.opened []) (.error halt t)) :
    (Work.evaluate (SpecialForm.bindings.form (bindings :: body :: more)) env).Settles s
      (.error halt t) :=
  settles_of_stage_stops (fun _ => perform_special plain)
    (stops.mono fun _ h => evaluateBindings_of_error isSeq paired (bindEach_of_via_eq_error h))

/-- Bindings that are not well formed are refused before anything is evaluated. -/
theorem settles_bindings_fails
    (refuses : ∀ self, evaluateBindings self env bindings s = .error halt t) :
    (Work.evaluate (SpecialForm.bindings.form (bindings :: body :: more)) env).Settles s
      (.error halt t) :=
  settles_of_stage_stops (fun _ => perform_special plain) (.of_forall fun _ => refuses _)

end Bindings

end SpecialForms

/-! ### Calls of native functions -/

section Natives

variable {f : Native} {callee sequence value : Value} {arguments items leading more : List Value}
  {cell : CellId} {env : Env} {s t : Store} {halt : Halt} {ending : Ending Value}

theorem settles_of_native (h : ∀ᶠ fuel in atTop, runNative (run fuel) env f arguments s = ending) :
    (Work.call (.native f) arguments env).Settles s ending :=
  settles_of_value (runNative · env f arguments) (fun _ => rfl) h

/-- A function that calls no other one. -/
theorem settles_at_once (ends : ∀ self, runNative self env f arguments s = ending) :
    (Work.call (.native f) arguments env).Settles s ending :=
  settles_of_native (.of_forall fun _ => ends _)

theorem settles_swap
    (calls : (Work.call callee (s.contents cell :: more) env).Settles s (.ok value t)) :
    (Work.call (.native (.control .swap)) (.atom cell :: callee :: more) env).Settles s
      (.ok value (t.written cell value)) := by
  refine settles_of_native (calls.mono fun fuel h => ?_)
  rw [runNative_swap, swapAtom_of_ok h]

theorem settles_swap_stops
    (stops : (Work.call callee (s.contents cell :: more) env).Settles s (.error halt t)) :
    (Work.call (.native (.control .swap)) (.atom cell :: callee :: more) env).Settles s
      (.error halt t) := by
  refine settles_of_native (stops.mono fun fuel h => ?_)
  rw [runNative_swap, swapAtom_of_error h]

theorem settles_apply (spread : sequence.items? = some items)
    (calls : (Work.call callee (leading ++ items) env).Settles s ending) :
    (Work.call (.native (.control .apply)) (callee :: (leading ++ [sequence])) env).Settles s
      ending :=
  settles_of_native (calls.mono fun _ => (runNative_apply_of_items spread).trans)

theorem settles_map (isSeq : sequence.items? = some items)
    (calls : (Work.each (items.map fun item => .call callee [item] env)).Settles s ending) :
    (Work.call (.native (.control .map)) [callee, sequence] env).Settles s ending :=
  settles_of_native (calls.mono fun _ => (runNative_map_of_items isSeq).trans)

end Natives

/-- What the rules say is what every run with enough fuel does. -/
theorem Ends.settles {work : Work} {s : Store} {ending : Ending Value} (h : Ends work s ending) :
    work.Settles s ending := by
  induction h with
  -- The expansion is complete before the form that takes its place is evaluated.
  | expander bound _ _ expands evaluates =>
    exact settles_of_stage (fun _ => perform_expander bound _) (eventually_expandOnce expands)
      evaluates
  | expander_stops bound _ stops =>
    exact settles_of_stage_stops (fun _ => perform_expander bound _) (eventually_expandOnce stops)
  -- Forms that are no lists take one step.
  | constant isConstant => exact settles_of_done (.of_forall fun _ => perform_constant isConstant)
  | symbol bound =>
    exact settles_of_value _ (fun _ => perform_symbol _)
      (.of_forall fun _ => Eval.lookup_of_some bound)
  | unbound free =>
    exact settles_of_value _ (fun _ => perform_symbol _)
      (.of_forall fun _ => Eval.lookup_of_none free)
  | vector _ items =>
    exact settles_of_done ((eventually_mapM_ok items).mono fun _ h =>
      (perform_vector _).trans (Eval.bind_of_ok h))
  | vector_stops _ stops =>
    exact settles_of_stage_stops (fun _ => perform_vector _) (eventually_mapM_error stops)
  | map _ makes => exact settles_of_value _ (fun _ => perform_map _) makes
  -- Special forms take the step that their rule names.
  | missingPart plain tooFew =>
    exact settles_of_stop (.of_forall fun _ => perform_missingPart plain tooFew)
  | quote plain => exact settles_of_done (.of_forall fun _ => perform_special plain)
  | quasiquote plain expands _ evaluates => exact settles_quasiquote plain expands evaluates
  | quasiquote_fails plain fails => exact settles_quasiquote_fails plain fails
  | sequence plain _ evaluates => exact settles_sequence plain evaluates
  | conditional plain _ _ decides evaluates => exact settles_conditional plain decides evaluates
  | conditional_stops plain _ stops => exact settles_conditional_stops plain stops
  | function plain isSeq named =>
    exact settles_function plain (congrFun (makeFunction_eq _ isSeq named) _)
  | function_notSeq plain notSeq =>
    exact settles_function plain (congrFun (makeFunction_of_notSeq _ notSeq) _)
  | function_notSymbol plain isSeq before notSymbol =>
    exact settles_function plain (congrFun (makeFunction_of_notSymbol _ isSeq before notSymbol) _)
  | define plain _ evaluates => exact settles_definition performSpecial_define plain evaluates
  | define_stops plain _ stops => exact settles_definition_stops performSpecial_define plain stops
  | define_notSymbol plain notSymbol =>
    exact settles_definition_of_notSymbol performSpecial_define plain notSymbol
  | defineExpander plain _ evaluates =>
    exact settles_definition performSpecial_defineExpander plain evaluates
  | defineExpander_notProcedure plain _ notProcedure evaluates =>
    rw [← definitionEnding_of_refused (expanderOf_eq_error notProcedure)]
    exact settles_definition performSpecial_defineExpander plain evaluates
  | defineExpander_stops plain _ stops =>
    exact settles_definition_stops performSpecial_defineExpander plain stops
  | defineExpander_notSymbol plain notSymbol =>
    exact settles_definition_of_notSymbol performSpecial_defineExpander plain notSymbol
  | expand plain _ expands =>
    exact settles_of_next (.of_forall fun _ => perform_special plain) expands
  | bindings plain isSeq paired _ _ binds evaluates =>
    exact settles_bindings plain isSeq paired binds evaluates
  | bindings_stops plain isSeq paired _ stops =>
    exact settles_bindings_stops plain isSeq paired stops
  | bindings_notSeq plain notSeq =>
    exact settles_bindings_fails plain fun _ => evaluateBindings_of_notSeq notSeq
  | bindings_odd plain isSeq odd =>
    exact settles_bindings_fails plain fun _ => evaluateBindings_of_odd isSeq odd
  -- Other lists evaluate their items and leave the call to be done.
  | application plain ordinary _ _ items calls =>
    exact settles_of_stage (fun _ => perform_application plain ordinary) (eventually_mapM_ok items)
      calls
  | application_stops plain ordinary _ stops =>
    exact settles_of_stage_stops (fun _ => perform_application plain ordinary)
      (eventually_mapM_error stops)
  -- Expansion goes from form to form.
  | expandOn bound _ _ expands goesOn =>
    exact settles_of_stage (fun _ => perform_expand bound _) (eventually_expandOnce expands) goesOn
  | expandOn_stops bound _ stops =>
    exact settles_of_stage_stops (fun _ => perform_expand bound _) (eventually_expandOnce stops)
  | expanded plain => exact settles_of_done (.of_forall fun _ => perform_expand_plain plain)
  -- Native functions are done in one step, however much they call in turn.
  | wrongCount refused =>
    exact settles_at_once fun _ => congrFun (runNative_of_refused refused) _
  | operation admitted computes =>
    exact settles_at_once fun _ => runNative_operation_of_ok admitted computes
  | operation_fails admitted fails =>
    exact settles_at_once fun _ => runNative_operation_of_error admitted fails
  | effect admitted => exact settles_at_once fun _ => congrFun (runNative_effect admitted) _
  | swap _ calls => exact settles_swap calls
  | swap_stops _ stops => exact settles_swap_stops stops
  | swap_notAtom notAtom => exact settles_at_once fun _ => runNative_swap_of_notAtom notAtom
  | apply spread _ calls => exact settles_apply spread calls
  | apply_notSeq notSeq => exact settles_at_once fun _ => runNative_apply_of_notSeq notSeq
  | mapping isSeq _ calls => exact settles_map isSeq calls
  | mapping_notSeq notSeq => exact settles_at_once fun _ => runNative_map_of_notSeq notSeq
  | eval _ evaluates => exact settles_of_native evaluates
  -- Procedures leave their body to be done.
  | procedure binds _ evaluates =>
    exact settles_of_next (.of_forall fun _ => Eval.bind_of_ok (enter_of_ok binds _ _)) evaluates
  | procedure_fails fails =>
    exact settles_of_stop (.of_forall fun _ => Eval.bind_of_error (enter_of_error fails _ _))
  | notFunction notNative notProcedure =>
    exact settles_of_stop (.of_forall fun _ => performCall_of_notFunction notNative notProcedure)
  -- Works of several parts: there is fuel that is enough for all of them.
  | each_nil | entries_nil | bindings_nil => exact .of_forall fun _ => rfl
  | each_cons _ _ first others => exact (first.and others).mono fun _ h => via_each_cons h.1 h.2
  | each_first_stops _ stops => exact stops.mono fun _ => via_each_first_stops
  | each_rest_stops _ _ first stops =>
    exact (first.and stops).mono fun _ h => via_each_rest_stops h.1 h.2
  | body_last _ evaluates => exact evaluates
  | body_next _ _ first others => exact (first.and others).mono fun _ h => via_body_next h.1 h.2
  | body_stops _ stops => exact stops.mono fun _ => via_body_stops
  | entries_cons _ _ first others =>
    exact (first.and others).mono fun _ h => via_entries_cons h.1 h.2
  | entries_stops _ stops => exact stops.mono fun _ => via_entries_stops
  | bindings_cons _ _ first others =>
    exact (first.and others).mono fun _ h => via_bindings_cons h.1 h.2
  | bindings_form_stops _ stops => exact stops.mono fun _ => via_bindings_form_stops
  | bindings_notSymbol notSymbol =>
    exact .of_forall fun _ => via_bindings_of_notSymbol notSymbol

/-- The rules say one thing at most about how a work ends. -/
theorem Ends.unique {work : Work} {s : Store} {ending other : Ending Value}
    (h : Ends work s ending) (h' : Ends work s other) : ending = other := by
  obtain ⟨fuel, ends, ends'⟩ := (h.settles.and h'.settles).exists
  exact ends.symm.trans ends'

/-! ### Fuel is not the business of the rules -/

theorem failure_ne_exhausted (error : Error) : Halt.failure error ≠ .exhausted := by
  intro same
  cases same

theorem readFile_needs_no_fuel (path : String) (s : Store) :
    (Eval.readFile path).Leads s (fun _ _ => True) fun halt _ => halt ≠ .exhausted := by
  rw [Eval.readFile, Eval.leads_bind, Eval.leads_get]
  split
  · trivial
  · exact failure_ne_exhausted _
  · intro same
    cases same

theorem effect_needs_no_fuel (effect : Effect) (arguments : List Value) (s : Store) :
    (effect.run arguments).Leads s (fun _ _ => True) fun halt _ => halt ≠ .exhausted := by
  by_cases admitted : effect.signature.arity.admits arguments.length = true
  case neg =>
    rw [effect.run_eq_wrongCount_of_arity arguments (by simpa using admitted)]
    exact failure_ne_exhausted _
  cases effect with
  | atom =>
    obtain ⟨value, rfl⟩ := Arity.exists_of_exactly_one admitted
    trivial
  | deref =>
    obtain ⟨value, rfl⟩ := Arity.exists_of_exactly_one admitted
    rw [Effect.run, Eval.leads_bind, Value.expectCell, Eval.leads_expect]
    exact ⟨fun _ _ => trivial, fun _ => failure_ne_exhausted _⟩
  | reset =>
    obtain ⟨atom, value, rfl⟩ := Arity.exists_of_exactly_two admitted
    rw [Effect.run, Effect.resetTo, Eval.leads_bind, Value.expectCell, Eval.leads_expect]
    exact ⟨fun _ _ => trivial, fun _ => failure_ne_exhausted _⟩
  | str | prStr | println | prn => trivial
  | slurp =>
    obtain ⟨value, rfl⟩ := Arity.exists_of_exactly_one admitted
    rw [Effect.run, Eval.leads_bind, Value.expectString, Eval.leads_expect]
    refine ⟨fun path _ => ?_, fun _ => failure_ne_exhausted _⟩
    rw [Eval.leads_bind]
    exact (readFile_needs_no_fuel path s).mono (fun _ _ _ => trivial) fun _ _ h => h

theorem not_isExhausted_of_leads {action : Eval Value} {s : Store}
    (h : action.Leads s (fun _ _ => True) fun halt _ => halt ≠ .exhausted) :
    ¬ Ending.IsExhausted (action s) := by
  unfold Eval.Leads at h
  cases ends : action s with
  | ok value after => exact id
  | error halt after =>
    rw [ends] at h
    cases halt with
    | exhausted => exact absurd rfl h
    | failure error => exact id
    | awaiting path => exact id

/-- No rule makes a work stop for lack of fuel. -/
theorem Ends.not_isExhausted {work : Work} {s : Store} {ending : Ending Value}
    (h : Ends work s ending) : ¬ Ending.IsExhausted ending := by
  induction h with
  | effect => exact not_isExhausted_of_leads (effect_needs_no_fuel _ _ _)
  -- A rule either says itself how the work ends, or hands on an end of one of its parts.
  | _ => first | assumption | exact id

/-- **Runs and rules agree.** A form, evaluated in a scope and a store, ends in a run with enough
fuel exactly as the rules of evaluation say: with the same value, or for the same reason, and with
the same store. -/
theorem run_evaluate_iff_ends (form : Value) (env : Env) (store : Store) (ending : Ending Value) :
    (¬ Ending.IsExhausted ending ∧ ∃ fuel, run fuel (.evaluate form env) store = ending) ↔
      Ends (.evaluate form env) store ending := by
  constructor
  · rintro ⟨notExhausted, fuel, ends⟩
    obtain ⟨returns, stops⟩ := Eval.leads_iff.mp (run_follows fuel (.evaluate form env) store)
    cases ending with
    | ok value after => exact returns value after ends
    | error halt after =>
      rcases stops halt after ends with rfl | h
      · exact absurd trivial notExhausted
      · exact h
  · intro h
    obtain ⟨fuel, ends⟩ := h.settles.exists
    exact ⟨h.not_isExhausted, fuel, ends⟩

end SmallLisp
