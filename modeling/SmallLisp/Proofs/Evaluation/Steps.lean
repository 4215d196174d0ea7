import SmallLisp.Proofs.Evaluation.Adequacy

/-!
# Runs, step by step

A run of a task takes one step and goes on with the run of the task that takes its place. What the
step comes to is said here for the forms and calls that other results are about, for any amount of
fuel. Where the fuel does not matter, a task is said to *finish*: it ends for a reason of its own,
and however much more fuel there is, it ends so.

## Main definitions

* `Store.Expands`: a name is bound to an expander
* `Task.Finishes`: how a task ends with enough fuel

## Main results

* `run_application`: what a call by name comes to
* `finishes_iff_ends`: a task finishes as the rules of evaluation say
* `finishes_congr`: a task finishes as the task that takes its place
* `ends_each_append_iff`: a row of tasks that has two parts is one part after the other
-/

open Filter (atTop tendsto_add_atTop_nat)

namespace SmallLisp

/-- A name is bound to an expander in a scope. -/
def Store.Expands (store : Store) (env : Env) (name : String) : Prop :=
  ∃ id parameters body scope,
    store.lookup? env name = some (.procedure .expander id parameters body scope)

section Run

variable {fuel : Nat} {task next : Task} {s t : Store} {env : Env} {value : Value} {halt : Halt}

theorem run_of_done (performs : perform (run fuel) task s = .ok (.done value) t) :
    run (fuel + 1) task s = .ok value t := by
  rw [run_succ, Eval.bind_of_ok performs]
  rfl

theorem run_of_next (performs : perform (run fuel) task s = .ok (.next next) t) :
    run (fuel + 1) task s = run fuel next t := by
  rw [run_succ, Eval.bind_of_ok performs]

theorem run_of_stop (performs : perform (run fuel) task s = .error halt t) :
    run (fuel + 1) task s = .error halt t := by
  rw [run_succ, Eval.bind_of_error performs]

theorem run_constant {form : Value} (isConstant : form.IsConstant) :
    run (fuel + 1) (.evaluate form env) s = .ok form s :=
  run_of_done (perform_constant isConstant)

theorem run_symbol {name : String} (bound : s.lookup? env name = some value) :
    run (fuel + 1) (.evaluate (.symbol name) env) s = .ok value s := by
  refine run_of_done ?_
  rw [perform_plain rfl, performExpanded, Eval.bind_of_ok (Eval.lookup_of_some bound)]
  rfl

/-- A task that is done with one computation ends as that does. -/
theorem run_eq_of_done {computation : Eval Value}
    (performs : perform (run fuel) task s = (Progress.done <$> computation) s) :
    run (fuel + 1) task s = computation s := by
  cases ends : computation s with
  | ok value t => exact run_of_done (performs.trans (Eval.map_eq_ok_iff.mpr ⟨value, ends, rfl⟩))
  | error halt t => exact run_of_stop (performs.trans (Eval.map_eq_error_iff.mpr ends))

theorem run_call_native {f : Native} {values : List Value} :
    run (fuel + 1) (.call (.native f) values env) s = runNative (run fuel) env f values s := by
  refine run_eq_of_done ?_
  rw [← bind_pure_comp]
  rfl

theorem expansion?_of_not_expands {name : String} (ordinary : ¬ s.Expands env name)
    (arguments : List Value) : expansion? s env (Form.call name arguments) = none := by
  rw [Option.eq_none_iff_forall_ne_some]
  intro expansion expands
  obtain ⟨other, id, same, isExpander⟩ := expansion?_eq_some_iff.mp expands
  cases same
  exact ordinary ⟨id, _, _, _, isExpander⟩

theorem expansion?_call {name : String} {arguments : List Value}
    (bound : s.lookup? env name = some value)
    (function : ∀ id parameters body scope, value ≠ .procedure .expander id parameters body scope) :
    expansion? s env (Form.call name arguments) = none := by
  refine expansion?_of_not_expands ?_ arguments
  rintro ⟨_, _, _, _, isExpander⟩
  exact function _ _ _ _ (Option.some.inj (bound.symm.trans isExpander))

/-- A call by name is made once the name and the arguments are evaluated. -/
theorem run_application {name : String} {arguments values : List Value}
    (bound : s.lookup? env name = some value) (ordinary : SpecialForm.ofKeyword? name = none)
    (function : ∀ id parameters body scope, value ≠ .procedure .expander id parameters body scope)
    (evaluates : evaluateEach (run (fuel + 1)) env arguments s = .ok values t) :
    run (fuel + 2) (.evaluate (Form.call name arguments) env) s =
      run (fuel + 1) (.call value values env) t := by
  have ordinary : specialForm? (.symbol name) = none := ordinary
  refine run_of_next ?_
  rw [perform_plain (expansion?_call bound function), Form.call, performExpanded, ordinary]
  simp only
  rw [Eval.bind_of_ok (run_symbol bound), Eval.bind_of_ok evaluates]
  rfl

theorem run_native_application {name : String} {f : Native} {arguments values : List Value}
    (bound : s.lookup? env name = some (.native f)) (ordinary : SpecialForm.ofKeyword? name = none)
    (evaluates : evaluateEach (run (fuel + 1)) env arguments s = .ok values t) :
    run (fuel + 2) (.evaluate (Form.call name arguments) env) s =
      runNative (run fuel) env f values t := by
  rw [run_application bound ordinary (by simp) evaluates, run_call_native]

theorem run_application_stops {name : String} {arguments : List Value}
    (bound : s.lookup? env name = some value) (ordinary : SpecialForm.ofKeyword? name = none)
    (function : ∀ id parameters body scope, value ≠ .procedure .expander id parameters body scope)
    (stops : evaluateEach (run (fuel + 1)) env arguments s = .error halt t) :
    run (fuel + 2) (.evaluate (Form.call name arguments) env) s = .error halt t := by
  have ordinary : specialForm? (.symbol name) = none := ordinary
  refine run_of_stop ?_
  rw [perform_plain (expansion?_call bound function), Form.call, performExpanded, ordinary]
  simp only
  rw [Eval.bind_of_ok (run_symbol bound), Eval.bind_of_error stops]

theorem evaluateEach_nil (self : Task → Eval Value) : evaluateEach self env [] s = .ok [] s := rfl

theorem evaluateEach_cons {self : Task → Eval Value} {form : Value} {rest values : List Value}
    {u : Store} (first : self (.evaluate form env) s = .ok value t)
    (others : evaluateEach self env rest t = .ok values u) :
    evaluateEach self env (form :: rest) s = .ok (value :: values) u := by
  rw [evaluateEach, List.mapM_cons, Eval.bind_of_ok first]
  exact Eval.bind_of_ok others

theorem evaluateEach_stops {self : Task → Eval Value} {form : Value} {rest : List Value}
    (stops : self (.evaluate form env) s = .error halt t) :
    evaluateEach self env (form :: rest) s = .error halt t := by
  rw [evaluateEach, List.mapM_cons, Eval.bind_of_error stops]

end Run

/-! ### Enough fuel -/

/-- How a task ends with enough fuel, begun in a store: not for lack of fuel. -/
def Task.Finishes (task : Task) (s : Store) (ending : Ending Value) : Prop :=
  ¬ Ending.IsExhausted ending ∧ ∃ fuel, run fuel task s = ending

section Finish

variable {fuel : Nat} {task other : Task} {s t : Store} {env : Env} {ending : Ending Value}

/-- A task finishes as the rules of evaluation say. -/
theorem finishes_iff_ends : task.Finishes s ending ↔ Ends (.task task) s ending := by
  constructor
  · rintro ⟨notExhausted, fuel, ends⟩
    obtain ⟨returns, stops⟩ := Eval.leads_iff.mp (run_follows fuel task s)
    cases ending with
    | ok value t => exact returns value t ends
    | error halt t =>
      refine (stops halt t ends).resolve_left ?_
      rintro rfl
      exact notExhausted trivial
  · intro h
    exact ⟨h.not_isExhausted, h.settles.exists⟩

theorem finishes_iff_eventually :
    task.Finishes s ending ↔
      ¬ Ending.IsExhausted ending ∧ ∀ᶠ fuel in atTop, run fuel task s = ending :=
  ⟨fun h => ⟨h.1, (finishes_iff_ends.mp h).settles⟩, fun h => ⟨h.1, h.2.exists⟩⟩

/-- A task finishes as the task that takes its place. -/
theorem finishes_congr (step : ∀ᶠ fuel in atTop, run (fuel + 1) task s = run fuel other t) :
    task.Finishes s ending ↔ other.Finishes t ending := by
  rw [finishes_iff_eventually, finishes_iff_eventually]
  refine and_congr_right fun _ => ⟨fun h => ?_, fun h => ?_⟩
  · refine (step.and ((tendsto_add_atTop_nat 1).eventually h)).mono fun fuel both => ?_
    exact both.1.symm.trans both.2
  · exact settles_of_succ ((step.and h).mono fun fuel both => both.1.trans both.2)

/-- A call of a native function finishes as the function's own run. -/
theorem finishes_native_iff {f : Native} {arguments : List Value} :
    (Task.call (.native f) arguments env).Finishes s ending ↔
      ¬ Ending.IsExhausted ending ∧ ∃ fuel, runNative (run fuel) env f arguments s = ending := by
  refine and_congr_right fun notExhausted => ⟨?_, ?_⟩
  · rintro ⟨_ | fuel, ends⟩
    · exact (notExhausted (ends ▸ trivial)).elim
    · exact ⟨fuel, run_call_native.symm.trans ends⟩
  · rintro ⟨fuel, ends⟩
    exact ⟨fuel + 1, run_call_native.trans ends⟩

theorem ends_each_of_evaluateEach {forms values : List Value}
    (evaluates : evaluateEach (run fuel) env forms s = .ok values t) :
    Ends (.each (forms.map (.evaluate · env))) s (.ok (.list values) t) := by
  have follows := evaluateEach_follows (run_follows fuel) env forms s
  rwa [Eval.leads_ok_iff evaluates] at follows

/-- Forms that are evaluated with some fuel are evaluated alike with more. -/
theorem eventually_evaluateEach {forms values : List Value}
    (evaluates : evaluateEach (run fuel) env forms s = .ok values t) :
    ∀ᶠ fuel in atTop, evaluateEach (run fuel) env forms s = .ok values t := by
  simp only [evaluateEach_eq]
  exact eventually_mapM_ok (ends_each_of_evaluateEach evaluates).settles

end Finish

/-! ### Rows of tasks -/

/-- A row of tasks that has two parts is one part after the other. -/
theorem ends_each_append_iff {first second : List Task} {s t : Store} {values : List Value} :
    Ends (.each (first ++ second)) s (.ok (.list values) t) ↔
      ∃ before after u, values = before ++ after ∧ Ends (.each first) s (.ok (.list before) u) ∧
        Ends (.each second) u (.ok (.list after) t) := by
  induction first generalizing s values with
  | nil =>
    constructor
    · intro h
      exact ⟨[], values, s, rfl, .each_nil, h⟩
    · rintro ⟨before, after, u, rfl, none, h⟩
      cases none
      exact h
  | cons task rest ih =>
    constructor
    · intro h
      cases h with
      | each_cons first others =>
        obtain ⟨before, after, u, rfl, earlier, later⟩ := ih.mp others
        exact ⟨_ :: before, after, u, rfl, .each_cons first earlier, later⟩
    · rintro ⟨before, after, u, rfl, earlier, later⟩
      cases earlier with
      | each_cons first others => exact .each_cons first (ih.mpr ⟨_, _, _, rfl, others, later⟩)

theorem length_eq_of_ends_each {tasks : List Task} {s t : Store} {values : List Value}
    (h : Ends (.each tasks) s (.ok (.list values) t)) : values.length = tasks.length := by
  induction tasks generalizing s values with
  | nil =>
    cases h
    rfl
  | cons task rest ih =>
    cases h with
    | each_cons first others => rw [List.length_cons, List.length_cons, ih others]

/-- A call of a native operation by name comes to what the operation computes. -/
theorem ends_call_operation {name : String} {operation : Operation} {arguments values : List Value}
    {env : Env} {s t : Store} {result : Value}
    (bound : s.lookup? env name = some (.native (.operation operation)))
    (ordinary : specialForm? (.symbol name) = none)
    (evaluates : Ends (.each (arguments.map (.evaluate · env))) s (.ok (.list values) t))
    (admitted : (Native.operation operation).arity.admits values.length)
    (computes : operation.run values = .ok result) :
    Ends (.evaluate (Form.call name arguments) env) s (.ok result t) :=
  .application (expansion?_call bound (by simp)) (specialForm?_eq_none_iff.mp ordinary)
    (.each_cons (.symbol bound) evaluates) (.operation admitted computes)

end SmallLisp
