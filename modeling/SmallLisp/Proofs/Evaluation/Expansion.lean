import SmallLisp.Proofs.Evaluation.Sequel

/-!
# Expanding a form

A form is evaluated in a loop that expands it by one step at a time, and an expander may print,
change atoms and define other expanders on the way. Expanding the form to the end first and
evaluating what comes out is the same: the loop looks at the same forms in the same stores, and at
the end of the expansion there is no expander left that it could call.

One step of an expansion is the body of an expander, evaluated in a fresh scope inside the
expander's own with the parameters bound to the arguments as they are written. The scope of the
caller serves to find the expander and for nothing else.

## Main definitions

* `ExpandsOnce`: how one step of an expansion ends

## Main results

* `expand_induction`: induction on the steps of an expansion
* `evaluate_iff_expand`: evaluating a form is expanding it and evaluating what comes out
-/

open Filter (atTop)

namespace SmallLisp

/-- How one step of an expansion ends. Nothing but the expander is looked up in the scope of the
caller. -/
inductive ExpandsOnce (env : Env) : Value → Store → Ending Value → Prop
  | body {name id parameters body scope arguments s bindings ending}
      (bound : s.lookup? env name = some (.procedure .expander id parameters body scope))
      (binds : Binder.bind parameters arguments = .ok bindings)
      (evaluates : (Task.evaluate body (scope.nest s.frames.size)).Finishes (s.opened bindings)
        ending) :
      ExpandsOnce env (.list (.symbol name :: arguments)) s ending
  | unbindable {name id parameters body scope arguments s error}
      (bound : s.lookup? env name = some (.procedure .expander id parameters body scope))
      (fails : Binder.bind parameters arguments = .error error) :
      ExpandsOnce env (.list (.symbol name :: arguments)) s (.error (.failure error) s)

section Step

variable {fuel : Nat} {form expanded : Value} {expansion : Expansion} {env : Env} {s t : Store}
  {halt : Halt} {ending : Ending Value} {again : Value → Task}

theorem ExpandsOnce.called (h : ExpandsOnce env form s ending) :
    ∃ expansion, expansion? s env form = some expansion := by
  cases h with
  | body bound | unbindable bound =>
    exact ⟨⟨_, _, _, _⟩, expansion?_eq_some_iff.mpr ⟨_, _, rfl, bound⟩⟩

theorem expansion?_of_expands {name : String} (expands : s.Expands env name)
    (arguments : List Value) :
    ∃ expansion, expansion? s env (.list (.symbol name :: arguments)) = some expansion := by
  obtain ⟨id, parameters, body, scope, bound⟩ := expands
  exact ⟨⟨parameters, body, scope, arguments⟩, expansion?_eq_some_iff.mpr ⟨name, id, rfl, bound⟩⟩

/-- Scopes in which the head of a form is the same are alike to a step of its expansion. -/
theorem expandsOnce_congr {there : Env} {name : String} {arguments : List Value}
    (same : s.lookup? there name = s.lookup? env name) :
    ExpandsOnce there (.list (.symbol name :: arguments)) s ending ↔
      ExpandsOnce env (.list (.symbol name :: arguments)) s ending := by
  constructor
  · intro h
    cases h with
    | body bound binds evaluates => exact .body (same ▸ bound) binds evaluates
    | unbindable bound fails => exact .unbindable (same ▸ bound) fails
  · intro h
    cases h with
    | body bound binds evaluates => exact .body (same.trans bound) binds evaluates
    | unbindable bound fails => exact .unbindable (same.trans bound) fails

theorem expandOnce_of_bind {self : Task → Eval Value} {bindings : Bindings}
    (binds : Binder.bind expansion.parameters expansion.arguments = .ok bindings) :
    expandOnce self expansion s =
      self (.evaluate expansion.body (expansion.scope.nest s.frames.size)) (s.opened bindings) :=
  Eval.bind_of_ok (enter_of_ok binds _ _)

theorem expandOnce_of_unbindable {self : Task → Eval Value} {error : Error}
    (fails : Binder.bind expansion.parameters expansion.arguments = .error error) :
    expandOnce self expansion s = .error (.failure error) s :=
  Eval.bind_of_error (enter_of_error fails _ _)

/-- A run makes the step that the rules allow. -/
theorem expandsOnce_of_run (called : expansion? s env form = some expansion)
    (notExhausted : ¬ Ending.IsExhausted ending)
    (ends : expandOnce (run fuel) expansion s = ending) : ExpandsOnce env form s ending := by
  obtain ⟨name, id, rfl, bound⟩ := expansion?_eq_some_iff.mp called
  cases binds : Binder.bind expansion.parameters expansion.arguments with
  | error error =>
    rw [expandOnce_of_unbindable binds] at ends
    subst ends
    exact .unbindable bound binds
  | ok bindings =>
    rw [expandOnce_of_bind binds] at ends
    exact .body bound binds ⟨notExhausted, fuel, ends⟩

/-- A run with enough fuel makes the step that the rules allow. -/
theorem ExpandsOnce.eventually (called : expansion? s env form = some expansion)
    (h : ExpandsOnce env form s ending) :
    ¬ Ending.IsExhausted ending ∧ ∀ᶠ fuel in atTop, expandOnce (run fuel) expansion s = ending := by
  obtain ⟨name, id, rfl, bound⟩ := expansion?_eq_some_iff.mp called
  cases h with
  | body bound' binds evaluates =>
    cases bound.symm.trans bound'
    obtain ⟨notExhausted, evaluates⟩ := finishes_iff_eventually.mp evaluates
    refine ⟨notExhausted, evaluates.mono fun fuel ends => ?_⟩
    exact (expandOnce_of_bind binds).trans ends
  | unbindable bound' fails =>
    cases bound.symm.trans bound'
    exact ⟨not_false, .of_forall fun fuel => expandOnce_of_unbindable fails⟩

/-- A task is done for a form by expanding the form by one step and doing the same again. -/
def Expanding (again : Value → Task) (form : Value) (s : Store) (expansion : Expansion) : Prop :=
  ∀ self, perform self (again form) s =
    (do return .next (again (← expandOnce self expansion)) : Eval Progress) s

theorem expanding_evaluate (called : expansion? s env form = some expansion) :
    Expanding (.evaluate · env) form s expansion := by
  intro self
  rw [perform, Eval.bind_of_ok (Eval.get_eq s), called]

theorem expanding_expand (called : expansion? s env form = some expansion) :
    Expanding (.expand · env) form s expansion := by
  intro self
  rw [perform, Eval.bind_of_ok (Eval.get_eq s), called]

namespace Expanding

theorem run_of_ok (expanding : Expanding again form s expansion)
    (expands : expandOnce (run fuel) expansion s = .ok expanded t) :
    run (fuel + 1) (again form) s = run fuel (again expanded) t := by
  refine run_of_next ?_
  rw [expanding, Eval.bind_of_ok expands]
  rfl

theorem run_of_error (expanding : Expanding again form s expansion)
    (stops : expandOnce (run fuel) expansion s = .error halt t) :
    run (fuel + 1) (again form) s = .error halt t := by
  refine run_of_stop ?_
  rw [expanding, Eval.bind_of_error stops]

/-- A run is one step of the expansion and the run for what comes out. -/
theorem sequel_of_run (expanding : Expanding again form s expansion)
    (called : expansion? s env form = some expansion) (notExhausted : ¬ Ending.IsExhausted ending)
    (ends : run (fuel + 1) (again form) s = ending) :
    Sequel (ExpandsOnce env form s) (fun form t ending => run fuel (again form) t = ending)
      ending := by
  cases step : expandOnce (run fuel) expansion s with
  | ok expanded t =>
    rw [expanding.run_of_ok step] at ends
    exact .goesOn (expandsOnce_of_run called not_false step) ends
  | error halt t =>
    rw [expanding.run_of_error step] at ends
    subst ends
    exact .stops (expandsOnce_of_run called notExhausted step)

/-- The task finishes as one step of the expansion and the task for what comes out. -/
theorem finishes_iff (expanding : Expanding again form s expansion)
    (called : expansion? s env form = some expansion) :
    (again form).Finishes s ending ↔
      Sequel (ExpandsOnce env form s) (fun form t => (again form).Finishes t) ending := by
  constructor
  · rintro ⟨notExhausted, _ | fuel, ends⟩
    · exact absurd (ends ▸ trivial) notExhausted
    refine (expanding.sequel_of_run called notExhausted ends).imp (fun _ expands => expands) ?_
    intro form t _ goesOn
    exact ⟨notExhausted, fuel, goesOn⟩
  · intro h
    cases h with
    | goesOn expands goesOn =>
      -- The step and what follows it get the same fuel in a run, so both need enough of it.
      obtain ⟨_, expands⟩ := expands.eventually called
      obtain ⟨notExhausted, goesOn⟩ := finishes_iff_eventually.mp goesOn
      obtain ⟨fuel, expands, goesOn⟩ := (expands.and goesOn).exists
      exact ⟨notExhausted, fuel + 1, (expanding.run_of_ok expands).trans goesOn⟩
    | stops stops =>
      obtain ⟨notExhausted, stops⟩ := stops.eventually called
      obtain ⟨fuel, stops⟩ := stops.exists
      exact ⟨notExhausted, fuel + 1, expanding.run_of_error stops⟩

end Expanding

/-- A form that calls no expander is its own expansion. -/
theorem run_expand_of_plain (plain : expansion? s env form = none) (fuel : Nat) :
    run (fuel + 1) (.expand form env) s = .ok form s := by
  refine run_of_done ?_
  rw [perform, Eval.bind_of_ok (Eval.get_eq s), plain]
  rfl

end Step

/-! ### Whole expansions -/

/-- Induction on the steps of an expansion. -/
theorem expand_induction {env : Env} {motive : Value → Store → Ending Value → Prop}
    (goesOn : ∀ form s expanded t ending, ExpandsOnce env form s (.ok expanded t) →
      motive expanded t ending → motive form s ending)
    (stops : ∀ form s halt t, ExpandsOnce env form s (.error halt t) →
      motive form s (.error halt t))
    (plain : ∀ form s, expansion? s env form = none → motive form s (.ok form s))
    {form : Value} {s : Store} {ending : Ending Value}
    (h : (Task.expand form env).Finishes s ending) : motive form s ending := by
  -- Each step takes fuel, so the induction is on the fuel, for all forms and stores.
  obtain ⟨notExhausted, fuel, ends⟩ := h
  induction fuel generalizing form s with
  | zero => exact absurd (ends ▸ trivial) notExhausted
  | succ fuel ih =>
    cases called : expansion? s env form with
    | none =>
      rw [run_expand_of_plain called] at ends
      subst ends
      exact plain form s called
    | some expansion =>
      cases (expanding_expand called).sequel_of_run called notExhausted ends with
      | goesOn expands ends => exact goesOn _ _ _ _ _ expands (ih ends)
      | stops halts => exact stops _ _ _ _ halts

section Whole

variable {form expanded : Value} {env : Env} {s t : Store} {ending : Ending Value}

/-- At the end of an expansion there is nothing left to expand. -/
theorem expansion?_of_finishes_expand (h : (Task.expand form env).Finishes s (.ok expanded t)) :
    expansion? t env expanded = none := by
  refine expand_induction (motive := fun _ _ ending => ∀ expanded t, ending = .ok expanded t →
    expansion? t env expanded = none) ?_ ?_ ?_ h expanded t rfl
  · intro form s next u ending _ ih
    exact ih
  · intro form s halt u _ expanded t same
    cases same
  · intro form s plain expanded t same
    cases same
    exact plain

/-- Whatever an expansion comes to, the form may be evaluated by evaluating that. -/
theorem finishes_evaluate_of_expand {expansion : Ending Value}
    (h : (Task.expand form env).Finishes s expansion)
    (evaluates : Sequel (· = expansion) (fun form t => (Task.evaluate form env).Finishes t)
      ending) :
    (Task.evaluate form env).Finishes s ending := by
  refine expand_induction (motive := fun form s expansion =>
    Sequel (· = expansion) (fun form t => (Task.evaluate form env).Finishes t) ending →
      (Task.evaluate form env).Finishes s ending) ?_ ?_ ?_ h evaluates
  · intro form s next u expansion expands ih evaluates
    obtain ⟨_, called⟩ := expands.called
    exact ((expanding_evaluate called).finishes_iff called).mpr (.goesOn expands (ih evaluates))
  · intro form s halt u halts evaluates
    obtain ⟨_, called⟩ := halts.called
    rw [Sequel.error_iff] at evaluates
    subst evaluates
    exact ((expanding_evaluate called).finishes_iff called).mpr (.stops halts)
  · intro form s plain evaluates
    exact Sequel.ok_iff.mp evaluates

/-- A form is not evaluated before it is expanded to the end. -/
theorem sequel_of_finishes_evaluate (h : (Task.evaluate form env).Finishes s ending) :
    Sequel ((Task.expand form env).Finishes s)
      (fun expanded t => (Task.evaluate expanded env).Finishes t) ending := by
  obtain ⟨notExhausted, fuel, ends⟩ := h
  induction fuel generalizing form s with
  | zero => exact absurd (ends ▸ trivial) notExhausted
  | succ fuel ih =>
    cases called : expansion? s env form with
    | none =>
      refine .goesOn ?_ ⟨notExhausted, fuel + 1, ends⟩
      exact ⟨not_false, 1, run_expand_of_plain called 0⟩
    | some expansion =>
      -- What the form expands to is what the form after one step expands to.
      have expandsOn (result : Ending Value) :
          Sequel (ExpandsOnce env form s) (fun form t => (Task.expand form env).Finishes t) result →
            (Task.expand form env).Finishes s result :=
        ((expanding_expand called).finishes_iff called).mpr
      cases (expanding_evaluate called).sequel_of_run called notExhausted ends with
      | goesOn expands ends =>
        cases ih ends with
        | goesOn finishes evaluates =>
          exact .goesOn (expandsOn _ (.goesOn expands finishes)) evaluates
        | stops finishes => exact .stops (expandsOn _ (.goesOn expands finishes))
      | stops halts => exact .stops (expandsOn _ (.stops halts))

end Whole

/-- **Evaluating a form is expanding it and evaluating what comes out.** The two end alike, with the
same store and so with the same output, or neither ends. An expansion that is complete is its own
expansion. One step evaluates the body of the expander, with the parameters bound to the arguments
as they are written, in a fresh scope inside the expander's own, so it is the same from all scopes
in which the head of the form is the same; and a form that calls no expander is its own
expansion. -/
theorem evaluate_iff_expand (form : Value) (env : Env) (s : Store) :
    (∀ ending, (Task.evaluate form env).Finishes s ending ↔
      Sequel ((Task.expand form env).Finishes s)
        (fun expanded t => (Task.evaluate expanded env).Finishes t) ending) ∧
    (∀ expanded t, (Task.expand form env).Finishes s (.ok expanded t) →
      ∀ fuel, run (fuel + 1) (.expand expanded env) t = .ok expanded t) ∧
    (∀ name arguments, form = .list (.symbol name :: arguments) → s.Expands env name →
      ∀ ending, (Task.expand form env).Finishes s ending ↔
        Sequel (ExpandsOnce env form s) (fun expanded t => (Task.expand expanded env).Finishes t)
          ending) ∧
    (∀ name arguments there, form = .list (.symbol name :: arguments) →
      s.lookup? there name = s.lookup? env name →
      ∀ ending, ExpandsOnce there form s ending ↔ ExpandsOnce env form s ending) ∧
    ((∀ name arguments, form = .list (.symbol name :: arguments) → ¬ s.Expands env name) →
      ∀ fuel, run (fuel + 1) (.expand form env) s = .ok form s) := by
  refine ⟨fun ending => ⟨sequel_of_finishes_evaluate, ?_⟩, ?_, ?_, ?_, ?_⟩
  · intro h
    cases h with
    | goesOn expands evaluates => exact finishes_evaluate_of_expand expands (.goesOn rfl evaluates)
    | stops halts => exact finishes_evaluate_of_expand halts (.stops rfl)
  · intro expanded t expands
    exact run_expand_of_plain (expansion?_of_finishes_expand expands)
  · rintro name arguments rfl expands ending
    obtain ⟨expansion, called⟩ := expansion?_of_expands expands arguments
    exact (expanding_expand called).finishes_iff called
  · rintro name arguments there rfl same ending
    exact expandsOnce_congr same
  · intro ordinary
    refine run_expand_of_plain (Option.eq_none_iff_forall_ne_some.mpr fun expansion called => ?_)
    obtain ⟨name, id, rfl, bound⟩ := expansion?_eq_some_iff.mp called
    exact ordinary name _ rfl ⟨id, _, _, _, bound⟩

/-- An expander that stands for its argument, called for a call of itself: the expansion takes two
steps, and the arguments are not evaluated on the way. -/
theorem evaluate_iff_expand_nested :
    let root := TopLevel.root
    let expander := Value.procedure .expander 0 [.symbol "x"] (.symbol "x") root
    let s := (Store.initial fun _ => none).opened [("m", expander)]
    let once := Form.call "m" [.vector [.symbol "m"]]
    let t := s.opened [("x", once)]
    let u := t.opened [("x", .vector [.symbol "m"])]
    s.Expands root "m" ∧
      Sequel (ExpandsOnce root (Form.call "m" [once]) s)
        (fun expanded t => (Task.expand expanded root).Finishes t)
        (.ok (.vector [.symbol "m"]) u) ∧
      (∀ ending, ExpandsOnce (root.nest 0) (Form.call "m" [once]) s ending ↔
        ExpandsOnce root (Form.call "m" [once]) s ending) ∧
      (Task.evaluate (Form.call "m" [once]) root).Finishes s (.ok (.vector [expander]) u) ∧
      run 1 (.expand (.vector [.symbol "m"]) root) u = .ok (.vector [.symbol "m"]) u ∧
      run 1 (.expand (.symbol "m") root) s = .ok (.symbol "m") s := by
  intro root expander s once t u
  have expands : s.Expands root "m" := ⟨0, _, _, root, by rfl⟩
  have finishes : (Task.expand (Form.call "m" [once]) root).Finishes s
      (.ok (.vector [.symbol "m"]) u) := ⟨not_false, 3, by rfl⟩
  have evaluates : (Task.evaluate (.vector [.symbol "m"]) root).Finishes u
      (.ok (.vector [expander]) u) := ⟨not_false, 2, by rfl⟩
  obtain ⟨same, again, step, anywhere, _⟩ := evaluate_iff_expand (Form.call "m" [once]) root s
  obtain ⟨_, _, _, _, plain⟩ := evaluate_iff_expand (.symbol "m") root s
  refine ⟨expands, (step "m" _ rfl expands _).mp finishes, anywhere "m" _ (root.nest 0) rfl rfl,
    (same _).mpr (.goesOn finishes evaluates), again _ u finishes 0, plain ?_ 0⟩
  intro name arguments isList
  cases isList

end SmallLisp
