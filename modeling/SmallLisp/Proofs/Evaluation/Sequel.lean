import SmallLisp.Proofs.Evaluation.Steps

/-!
# One evaluation after another

Much of what is evaluated is one evaluation and, unless that stops early, another one that depends
on its value and begins in the store that it leaves. How the two end together is said of any two
such computations, and then of the special forms that evaluate one of their parts first.

## Main definitions

* `Sequel`: how two computations end, one after the other

## Main results

* `finishes_iff_sequel`, `finishes_iff_sequel_done`: a task that performs another one first
* `finishes_conditional_iff`: a condition, and one of two forms
* `finishes_letForm_iff`, `finishes_bindings_iff`: names, or one name, bound in a scope for a body
-/

namespace SmallLisp

/-- How one computation after another ends: the second is begun with the value and the store of the
first, unless the first stops early. -/
inductive Sequel (first : Ending Value → Prop) (second : Value → Store → Ending Value → Prop) :
    Ending Value → Prop
  | goesOn {value t ending} (returns : first (.ok value t)) (ends : second value t ending) :
      Sequel first second ending
  | stops {halt t} (stops : first (.error halt t)) : Sequel first second (.error halt t)

namespace Sequel

variable {first first' : Ending Value → Prop} {second second' : Value → Store → Ending Value → Prop}
  {ending : Ending Value}

theorem imp (h : Sequel first second ending) (ofFirst : ∀ ending, first ending → first' ending)
    (ofSecond : ∀ value t, first (.ok value t) → second value t ending → second' value t ending) :
    Sequel first' second' ending := by
  cases h with
  | goesOn returns ends => exact .goesOn (ofFirst _ returns) (ofSecond _ _ returns ends)
  | stops stops => exact .stops (ofFirst _ stops)

theorem congr (sameFirst : ∀ ending, first ending ↔ first' ending)
    (sameSecond : ∀ value t ending, first (.ok value t) →
      (second value t ending ↔ second' value t ending)) :
    Sequel first second ending ↔ Sequel first' second' ending := by
  constructor
  · intro h
    refine h.imp (fun ending => (sameFirst ending).mp) fun value t returns => ?_
    exact (sameSecond value t ending returns).mp
  · intro h
    refine h.imp (fun ending => (sameFirst ending).mpr) fun value t returns => ?_
    exact (sameSecond value t ending ((sameFirst _).mpr returns)).mpr

/-- What comes after a computation that returns. -/
theorem ok_iff {value : Value} {t : Store} :
    Sequel (· = .ok value t) second ending ↔ second value t ending := by
  constructor
  · intro h
    cases h with
    | goesOn returns ends =>
      cases returns
      exact ends
    | stops stops => cases stops
  · exact .goesOn rfl

/-- Nothing comes after a computation that stops. -/
theorem error_iff {halt : Halt} {t : Store} :
    Sequel (· = .error halt t) second ending ↔ ending = .error halt t := by
  constructor
  · intro h
    cases h with
    | goesOn returns => cases returns
    | stops stops => exact stops
  · rintro rfl
    exact .stops rfl

end Sequel

section Tasks

variable {task first : Task} {s s' : Store} {env : Env} {ending result : Ending Value}

/-- How a task finishes whose end is known. -/
theorem finishes_iff_eq (ends : Ends (.task task) s result) :
    task.Finishes s ending ↔ ending = result := by
  rw [finishes_iff_ends]
  constructor
  · intro h
    exact h.unique ends
  · rintro rfl
    exact ends

theorem finishes_constant_iff {form : Value} (isConstant : form.IsConstant) :
    (Task.evaluate form env).Finishes s ending ↔ ending = .ok form s :=
  finishes_iff_eq (.constant isConstant)

namespace Sequel

variable {second : Value → Store → Ending Value → Prop} {t : Store}

/-- What comes after a task that is known to return. -/
theorem iff_of_returns {value : Value} (ends : Ends (.task task) s (.ok value t)) :
    Sequel (task.Finishes s) second ending ↔ second value t ending := by
  rw [congr (fun ending => finishes_iff_eq ends) fun _ _ _ _ => Iff.rfl]
  exact ok_iff

/-- Nothing comes after a task that is known to stop. -/
theorem iff_of_stops {halt : Halt} (ends : Ends (.task task) s (.error halt t)) :
    Sequel (task.Finishes s) second ending ↔ ending = .error halt t := by
  rw [congr (fun ending => finishes_iff_eq ends) fun _ _ _ _ => Iff.rfl]
  exact error_iff

end Sequel

/-- A task that comes to the same with any fuel. -/
theorem finishes_iff_of_run (settled : ¬ Ending.IsExhausted result)
    (runs : ∀ fuel, run (fuel + 1) task s = result) :
    task.Finishes s ending ↔ ending = result := by
  constructor
  · rintro ⟨notExhausted, _ | fuel, ends⟩
    · exact absurd (ends ▸ trivial) notExhausted
    · exact ends.symm.trans (runs fuel)
  · rintro rfl
    exact ⟨settled, 1, runs 0⟩

/-- A task that performs another one first, and then goes on with a third. -/
theorem finishes_iff_sequel (next : Value → Task) (becomes : Value → Store → Store)
    (goesOn : ∀ fuel value t, run fuel first s' = .ok value t →
      run (fuel + 1) task s = run fuel (next value) (becomes value t))
    (stops : ∀ fuel halt t, run fuel first s' = .error halt t →
      run (fuel + 1) task s = .error halt t) :
    task.Finishes s ending ↔
      Sequel (first.Finishes s') (fun value t => (next value).Finishes (becomes value t))
        ending := by
  constructor
  · rintro ⟨notExhausted, _ | fuel, ends⟩
    · exact absurd (ends ▸ trivial) notExhausted
    cases begins : run fuel first s' with
    | ok value t =>
      rw [goesOn fuel value t begins] at ends
      exact .goesOn ⟨not_false, fuel, begins⟩ ⟨notExhausted, fuel, ends⟩
    | error halt t =>
      rw [stops fuel halt t begins] at ends
      subst ends
      exact .stops ⟨notExhausted, fuel, begins⟩
  · intro h
    cases h with
    | goesOn returns ends =>
      -- Both have to end with the same fuel.
      obtain ⟨_, returns⟩ := finishes_iff_eventually.mp returns
      obtain ⟨notExhausted, ends⟩ := finishes_iff_eventually.mp ends
      obtain ⟨fuel, returns, ends⟩ := (returns.and ends).exists
      exact ⟨notExhausted, fuel + 1, (goesOn fuel _ _ returns).trans ends⟩
    | stops halts =>
      obtain ⟨notExhausted, fuel, ends⟩ := halts
      exact ⟨notExhausted, fuel + 1, stops fuel _ _ ends⟩

/-- A task that performs another one first, and then is done. -/
theorem finishes_iff_sequel_done (after : Value → Store → Ending Value)
    (settled : ∀ value t, ¬ Ending.IsExhausted (after value t))
    (goesOn : ∀ fuel value t, run fuel first s' = .ok value t →
      run (fuel + 1) task s = after value t)
    (stops : ∀ fuel halt t, run fuel first s' = .error halt t →
      run (fuel + 1) task s = .error halt t) :
    task.Finishes s ending ↔
      Sequel (first.Finishes s') (fun value t ending => ending = after value t) ending := by
  constructor
  · rintro ⟨notExhausted, _ | fuel, ends⟩
    · exact absurd (ends ▸ trivial) notExhausted
    cases begins : run fuel first s' with
    | ok value t =>
      exact .goesOn ⟨not_false, fuel, begins⟩ (ends.symm.trans (goesOn fuel value t begins))
    | error halt t =>
      obtain rfl := ends.symm.trans (stops fuel halt t begins)
      exact .stops ⟨notExhausted, fuel, begins⟩
  · intro h
    cases h with
    | goesOn returns ends =>
      obtain ⟨_, fuel, returns⟩ := returns
      subst ends
      exact ⟨settled _ _, fuel + 1, goesOn fuel _ _ returns⟩
    | stops halts =>
      obtain ⟨notExhausted, fuel, halts⟩ := halts
      exact ⟨notExhausted, fuel + 1, stops fuel _ _ halts⟩

/-- A condition is evaluated, and then one of two forms. -/
theorem finishes_conditional_iff {condition consequent : Value} {more : List Value}
    (plain : ¬ s.Expands env "if") :
    (Task.evaluate (SpecialForm.conditional.form (condition :: consequent :: more)) env).Finishes s
        ending ↔
      Sequel ((Task.evaluate condition env).Finishes s)
        (fun value t => (Task.evaluate
          (if value.countsAsTrue then consequent else more.headD .nil) env).Finishes t) ending := by
  have plain := expansion?_of_not_expands plain (condition :: consequent :: more)
  apply finishes_iff_sequel (fun value =>
    .evaluate (if value.countsAsTrue then consequent else more.headD .nil) env) fun _ t => t
  · intro fuel value t decides
    apply run_of_next
    rw [perform_special plain, performSpecial, Eval.bind_of_ok decides]
    rfl
  · intro fuel halt t decides
    apply run_of_stop
    rw [perform_special plain, performSpecial, Eval.bind_of_error decides]

/-- The names are bound in a new scope, and then the body is evaluated in it. -/
theorem finishes_letForm_iff {bindings body : Value} {items more : List Value}
    (plain : ¬ s.Expands env "let*") (isSeq : bindings.items? = some items)
    (paired : items.length % 2 = 0) :
    (Task.evaluate (SpecialForm.bindings.form (bindings :: body :: more)) env).Finishes s ending ↔
      Sequel (Ends (.bindings items (env.nest s.frames.size)) (s.opened []))
        (fun _ t => (Task.evaluate body (env.nest s.frames.size)).Finishes t) ending := by
  have plain : expansion? s env (SpecialForm.bindings.form (bindings :: body :: more)) = none :=
    expansion?_of_not_expands plain _
  constructor
  · rintro ⟨notExhausted, _ | fuel, ends⟩
    · exact absurd (ends ▸ trivial) notExhausted
    have performs : perform (run fuel) _ s = _ := perform_special plain
    rw [performSpecial] at performs
    have follows := bindEach_follows (run_follows fuel) (env.nest s.frames.size) items paired
      (s.opened [])
    cases binds : bindEach (run fuel) (env.nest s.frames.size) items (s.opened []) with
    | ok _ t =>
      rw [Eval.leads_ok_iff binds] at follows
      have goesOn := performs.trans
        (Eval.bind_of_ok (evaluateBindings_of_ok isSeq paired binds))
      rw [run_of_next goesOn] at ends
      exact .goesOn follows ⟨notExhausted, fuel, ends⟩
    | error halt t =>
      rw [Eval.leads_error_iff binds] at follows
      have stops := performs.trans
        (Eval.bind_of_error (evaluateBindings_of_error isSeq paired binds))
      rw [run_of_stop stops] at ends
      subst ends
      refine .stops (follows.resolve_left ?_)
      rintro rfl
      exact notExhausted trivial
  · intro h
    rw [finishes_iff_ends]
    cases h with
    | goesOn binds evaluates =>
      exact .bindings plain isSeq paired binds (finishes_iff_ends.mp evaluates)
    | stops stops => exact .bindings_stops plain isSeq paired stops

/-- A form is evaluated in a new scope, and its value bound there for another one. -/
theorem finishes_bindings_iff {name : String} {form body : Value} (plain : ¬ s.Expands env "let*") :
    (Task.evaluate (SpecialForm.bindings.form [.list [.symbol name, form], body]) env).Finishes s
        ending ↔
      Sequel ((Task.evaluate form (env.nest s.frames.size)).Finishes (s.opened []))
        (fun value t => (Task.evaluate body (env.nest s.frames.size)).Finishes
          (t.defined (env.nest s.frames.size).frame name value)) ending := by
  have paired : [Value.symbol name, form].length % 2 = 0 := by simp
  rw [finishes_letForm_iff plain rfl paired]
  constructor
  · intro h
    cases h with
    | goesOn binds evaluates =>
      cases binds with
      | bindings_cons first others =>
        cases others
        exact .goesOn (finishes_iff_ends.mpr first) evaluates
    | stops stops =>
      cases stops with
      | bindings_cons _ others => cases others
      | bindings_form_stops stops => exact .stops (finishes_iff_ends.mpr stops)
      | bindings_notSymbol notSymbol => cases notSymbol
  · intro h
    cases h with
    | goesOn returns evaluates =>
      exact .goesOn (.bindings_cons (finishes_iff_ends.mp returns) .bindings_nil) evaluates
    | stops stops => exact .stops (.bindings_form_stops (finishes_iff_ends.mp stops))

end Tasks

end SmallLisp
