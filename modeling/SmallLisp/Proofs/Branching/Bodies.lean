import SmallLisp.Proofs.Branching.Sources
import SmallLisp.Proofs.Evaluation.Expansion
import SmallLisp.Proofs.Parameters.Binding
import SmallLisp.Proofs.Scope.Changes

/-!
# How the expanders of the prelude are called

A call of an expander of the prelude opens one frame, which holds the operands, and evaluates the
body there. The body has no effect, and what it comes to is worked out from the operands alone. So
the call is evaluated as the form that the body gives, with one frame more.

## Main definitions

* `Store.given`, `Store.bodyScope`: the world in which the body is evaluated
* `Store.Gives`: a form is evaluated to a value without an effect

## Main results

* `Store.Gives.computed`: what an operation gives, given what its arguments do
* `Store.Serves.finishes_iff`: a call is evaluated as the form that the body gives
-/

namespace SmallLisp

namespace Store

/-- The store in which the body of an expander is evaluated that takes all operands in one list. -/
def given (store : Store) (operands : List Value) : Store :=
  store.opened [(Idiom.operandsName, .list operands)]

@[simp] theorem size_frames_given (store : Store) (operands : List Value) :
    (store.given operands).frames.size = store.frames.size + 1 :=
  Array.size_push _

/-- The scope in which the body of an expander of the prelude is evaluated. -/
def bodyScope (store : Store) : Env := TopLevel.root.nest store.frames.size

variable {s : Store} {env : Env} {name : String}

/-- A form is evaluated to a value without an effect. -/
def Gives (store : Store) (env : Env) (form value : Value) : Prop :=
  Ends (.evaluate form env) store (.ok value store)

namespace Gives

variable {forms values : List Value} {form result value : Value}

theorem constant (isConstant : form.IsConstant) : s.Gives env form form :=
  Ends.constant isConstant

theorem symbol (bound : s.lookup? env name = some value) : s.Gives env (.symbol name) value :=
  Ends.symbol bound

theorem quote (plain : ¬ s.Expands env "quote") (form : Value) :
    s.Gives env (SpecialForm.quote.form [form]) form :=
  Ends.quote (expansion?_of_not_expands plain _)

theorem each (gives : List.Forall₂ (s.Gives env) forms values) :
    Ends (.each (forms.map (.evaluate · env))) s (.ok (.list values) s) := by
  induction gives with
  | nil => exact .each_nil
  | cons first _ ih => exact .each_cons first ih

theorem specialForm?_name (operation : Operation) :
    specialForm? (.symbol (Native.operation operation).name) = none := by
  cases operation <;> decide

section Operations

variable {operation : Operation}
  (bound : s.lookup? env (Native.operation operation).name = some (.native (.operation operation)))
include bound

/-- A call of an operation gives what the operation computes. -/
theorem computed (gives : List.Forall₂ (s.Gives env) forms values)
    (computes : operation.run values = .ok result) : s.Gives env (operation.form forms) result := by
  refine ends_call_operation bound (specialForm?_name operation) (each gives) ?_ computes
  -- An operation that computes something has been given as many arguments as it admits.
  cases admitted : (Native.operation operation).arity.admits values.length with
  | true => rfl
  | false =>
    rw [operation.run_eq_wrongCount_of_arity values admitted] at computes
    cases computes

/-- A call of an operation fails as the operation does. -/
theorem ends_of_fails {error : Error} (gives : List.Forall₂ (s.Gives env) forms values)
    (fails : operation.run values = .error error) :
    Ends (.evaluate (operation.form forms) env) s (.error (.failure error) s) := by
  have ordinary := specialForm?_eq_none_iff.mp (specialForm?_name operation)
  apply Ends.application (expansion?_call bound (by simp)) ordinary
    (.each_cons (.symbol bound) (each gives))
  cases admitted : (Native.operation operation).arity.admits values.length with
  | true => exact .operation_fails admitted fails
  | false =>
    rw [operation.run_eq_wrongCount_of_arity values admitted] at fails
    cases fails
    exact .wrongCount admitted

/-- A call of an operation stops early where one of its arguments does. -/
theorem ends_of_stops {halt : Halt} {t : Store}
    (stops : Ends (.each (forms.map (.evaluate · env))) s (.error halt t)) :
    Ends (.evaluate (operation.form forms) env) s (.error halt t) := by
  have ordinary := specialForm?_eq_none_iff.mp (specialForm?_name operation)
  exact .application_stops (expansion?_call bound (by simp)) ordinary
    (.each_rest_stops (.symbol bound) stops)

end Operations

section Conditional

variable {condition consequent : Value} {more : List Value} {ending : Ending Value}

theorem ends_of_true (decides : s.Gives env condition value) (plain : ¬ s.Expands env "if")
    (isTrue : value.countsAsTrue = true) (ends : Ends (.evaluate consequent env) s ending) :
    Ends (.evaluate (SpecialForm.conditional.form (condition :: consequent :: more)) env) s
      ending := by
  apply Ends.conditional (expansion?_of_not_expands plain _) decides
  rwa [if_pos isTrue]

theorem ends_of_false (decides : s.Gives env condition value) (plain : ¬ s.Expands env "if")
    (isFalse : value.countsAsTrue = false)
    (ends : Ends (.evaluate (more.headD .nil) env) s ending) :
    Ends (.evaluate (SpecialForm.conditional.form (condition :: consequent :: more)) env) s
      ending := by
  apply Ends.conditional (expansion?_of_not_expands plain _) decides
  rwa [if_neg (by simp [isFalse])]

end Conditional

end Gives

/-! ### The body of an expander -/

/-- In the body of an expander the operands are found under their name. -/
theorem gives_operands (s : Store) (operands : List Value) :
    (s.given operands).Gives s.bodyScope Prelude.operands (.list operands) := by
  apply Gives.symbol
  rw [given, bodyScope, lookup?_nest_opened, Bindings.find?_cons, if_pos rfl, Option.some_or]

namespace Serves

variable {idiom : Idiom} {operands : List Value} {form : Value} {ending : Ending Value}

theorem holds_root (serves : s.Serves idiom env) : s.Holds TopLevel.root := by
  obtain ⟨id, bound⟩ := serves.expander
  intro frame mem
  rw [List.mem_singleton.mp mem]
  exact size_pos_of_lookup? bound

theorem lookup?_of_ne (serves : s.Serves idiom env) (operands : List Value)
    (other : name ≠ Idiom.operandsName) :
    (s.given operands).lookup? s.bodyScope name = s.lookup? TopLevel.root name := by
  rw [given, bodyScope, lookup?_nest_opened, Bindings.find?_cons, if_neg other, Bindings.find?_nil,
    Option.none_or, serves.holds_root.lookup?_opened]

/-- In the body an operation is found under its name. -/
theorem lookup?_operation (serves : s.Serves idiom env) (operands : List Value)
    (operation : Operation) (mem : operation ∈ idiom.natives) :
    (s.given operands).lookup? s.bodyScope (Native.operation operation).name =
      some (.native (.operation operation)) := by
  have other : (Native.operation operation).name ≠ Idiom.operandsName := by
    cases operation <;> decide
  rw [serves.lookup?_of_ne operands other]
  exact serves.natives operation mem

theorem gives_operation {operation : Operation} {forms values : List Value} {result : Value}
    (serves : s.Serves idiom env) (mem : operation ∈ idiom.natives)
    (gives : List.Forall₂ ((s.given operands).Gives s.bodyScope) forms values)
    (computes : operation.run values = .ok result) :
    (s.given operands).Gives s.bodyScope (operation.form forms) result :=
  .computed (serves.lookup?_operation operands _ mem) gives computes

/-- In the body no special form is an expander. -/
theorem not_expands_inside (serves : s.Serves idiom env) (operands : List Value)
    (special : SpecialForm) (mem : special ∈ Idiom.specials) :
    ¬ (s.given operands).Expands s.bodyScope special.keyword := by
  have other : special.keyword ≠ Idiom.operandsName := by
    cases special <;> decide
  rw [Expands, serves.lookup?_of_ne operands other]
  exact serves.inside special mem

/-- A step of the expansion of a call is the body of the expander, given the operands. -/
theorem expandsOnce_iff (serves : s.Serves idiom env) :
    ExpandsOnce env (idiom.call operands) s ending ↔
      (Task.evaluate idiom.body s.bodyScope).Finishes (s.given operands) ending := by
  obtain ⟨id, bound⟩ := serves.expander
  have binds : Binder.bind idiom.definition.parameters operands =
      .ok [(Idiom.operandsName, .list operands)] := rfl
  constructor
  · intro h
    cases h with
    | body bound' binds' evaluates =>
      cases bound.symm.trans bound'
      cases binds.symm.trans binds'
      exact evaluates
    | unbindable bound' fails =>
      cases bound.symm.trans bound'
      cases binds.symm.trans fails
  · intro evaluates
    exact .body bound binds evaluates

/-- A call is evaluated by evaluating the body, and then the form that the body gives. -/
theorem finishes_iff (serves : s.Serves idiom env) :
    (Task.evaluate (idiom.call operands) env).Finishes s ending ↔
      Sequel ((Task.evaluate idiom.body s.bodyScope).Finishes (s.given operands))
        (fun form t => (Task.evaluate form env).Finishes t) ending := by
  have ⟨_, bound⟩ := serves.expander
  obtain ⟨expansion, called⟩ := expansion?_of_expands ⟨_, _, _, _, bound⟩ operands
  rw [Idiom.call, Form.call, (expanding_evaluate called).finishes_iff called]
  exact Sequel.congr (fun ending => serves.expandsOnce_iff) fun _ _ _ _ => Iff.rfl

/-- A call is evaluated as the form that the body gives, with one frame more. -/
theorem finishes_of_gives (serves : s.Serves idiom env)
    (gives : (s.given operands).Gives s.bodyScope idiom.body form) :
    (Task.evaluate (idiom.call operands) env).Finishes s ending ↔
      (Task.evaluate form env).Finishes (s.given operands) ending := by
  rw [serves.finishes_iff]
  exact Sequel.iff_of_returns gives

/-- A call whose body stops early stops so. -/
theorem finishes_of_stops {halt : Halt} {t : Store} (serves : s.Serves idiom env)
    (stops : Ends (.evaluate idiom.body s.bodyScope) (s.given operands) (.error halt t)) :
    (Task.evaluate (idiom.call operands) env).Finishes s ending ↔ ending = .error halt t := by
  rw [serves.finishes_iff]
  exact Sequel.iff_of_stops stops

/-- A new frame that the scope does not see changes nothing for the expander. -/
theorem opened (serves : s.Serves idiom env) (holds : s.Holds env) (made : Bindings) :
    (s.opened made).Serves idiom env where
  expander := by
    rw [holds.lookup?_opened]
    exact serves.expander
  natives operation mem := by
    rw [serves.holds_root.lookup?_opened]
    exact serves.natives operation mem
  here special mem := by
    rw [holds.expands_opened_iff]
    exact serves.here special mem
  inside special mem := by
    rw [serves.holds_root.expands_opened_iff]
    exact serves.inside special mem

end Serves

end Store

end SmallLisp
