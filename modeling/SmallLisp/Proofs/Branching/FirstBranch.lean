import SmallLisp.Proofs.Branching.Bodies
import SmallLisp.Proofs.Number.Count

/-!
# Branching on the first true condition

A call with conditions and forms behind them is evaluated clause by clause. Each step of the
expansion takes the first clause into a condition of two branches, the second of which is a call for
the clauses that remain, and that is expanded only if the condition turns out false. So an induction
on the clauses says what any call comes to: the conditions are evaluated one after the other where
the call is made, until one is true, and the form behind that one is all that is evaluated
besides.

## Main definitions

* `Passes`: conditions that have turned out false
* `BranchEnds`: how a call ends at the clauses that are left

## Main results

* `finishes_branch_iff`: how a call ends, for any number of clauses
-/

namespace SmallLisp

open Store (Gives)

/-- Clauses are passed whose conditions, evaluated one after the other, turn out false. Each step
leaves a frame behind that holds the clauses. -/
inductive Passes (env : Env) : List Value → Store → List Value → Store → Prop
  | none {forms s} : Passes env forms s forms s
  | next {condition consequent more s value t rest u}
      (evaluates : (Task.evaluate condition env).Finishes
        (s.given (condition :: consequent :: more)) (.ok value t))
      (isFalse : value.countsAsTrue = false) (later : Passes env more t rest u) :
      Passes env (condition :: consequent :: more) s rest u

/-- How a call ends at the clauses that are left: there are none, there is a condition with nothing
behind it, the first condition is true, or it stops early. -/
inductive BranchEnds (env : Env) : List Value → Store → Ending Value → Prop
  | none {s} : BranchEnds env [] s (.ok .nil (s.given []))
  | odd {condition s} : BranchEnds env [condition] s
      (.error (.failure (.thrown (.string Prelude.oddForms))) (s.given [condition]))
  | taken {condition consequent more s value t ending}
      (evaluates : (Task.evaluate condition env).Finishes
        (s.given (condition :: consequent :: more)) (.ok value t))
      (isTrue : value.countsAsTrue = true)
      (branch : (Task.evaluate consequent env).Finishes t ending) :
      BranchEnds env (condition :: consequent :: more) s ending
  | stops {condition consequent more s halt t}
      (stops : (Task.evaluate condition env).Finishes
        (s.given (condition :: consequent :: more)) (.error halt t)) :
      BranchEnds env (condition :: consequent :: more) s (.error halt t)

section Body

variable {s : Store} {env : Env} {forms more : List Value} {condition consequent : Value}
  {ending : Ending Value}

/-- The number of clauses is counted in the body. -/
theorem Store.Serves.gives_count {idiom : Idiom} (serves : s.Serves idiom env)
    (mem : .count ∈ idiom.natives) (forms : List Value) :
    (s.given forms).Gives s.bodyScope (Operation.form .count [Prelude.operands])
      (Operation.countValue forms.length) :=
  serves.gives_operation mem (.cons (s.gives_operands forms) .nil) rfl

theorem Store.Serves.gives_greater {result : Value} {least : Nat}
    (serves : s.Serves Prelude.branch env) (forms : List Value)
    (compares : Operation.run .greater
      [Operation.countValue forms.length, Operation.countValue least] = .ok result) :
    (s.given forms).Gives s.bodyScope (Operation.form .greater
      [Operation.form .count [Prelude.operands], Operation.countValue least]) result := by
  apply serves.gives_operation (by decide) _ compares
  exact .cons (serves.gives_count (by decide) forms) (.cons (.constant trivial) .nil)

/-- Without clauses a call stands for `nil`. -/
theorem finishes_branch_nil (serves : s.Serves Prelude.branch env) :
    (Task.evaluate (Prelude.branch.call []) env).Finishes s ending ↔
      ending = .ok .nil (s.given []) := by
  have ordinary := serves.not_expands_inside [] .conditional (by decide)
  have none := serves.gives_greater [] (Operation.run_greater_zero 0)
  have gives : (s.given []).Gives s.bodyScope Prelude.branch.body .nil :=
    none.ends_of_false ordinary rfl (.constant trivial)
  rw [serves.finishes_of_gives gives]
  exact finishes_constant_iff trivial

/-- A condition with nothing behind it is complained of, and not evaluated. -/
theorem finishes_branch_odd (serves : s.Serves Prelude.branch env) :
    (Task.evaluate (Prelude.branch.call [condition]) env).Finishes s ending ↔
      ending = .error (.failure (.thrown (.string Prelude.oddForms))) (s.given [condition]) := by
  have ordinary := serves.not_expands_inside [condition] .conditional (by decide)
  have quotes := serves.not_expands_inside [condition] .quote (by decide)
  have some := serves.gives_greater [condition] (Operation.run_greater_zero 1)
  have notMore := serves.gives_greater [condition] (Operation.run_greater_one 1)
  have first : (s.given [condition]).Gives s.bodyScope
      (Operation.form .first [Prelude.operands]) condition :=
    serves.gives_operation (by decide) (.cons (s.gives_operands _) .nil) rfl
  -- The second branch of the form that is built is worked out by what throws.
  have throws : Ends (.evaluate (Operation.form .throw [.string Prelude.oddForms]) s.bodyScope)
      (s.given [condition])
      (.error (.failure (.thrown (.string Prelude.oddForms))) (s.given [condition])) := by
    have payload : List.Forall₂ ((s.given [condition]).Gives s.bodyScope)
        [.string Prelude.oddForms] [.string Prelude.oddForms] := .cons (.constant trivial) .nil
    exact Gives.ends_of_fails (serves.lookup?_operation _ _ (by decide)) payload rfl
  apply serves.finishes_of_stops
  apply some.ends_of_true ordinary rfl
  apply Gives.ends_of_stops (serves.lookup?_operation _ _ (by decide))
  exact .each_rest_stops (Gives.quote quotes _) (.each_rest_stops first
    (.each_first_stops (notMore.ends_of_false ordinary rfl throws)))

/-- With a clause in front a call stands for a condition of two branches. -/
theorem finishes_branch_cons (serves : s.Serves Prelude.branch env) :
    (Task.evaluate (Prelude.branch.call (condition :: consequent :: more)) env).Finishes s ending ↔
      (Task.evaluate (SpecialForm.conditional.form
        [condition, consequent, Prelude.branch.call more]) env).Finishes
          (s.given (condition :: consequent :: more)) ending := by
  let forms := condition :: consequent :: more
  have ordinary := serves.not_expands_inside forms .conditional (by decide)
  have quotes := serves.not_expands_inside forms .quote (by decide)
  have operands := s.gives_operands forms
  have count : forms.length = more.length + 2 := rfl
  -- The operands are counted twice: is there a clause, and has its condition a form behind it?
  have some := serves.gives_greater forms (Operation.run_greater_zero _)
  have several := serves.gives_greater forms (Operation.run_greater_one _)
  rw [decide_eq_true (by omega)] at some several
  have first : (s.given forms).Gives s.bodyScope
      (Operation.form .first [Prelude.operands]) condition :=
    serves.gives_operation (by decide) (.cons operands .nil) rfl
  have second : (s.given forms).Gives s.bodyScope
      (Operation.form .nth [Prelude.operands, Operation.countValue 1]) consequent :=
    serves.gives_operation (by decide) (.cons operands (.cons (.constant trivial) .nil)) rfl
  have rest : (s.given forms).Gives s.bodyScope
      (Operation.form .rest [Prelude.operands]) (.list (consequent :: more)) :=
    serves.gives_operation (by decide) (.cons operands .nil) rfl
  -- The call for the others is built from their forms, and not expanded here.
  have others : (s.given forms).Gives s.bodyScope
      (Operation.form .rest [Operation.form .rest [Prelude.operands]]) (.list more) :=
    serves.gives_operation (by decide) (.cons rest .nil) rfl
  have call : (s.given forms).Gives s.bodyScope
      (Operation.form .cons [SpecialForm.quote.form [.symbol "cond"],
        Operation.form .rest [Operation.form .rest [Prelude.operands]]])
      (Prelude.branch.call more) :=
    serves.gives_operation (by decide) (.cons (.quote quotes _) (.cons others .nil)) rfl
  apply serves.finishes_of_gives
  apply some.ends_of_true ordinary rfl
  apply serves.gives_operation (by decide)
    (.cons (.quote quotes _) (.cons first (.cons (several.ends_of_true ordinary rfl second)
      (.cons call .nil))))
  rfl

/-- A call with a clause in front evaluates the condition, and then the form behind it or a call for
the clauses that remain. -/
theorem finishes_branch_step (serves : s.Serves Prelude.branch env) (holds : s.Holds env) :
    (Task.evaluate (Prelude.branch.call (condition :: consequent :: more)) env).Finishes s ending ↔
      Sequel ((Task.evaluate condition env).Finishes (s.given (condition :: consequent :: more)))
        (fun value t => (Task.evaluate (if value.countsAsTrue then consequent
          else Prelude.branch.call more) env).Finishes t) ending := by
  have ordinary : ¬ (s.given (condition :: consequent :: more)).Expands env "if" :=
    (serves.opened holds _).here .conditional (by decide)
  exact (finishes_branch_cons serves).trans (finishes_conditional_iff ordinary)

end Body

/-- How a call ends, for any number of clauses. The world has to serve the expander whenever the
next clause is its turn. -/
theorem finishes_branch_iff {env : Env} {forms : List Value} {s : Store} {ending : Ending Value}
    (holds : s.Holds env)
    (ready : ∀ rest u, Passes env forms s rest u → u.Serves Prelude.branch env) :
    (Task.evaluate (Prelude.branch.call forms) env).Finishes s ending ↔
      ∃ rest u, Passes env forms s rest u ∧ BranchEnds env rest u ending := by
  have serves : s.Serves Prelude.branch env := ready forms s .none
  match forms with
  | [] =>
    rw [finishes_branch_nil serves]
    constructor
    · rintro rfl
      exact ⟨[], s, .none, .none⟩
    · rintro ⟨rest, u, passes, ends⟩
      cases passes
      cases ends
      rfl
  | [condition] =>
    rw [finishes_branch_odd serves]
    constructor
    · rintro rfl
      exact ⟨[condition], s, .none, .odd⟩
    · rintro ⟨rest, u, passes, ends⟩
      cases passes
      cases ends
      rfl
  | condition :: consequent :: more =>
    rw [finishes_branch_step serves holds]
    -- Past a false condition the world is ready for the clauses that remain.
    have others {value : Value} {t : Store} (evaluates : (Task.evaluate condition env).Finishes
        (s.given (condition :: consequent :: more)) (.ok value t))
        (isFalse : value.countsAsTrue = false) :
        (Task.evaluate (Prelude.branch.call more) env).Finishes t ending ↔
          ∃ rest u, Passes env more t rest u ∧ BranchEnds env rest u ending :=
      finishes_branch_iff ((holds.opened _).after evaluates)
        fun rest u later => ready rest u (.next evaluates isFalse later)
    constructor
    · intro h
      cases h with
      | goesOn evaluates ends =>
        rename_i value t
        cases isTrue : value.countsAsTrue with
        | true =>
          rw [isTrue, if_pos rfl] at ends
          exact ⟨_, s, .none, .taken evaluates isTrue ends⟩
        | false =>
          rw [isTrue, if_neg Bool.false_ne_true, others evaluates isTrue] at ends
          obtain ⟨rest, u, later, ends⟩ := ends
          exact ⟨rest, u, .next evaluates isTrue later, ends⟩
      | stops stops => exact ⟨_, s, .none, .stops stops⟩
    · rintro ⟨rest, u, passes, ends⟩
      cases passes with
      | none =>
        cases ends with
        | taken evaluates isTrue branch =>
          refine .goesOn evaluates ?_
          rwa [isTrue, if_pos rfl]
        | stops stops => exact .stops stops
      | next evaluates isFalse later =>
        refine .goesOn evaluates ?_
        rw [isFalse, if_neg Bool.false_ne_true, others evaluates isFalse]
        exact ⟨rest, u, later, ends⟩

/-- Clauses are passed two forms at a time. -/
theorem Passes.length_mod_two {env : Env} {forms rest : List Value} {s u : Store}
    (passes : Passes env forms s rest u) : rest.length % 2 = forms.length % 2 := by
  induction passes with
  | none => rfl
  | next _ _ _ ih =>
    rw [ih, List.length_cons, List.length_cons]
    omega

end SmallLisp
