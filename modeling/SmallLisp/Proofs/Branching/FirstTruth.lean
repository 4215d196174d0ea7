import SmallLisp.Proofs.Branching.FirstBranch
import SmallLisp.Proofs.Evaluation.Templates

/-!
# The first true value

A call with two or more operands stands for a scope in which the value of the first one is kept, and
for a condition that gives the value back or is a call for the operands that remain, inside that
scope. So each operand is evaluated inside the scopes of those before it, which hold their values
and were opened for that. A single operand is what the call stands for, and it is evaluated in tail
position.

## Main definitions

* `Store.trial`, `Store.trialScope`: the world in which an operand is evaluated that others follow
* `Tries`: operands whose values have turned out false
* `TruthEnds`: how a call ends at the operands that are left

## Main results

* `finishes_truth_iff`: how a call ends, for any number of operands
-/

namespace SmallLisp

namespace Store

/-- The scope in which an operand is evaluated that others follow. -/
def trialScope (store : Store) (env : Env) : Env := env.nest (store.frames.size + 1)

/-- The store in which an operand is evaluated that others follow. -/
def trial (store : Store) (operands : List Value) : Store := (store.given operands).opened []

@[simp] theorem size_frames_trial (store : Store) (operands : List Value) :
    (store.trial operands).frames.size = store.frames.size + 1 + 1 := by
  rw [trial, opened, Array.size_push, size_frames_given]

theorem trialScope_frame_lt {s t : Store} {env : Env} {task : Task} {operands : List Value}
    {value : Value} (finishes : task.Finishes (s.trial operands) (.ok value t)) :
    (s.trialScope env).frame < t.frames.size := by
  have grows := size_le_of_becomes (becomes_of_finishes finishes)
  rw [size_frames_trial] at grows
  exact grows

/-- The store in which the value of an operand is kept. -/
def kept (store : Store) (scope : Env) (value : Value) : Store :=
  store.defined scope.frame Prelude.keptName value

/-! ### Templates without effects -/

section Template

variable {s : Store} {env : Env}

theorem eq_of_ends_each {before after values earlier : List Value} {u : Store}
    (gives : List.Forall₂ (s.Gives env) (before ++ after) values)
    (ends : Ends (.each (before.map (.evaluate · env))) s (.ok (.list earlier) u)) : u = s := by
  induction before generalizing values earlier with
  | nil =>
    cases ends
    rfl
  | cons form rest ih =>
    cases gives with
    | cons first others =>
      cases ends with
      | each_cons evaluates later =>
        -- A form ends in one way only, and this one ends without an effect.
        cases evaluates.unique first
        exact ih others later

/-- A template whose expressions have no effect gives the form that it describes. -/
theorem Gives.quasiquote {template : Value} {values : List Value} (builds : s.BuildsTemplates env)
    (complete : ∀ place ∈ Template.insertions template, place.operand.isSome)
    (gives : List.Forall₂ (s.Gives env) (Template.operands (Template.insertions template)) values)
    (sequences : ∀ pair ∈ (Template.insertions template).zip values,
      pair.1.isSpliced → pair.2.items?.isSome) :
    s.Gives env (SpecialForm.quasiquote.form [template])
      (Template.instantiate template values) := by
  refine finishes_iff_ends.mp (finishes_quasiquote ⟨complete, Gives.each gives, sequences, ?_⟩)
  intro before after earlier u split ends
  rw [split] at gives
  rw [eq_of_ends_each gives ends]
  exact builds

end Template

end Store

open Store (Gives)

section Body

variable {s : Store} {env : Env} {form : Value} {operands more : List Value}
  {first second : Value} {ending : Ending Value}

theorem Store.Serves.buildsTemplates (serves : s.Serves Prelude.truth env)
    (operands : List Value) : (s.given operands).BuildsTemplates s.bodyScope where
  cons := serves.lookup?_operation operands .cons (by decide)
  concat := serves.lookup?_operation operands .concat (by decide)
  quote := serves.not_expands_inside operands .quote (by decide)
  quasiquote := serves.not_expands_inside operands .quasiquote (by decide)

theorem Store.Serves.gives_isEmpty (serves : s.Serves Prelude.truth env) (operands : List Value) :
    (s.given operands).Gives s.bodyScope (Operation.form .isEmpty [Prelude.operands])
      (.bool (operands.length == 0)) :=
  serves.gives_operation (by decide) (.cons (s.gives_operands operands) .nil) rfl

theorem Store.Serves.gives_isSingle (serves : s.Serves Prelude.truth env) (operands : List Value) :
    (s.given operands).Gives s.bodyScope (Operation.form .equal
      [Operation.countValue 1, Operation.form .count [Prelude.operands]])
      (.bool (decide (operands.length = 1))) := by
  apply serves.gives_operation (by decide) _ (Operation.run_equal_one _)
  exact .cons (.constant trivial) (.cons (serves.gives_count (by decide) operands) .nil)

/-- Without operands a call stands for `nil`. -/
theorem finishes_truth_nil (serves : s.Serves Prelude.truth env) :
    (Task.evaluate (Prelude.truth.call []) env).Finishes s ending ↔
      ending = .ok .nil (s.given []) := by
  have ordinary := serves.not_expands_inside [] .conditional (by decide)
  have gives : (s.given []).Gives s.bodyScope Prelude.truth.body .nil :=
    (serves.gives_isEmpty []).ends_of_true ordinary rfl (.constant trivial)
  rw [serves.finishes_of_gives gives]
  exact finishes_constant_iff trivial

/-- A call stands for a single operand. -/
theorem finishes_truth_singleton (serves : s.Serves Prelude.truth env) :
    (Task.evaluate (Prelude.truth.call [form]) env).Finishes s ending ↔
      (Task.evaluate form env).Finishes (s.given [form]) ending := by
  have ordinary := serves.not_expands_inside [form] .conditional (by decide)
  have first : (s.given [form]).Gives s.bodyScope (Operation.form .first [Prelude.operands]) form :=
    serves.gives_operation (by decide) (.cons (s.gives_operands _) .nil) rfl
  apply serves.finishes_of_gives
  apply (serves.gives_isEmpty [form]).ends_of_false ordinary rfl
  exact (serves.gives_isSingle [form]).ends_of_true ordinary rfl first

/-- What a call with two or more operands stands for: the value of the first is kept, and given back
if it is true. -/
def Prelude.trialForm (first : Value) (others : List Value) : Value :=
  SpecialForm.bindings.form [.list [.symbol keptName, first],
    SpecialForm.conditional.form [.symbol keptName, .symbol keptName, Prelude.truth.call others]]

theorem Prelude.insertions_truthTemplate : Template.insertions truthTemplate =
    [⟨.unquote, some (Operation.form .first [Prelude.operands]), false⟩,
      ⟨.spliceUnquote, some (Operation.form .rest [Prelude.operands]), true⟩] := by
  rfl

theorem Prelude.instantiate_truthTemplate (first : Value) (others : List Value) :
    Template.instantiate truthTemplate [first, .list others] = trialForm first others := by
  have spliced : Template.instantiate truthTemplate [first, .list others] =
    trialForm first (others ++ []) := rfl
  rw [spliced, List.append_nil]

theorem finishes_truth_cons (serves : s.Serves Prelude.truth env) :
    (Task.evaluate (Prelude.truth.call (first :: second :: more)) env).Finishes s ending ↔
      (Task.evaluate (Prelude.trialForm first (second :: more)) env).Finishes
        (s.given (first :: second :: more)) ending := by
  let operands := first :: second :: more
  have ordinary := serves.not_expands_inside operands .conditional (by decide)
  have count : operands.length = more.length + 2 := rfl
  have notEmpty := serves.gives_isEmpty operands
  have notSingle := serves.gives_isSingle operands
  rw [decide_eq_false (by omega)] at notSingle
  have head : (s.given operands).Gives s.bodyScope (Operation.form .first [Prelude.operands])
      first := serves.gives_operation (by decide) (.cons (s.gives_operands _) .nil) rfl
  have tail : (s.given operands).Gives s.bodyScope (Operation.form .rest [Prelude.operands])
      (.list (second :: more)) :=
    serves.gives_operation (by decide) (.cons (s.gives_operands _) .nil) rfl
  -- The template is filled with the first operand as it is written, and with the others.
  have filled : (s.given operands).Gives s.bodyScope
      (SpecialForm.quasiquote.form [Prelude.truthTemplate])
      (Prelude.trialForm first (second :: more)) := by
    rw [← Prelude.instantiate_truthTemplate]
    apply Gives.quasiquote (serves.buildsTemplates operands)
    · decide
    · exact .cons head (.cons tail .nil)
    · rw [Prelude.insertions_truthTemplate]
      simp [Value.items?]
  apply serves.finishes_of_gives
  apply notEmpty.ends_of_false ordinary rfl
  exact notSingle.ends_of_false ordinary rfl filled

/-- With the value of an operand kept, it is given back if it is true, and otherwise the call for
the other operands is evaluated. -/
theorem finishes_kept_iff {scope : Env} {t : Store} {value : Value} {others : List Value}
    (isFrame : scope.frame < t.frames.size)
    (serves : (t.kept scope value).Serves Prelude.truth scope) :
    (Task.evaluate (SpecialForm.conditional.form [.symbol Prelude.keptName,
        .symbol Prelude.keptName, Prelude.truth.call others]) scope).Finishes (t.kept scope value)
        ending ↔
      (value.countsAsTrue = true ∧ ending = .ok value (t.kept scope value)) ∨
        (value.countsAsTrue = false ∧
          (Task.evaluate (Prelude.truth.call others) scope).Finishes (t.kept scope value)
            ending) := by
  -- The name is looked up in the scope's own frame, where it has just been bound.
  have bound : (t.kept scope value).lookup? scope Prelude.keptName = some value := by
    rw [Store.kept, Store.lookup?, Env.frames, List.findSome?_cons, Store.bindings_defined,
      if_pos ⟨rfl, isFrame⟩, Bindings.find?_insert, if_pos rfl]
  have ordinary := serves.here .conditional (by decide)
  rw [finishes_conditional_iff ordinary, Sequel.iff_of_returns (.symbol bound)]
  cases value.countsAsTrue with
  | true =>
    rw [if_pos rfl, finishes_iff_eq (.symbol bound)]
    simp
  | false => simp

/-- A call with two or more operands evaluates the first one in a scope of its own, keeps the value,
and gives it back or goes on with the others. -/
theorem finishes_truth_step (serves : s.Serves Prelude.truth env) (holds : s.Holds env)
    (ready : ∀ value t, (Task.evaluate first (s.trialScope env)).Finishes
      (s.trial (first :: second :: more)) (.ok value t) →
        (t.kept (s.trialScope env) value).Serves Prelude.truth (s.trialScope env)) :
    (Task.evaluate (Prelude.truth.call (first :: second :: more)) env).Finishes s ending ↔
      Sequel ((Task.evaluate first (s.trialScope env)).Finishes
          (s.trial (first :: second :: more)))
        (fun value t ending =>
          (value.countsAsTrue = true ∧ ending = .ok value (t.kept (s.trialScope env) value)) ∨
          (value.countsAsTrue = false ∧
            (Task.evaluate (Prelude.truth.call (second :: more)) (s.trialScope env)).Finishes
              (t.kept (s.trialScope env) value) ending)) ending := by
  have ordinary : ¬ (s.given (first :: second :: more)).Expands env "let*" :=
    (serves.opened holds _).here .bindings (by decide)
  rw [finishes_truth_cons serves, Prelude.trialForm, finishes_bindings_iff ordinary,
    Store.size_frames_given]
  refine Sequel.congr (fun _ => Iff.rfl) fun value t ending evaluates => ?_
  exact finishes_kept_iff (Store.trialScope_frame_lt evaluates) (ready value t evaluates)

end Body

/-- Operands are tried whose values, one after the other, turn out false. The scope that the others
are evaluated in grows by a frame for each of them. -/
inductive Tries : Env → List Value → Store → Env → List Value → Store → Prop
  | none {env operands s} : Tries env operands s env operands s
  | next {env first second more s value t scope rest u}
      (evaluates : (Task.evaluate first (s.trialScope env)).Finishes
        (s.trial (first :: second :: more)) (.ok value t))
      (isFalse : value.countsAsTrue = false)
      (later : Tries (s.trialScope env) (second :: more) (t.kept (s.trialScope env) value)
        scope rest u) :
      Tries env (first :: second :: more) s scope rest u

/-- How a call ends at the operands that are left: there are none, there is only one, the value of
the first one is true, or that stops early. -/
inductive TruthEnds (env : Env) : List Value → Store → Ending Value → Prop
  | none {s} : TruthEnds env [] s (.ok .nil (s.given []))
  | last {form s ending} (evaluates : (Task.evaluate form env).Finishes (s.given [form]) ending) :
      TruthEnds env [form] s ending
  | found {first second more s value t}
      (evaluates : (Task.evaluate first (s.trialScope env)).Finishes
        (s.trial (first :: second :: more)) (.ok value t))
      (isTrue : value.countsAsTrue = true) :
      TruthEnds env (first :: second :: more) s (.ok value (t.kept (s.trialScope env) value))
  | stops {first second more s halt t}
      (stops : (Task.evaluate first (s.trialScope env)).Finishes
        (s.trial (first :: second :: more)) (.error halt t)) :
      TruthEnds env (first :: second :: more) s (.error halt t)

/-- The world serves the expander at the start of a call, and whenever the value of an operand has
been kept. -/
structure TruthServed (env : Env) (operands : List Value) (s : Store) : Prop where
  start : s.Serves Prelude.truth env
  kept : ∀ scope first second more u value t,
    Tries env operands s scope (first :: second :: more) u →
    (Task.evaluate first (u.trialScope scope)).Finishes (u.trial (first :: second :: more))
      (.ok value t) →
    (t.kept (u.trialScope scope) value).Serves Prelude.truth (u.trialScope scope)

theorem TruthServed.next {env : Env} {first second : Value} {more : List Value} {s t : Store}
    {value : Value} (served : TruthServed env (first :: second :: more) s)
    (evaluates : (Task.evaluate first (s.trialScope env)).Finishes
      (s.trial (first :: second :: more)) (.ok value t)) (isFalse : value.countsAsTrue = false) :
    TruthServed (s.trialScope env) (second :: more) (t.kept (s.trialScope env) value) where
  start := served.kept _ _ _ _ _ _ _ .none evaluates
  kept scope first' second' more' u value' t' tries :=
    served.kept scope first' second' more' u value' t' (.next evaluates isFalse tries)

theorem Store.Holds.kept {s t : Store} {env : Env} {task : Task} {operands : List Value}
    {value : Value} (holds : s.Holds env)
    (finishes : task.Finishes (s.trial operands) (.ok value t)) :
    (t.kept (s.trialScope env) value).Holds (s.trialScope env) := by
  have outer : t.Holds env := ((holds.opened _).opened _).after finishes
  have size : (t.kept (s.trialScope env) value).frames.size = t.frames.size := Array.size_modify ..
  intro frame mem
  rw [size]
  rcases List.mem_cons.mp mem with rfl | older
  · exact Store.trialScope_frame_lt finishes
  · exact outer frame older

/-- How a call ends, for any number of operands. -/
theorem finishes_truth_iff {env : Env} {operands : List Value} {s : Store} {ending : Ending Value}
    (holds : s.Holds env) (served : TruthServed env operands s) :
    (Task.evaluate (Prelude.truth.call operands) env).Finishes s ending ↔
      ∃ scope rest u, Tries env operands s scope rest u ∧ TruthEnds scope rest u ending := by
  match operands with
  | [] =>
    rw [finishes_truth_nil served.start]
    constructor
    · rintro rfl
      exact ⟨env, [], s, .none, .none⟩
    · rintro ⟨scope, rest, u, tries, ends⟩
      cases tries
      cases ends
      rfl
  | [form] =>
    rw [finishes_truth_singleton served.start]
    constructor
    · intro evaluates
      exact ⟨env, [form], s, .none, .last evaluates⟩
    · rintro ⟨scope, rest, u, tries, ends⟩
      cases tries
      cases ends with
      | last evaluates => exact evaluates
  | first :: second :: more =>
    rw [finishes_truth_step served.start holds
      fun value t => served.kept env first second more s value t .none]
    -- Past a false operand the world is ready for those that remain.
    have others {value : Value} {t : Store} (evaluates : (Task.evaluate first
        (s.trialScope env)).Finishes (s.trial (first :: second :: more)) (.ok value t))
        (isFalse : value.countsAsTrue = false) :
        (Task.evaluate (Prelude.truth.call (second :: more)) (s.trialScope env)).Finishes
            (t.kept (s.trialScope env) value) ending ↔
          ∃ scope rest u, Tries (s.trialScope env) (second :: more)
            (t.kept (s.trialScope env) value) scope rest u ∧ TruthEnds scope rest u ending :=
      finishes_truth_iff (holds.kept evaluates) (served.next evaluates isFalse)
    constructor
    · intro h
      cases h with
      | goesOn evaluates ends =>
        rcases ends with ⟨isTrue, rfl⟩ | ⟨isFalse, ends⟩
        · exact ⟨env, _, s, .none, .found evaluates isTrue⟩
        · obtain ⟨scope, rest, u, later, ends⟩ := (others evaluates isFalse).mp ends
          exact ⟨scope, rest, u, .next evaluates isFalse later, ends⟩
      | stops stops => exact ⟨env, _, s, .none, .stops stops⟩
    · rintro ⟨scope, rest, u, tries, ends⟩
      cases tries with
      | none =>
        cases ends with
        | found evaluates isTrue => exact .goesOn evaluates (.inl ⟨isTrue, rfl⟩)
        | stops stops => exact .stops stops
      | next evaluates isFalse later =>
        have goesOn := (others evaluates isFalse).mpr ⟨_, _, _, later, ends⟩
        exact .goesOn evaluates (.inr ⟨isFalse, goesOn⟩)

end SmallLisp
