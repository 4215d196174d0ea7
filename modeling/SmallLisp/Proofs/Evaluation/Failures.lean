import SmallLisp.Proofs.Evaluation.Convention
import SmallLisp.Proofs.Evaluation.LetForms
import SmallLisp.Proofs.Scope.Frames

/-!
# What is left where a binding or an assignment fails

A form that binds a name and a function that sets an atom check what they are given, perform a task
and write. The task may do anything to the store, which includes binding the same name and setting
the same atom, and it may stop halfway. The write comes after the last check and after the task, so
that where the whole fails it has not come about: the store is the one in which a check fails, or
the one that the task leaves. A `let*` form writes between its tasks as well, but into a frame that
is its own.

## Main definitions

* `DefinitionFails`, `AssignmentFails`: how a definition and an assignment fail
* `Store.AgreeBut`: stores that differ in one frame at most

## Main results

* `finishes_definition_iff`: definitions fail as is said
* `finishes_reset_error_iff`, `finishes_swap_error_iff`: so do assignments
* `failures_leave_unwritten`: a form or a function that fails has not written
-/

namespace SmallLisp

/-! ### Definitions -/

/-- How a definition fails, in a scope and a store. `accept` makes what is bound of the value of the
form, or refuses that value. -/
inductive DefinitionFails (special : SpecialForm) (accept : Value → Except Error Value) (env : Env)
    (s : Store) : List Value → Halt → Store → Prop
  | missingPart {parts} (tooFew : parts.length < 2) :
      DefinitionFails special accept env s parts (.failure (.missingPart special)) s
  | notSymbol {name form more} (notSymbol : name.symbol? = none) :
      DefinitionFails special accept env s (name :: form :: more)
        (.failure (.wrongType .symbol name.type)) s
  /-- The form fails. -/
  | stops {text form more halt t} (stops : (Task.evaluate form env).Finishes s (.error halt t)) :
      DefinitionFails special accept env s (.symbol text :: form :: more) halt t
  /-- The form has a value, which is refused. -/
  | refused {text form more value t error}
      (returns : (Task.evaluate form env).Finishes s (.ok value t))
      (refuses : accept value = .error error) :
      DefinitionFails special accept env s (.symbol text :: form :: more) (.failure error) t

section Definitions

variable {special : SpecialForm} {accept : Value → Except Error Value}
  {env : Env} {name form value : Value} {text : String} {s t : Store} {parts more : List Value}
  {halt : Halt}

theorem definitionEnding_settled (value : Value) (t : Store) :
    ¬ Ending.IsExhausted (definitionEnding accept env text value t) := by
  rw [definitionEnding]
  cases accept value with
  | ok made => exact not_false
  | error error => exact not_false

/-- A definition with all its parts is done once its form is evaluated. -/
theorem run_definition_eq
    (shape : ∀ self name form more, performSpecial self env special (name :: form :: more) =
      Progress.done <$> defineAs self accept env name form)
    (plain : expansion? s env (special.form (name :: form :: more)) = none) (fuel : Nat) :
    run (fuel + 1) (.evaluate (special.form (name :: form :: more)) env) s =
      defineAs (run fuel) accept env name form s := by
  refine run_eq_of_done ?_
  rw [perform_special plain, shape]

namespace DefinitionFails

theorem short_iff (tooFew : parts.length < 2) :
    DefinitionFails special accept env s parts halt t ↔
      (.error halt t : Ending Value) = .error (.failure (.missingPart special)) s := by
  constructor
  · intro fails
    cases fails with
    | missingPart => rfl
    | notSymbol | stops | refused => exact absurd tooFew (by simp)
  · rintro ⟨⟩
    exact .missingPart tooFew

theorem notSymbol_iff (isNone : name.symbol? = none) :
    DefinitionFails special accept env s (name :: form :: more) halt t ↔
      (.error halt t : Ending Value) = .error (.failure (.wrongType .symbol name.type)) s := by
  constructor
  · intro fails
    cases fails with
    | missingPart tooFew => exact absurd tooFew (by simp)
    | notSymbol => rfl
    | stops | refused => cases isNone
  · rintro ⟨⟩
    exact .notSymbol isNone

/-- With all its parts a definition fails where its form does, or where the value is refused. -/
theorem symbol_iff :
    DefinitionFails special accept env s (.symbol text :: form :: more) halt t ↔
      Sequel ((Task.evaluate form env).Finishes s)
        (fun value t ending => ending = definitionEnding accept env text value t)
        (.error halt t) := by
  constructor
  · intro fails
    cases fails with
    | missingPart tooFew => exact absurd tooFew (by simp)
    | notSymbol isNone => cases isNone
    | stops stops => exact .stops stops
    | refused returns refuses => exact .goesOn returns (definitionEnding_of_refused refuses).symm
  · intro ends
    cases ends with
    | stops stops => exact .stops stops
    | goesOn returns ends =>
      rw [definitionEnding] at ends
      split at ends
      · cases ends
      · rename_i refuses
        cases ends
        exact .refused returns refuses

end DefinitionFails

/-- A definition fails as is said, however much its form does before it fails. -/
theorem finishes_definition_iff (least : special.leastParts = 2)
    (shape : ∀ self name form more, performSpecial self env special (name :: form :: more) =
      Progress.done <$> defineAs self accept env name form)
    (plain : ¬ s.Expands env special.keyword) :
    (Task.evaluate (special.form parts) env).Finishes s (.error halt t) ↔
      DefinitionFails special accept env s parts halt t := by
  have plain (parts : List Value) := expansion?_of_not_expands plain parts
  -- The parts are counted and the name is looked at before the form is evaluated.
  by_cases tooFew : parts.length < 2
  · rw [finishes_iff_eq (.missingPart (plain parts) (least ▸ tooFew)),
      DefinitionFails.short_iff tooFew]
  rcases parts with _ | ⟨name, _ | ⟨form, more⟩⟩
  · exact absurd (by simp) tooFew
  · exact absurd (by simp) tooFew
  have runs := run_definition_eq shape (plain (name :: form :: more))
  cases isSymbol : name.symbol? with
  | none =>
    rw [DefinitionFails.notSymbol_iff isSymbol]
    exact finishes_iff_of_run id fun fuel => (runs fuel).trans (defineAs_of_notSymbol isSymbol)
  | some text =>
    obtain rfl := eq_symbol_of_symbol? isSymbol
    rw [DefinitionFails.symbol_iff]
    exact finishes_iff_sequel_done (definitionEnding accept env text) definitionEnding_settled
      (fun fuel value t returns => (runs fuel).trans (defineAs_of_ok returns))
      fun fuel halt t stops => (runs fuel).trans (defineAs_of_error stops)

end Definitions

/-! ### Assignments -/

/-- How a function that sets an atom fails, called in a scope and a store. -/
inductive AssignmentFails (f : Native) (env : Env) (s : Store) :
    List Value → Halt → Store → Prop
  | wrongCount {arguments} (refused : f.arity.admits arguments.length = false) :
      AssignmentFails f env s arguments (.failure (.wrongCount f arguments.length)) s
  | notAtom {value more} (admitted : f.arity.admits (value :: more).length = true)
      (notAtom : value.cell? = none) :
      AssignmentFails f env s (value :: more) (.failure (.wrongType .atom value.type)) s
  /-- The function that is called back fails. -/
  | stops {cell callee more halt t} (callsBack : f = .control .swap)
      (stops : (Task.call callee (s.contents cell :: more) env).Finishes s (.error halt t)) :
      AssignmentFails f env s (.atom cell :: callee :: more) halt t

section Assignments

variable {f : Native} {env : Env} {s t : Store} {arguments more : List Value} {value : Value}
  {halt : Halt}

namespace AssignmentFails

theorem wrongCount_iff (refused : f.arity.admits arguments.length = false) :
    AssignmentFails f env s arguments halt t ↔
      (.error halt t : Ending Value) = .error (.failure (.wrongCount f arguments.length)) s := by
  constructor
  · intro fails
    cases fails with
    | wrongCount => rfl
    | notAtom admitted => cases admitted.symm.trans refused
    | stops callsBack =>
      subst callsBack
      simp [Native.arity, Native.signature, Control.signature, Arity.admits] at refused
  · rintro ⟨⟩
    exact .wrongCount refused

theorem notAtom_iff (admitted : f.arity.admits (value :: more).length = true)
    (isNone : value.cell? = none) :
    AssignmentFails f env s (value :: more) halt t ↔
      (.error halt t : Ending Value) = .error (.failure (.wrongType .atom value.type)) s := by
  constructor
  · intro fails
    cases fails with
    | wrongCount refused => cases admitted.symm.trans refused
    | notAtom => rfl
    | stops => cases isNone
  · rintro ⟨⟩
    exact .notAtom admitted isNone

/-- Given an atom and enough arguments, an assignment fails where it calls back only. -/
theorem atom_iff {cell : CellId} {callee : Value}
    (admitted : f.arity.admits (.atom cell :: callee :: more).length = true) :
    AssignmentFails f env s (.atom cell :: callee :: more) halt t ↔
      f = .control .swap ∧
        (Task.call callee (s.contents cell :: more) env).Finishes s (.error halt t) := by
  constructor
  · intro fails
    cases fails with
    | wrongCount refused => cases admitted.symm.trans refused
    | notAtom _ isNone => cases isNone
    | stops callsBack stops => exact ⟨callsBack, stops⟩
  · rintro ⟨callsBack, stops⟩
    exact .stops callsBack stops

end AssignmentFails

theorem finishes_reset_error_iff :
    (Task.call (.native (.effect .reset)) arguments env).Finishes s (.error halt t) ↔
      AssignmentFails (.effect .reset) env s arguments halt t := by
  cases admitted : (Native.effect .reset).arity.admits arguments.length with
  | false => rw [finishes_iff_eq (.wrongCount admitted), AssignmentFails.wrongCount_iff admitted]
  | true =>
    rw [finishes_iff_eq (.effect admitted)]
    obtain ⟨value, contents, rfl⟩ := Arity.exists_of_exactly_two admitted
    cases isAtom : value.cell? with
    | none =>
      rw [AssignmentFails.notAtom_iff admitted isAtom, Effect.run, Effect.resetTo,
        Value.expectCell, isAtom]
      rfl
    | some cell =>
      obtain rfl := eq_atom_of_cell? isAtom
      rw [AssignmentFails.atom_iff admitted]
      -- Nothing is called back, and the contents are replaced.
      have sets : Effect.run .reset [.atom cell, contents] s =
          .ok contents (s.written cell contents) := rfl
      rw [sets]
      simp

theorem finishes_swap_error_iff :
    (Task.call (.native (.control .swap)) arguments env).Finishes s (.error halt t) ↔
      AssignmentFails (.control .swap) env s arguments halt t := by
  cases admitted : (Native.control .swap).arity.admits arguments.length with
  | false => rw [finishes_iff_eq (.wrongCount admitted), AssignmentFails.wrongCount_iff admitted]
  | true =>
    obtain ⟨value, callee, more, rfl⟩ := Arity.exists_of_atLeast_two admitted
    cases isAtom : value.cell? with
    | none =>
      rw [finishes_iff_eq (.swap_notAtom isAtom), AssignmentFails.notAtom_iff admitted isAtom]
    | some cell =>
      obtain rfl := eq_atom_of_cell? isAtom
      rw [AssignmentFails.atom_iff admitted, finishes_swap_iff]
      simp

end Assignments

/-! ### Nothing is written -/

/-- Two stores agree but for the names bound in one frame. -/
def Store.AgreeBut (frame : FrameId) (s t : Store) : Prop :=
  (∀ other, other ≠ frame → t.bindings other = s.bindings other) ∧
    { t with frames := s.frames } = s

theorem Store.agreeBut_opened (s : Store) (made : Bindings) :
    s.AgreeBut s.frames.size (s.opened made) :=
  ⟨fun other differs => by rw [bindings_opened, if_neg differs], rfl⟩

theorem Store.agreeBut_defined (s : Store) (frame : FrameId) (name : String) (value : Value) :
    s.AgreeBut frame (s.defined frame name value) :=
  ⟨fun other differs => by rw [bindings_defined, if_neg fun h => differs h.1], rfl⟩

/-- **A form or a function that fails has not written.** A definition or an assignment fails for one
of the reasons that are listed, and for no other. If a part is missing or of the wrong kind, nothing
is evaluated and the store is as before; otherwise the store is left by the task that has been
performed: by the form or the function, if that fails, or else by the form whose value is refused. A
`let*` form that is not well formed evaluates nothing and leaves the store as before. Any other that
fails does so at a name, with a form, or with its body, and leaves the store as the forms before and
the one that fails have left it; between two of them it has written into its own new frame, and
nowhere else. -/
theorem failures_leave_unwritten (env : Env) (s t : Store) (halt : Halt)
    (parts arguments : List Value) :
    (¬ s.Expands env "def!" →
      ((Task.evaluate (SpecialForm.define.form parts) env).Finishes s (.error halt t) ↔
        DefinitionFails .define .ok env s parts halt t)) ∧
    (¬ s.Expands env "defmacro!" →
      ((Task.evaluate (SpecialForm.defineExpander.form parts) env).Finishes s (.error halt t) ↔
        DefinitionFails .defineExpander expanderOf env s parts halt t)) ∧
    ((Task.call (.native (.effect .reset)) arguments env).Finishes s (.error halt t) ↔
      AssignmentFails (.effect .reset) env s arguments halt t) ∧
    ((Task.call (.native (.control .swap)) arguments env).Finishes s (.error halt t) ↔
      AssignmentFails (.control .swap) env s arguments halt t) ∧
    (¬ s.Expands env "let*" →
      ((Task.evaluate (SpecialForm.bindings.form parts) env).Finishes s (.error halt t) ↔
        BindingsFail env s parts halt t)) ∧
    s.AgreeBut s.frames.size (s.opened []) ∧
    ∀ u name value,
      Store.AgreeBut s.frames.size u (u.defined (env.nest s.frames.size).frame name value) := by
  exact ⟨finishes_definition_iff (rfl : SpecialForm.define.leastParts = 2) performSpecial_define,
    finishes_definition_iff (rfl : SpecialForm.defineExpander.leastParts = 2)
      performSpecial_defineExpander,
    finishes_reset_error_iff, finishes_swap_error_iff, finishes_letForm_error_iff,
    s.agreeBut_opened [], fun u => u.agreeBut_defined s.frames.size⟩

/-- A definition without a form; an expander defined by a form that binds the same name to something
else; and a scope with a name that is no symbol, behind one that has been bound. -/
theorem failures_leave_unwritten_late :
    let s := (Store.initial fun _ => none).opened []
    let root := TopLevel.root
    let form := SpecialForm.define.form [.symbol "a", .bool true]
    let names := Value.list [.symbol "a", form, .bool false, .nil]
    (∀ name, ¬ s.Expands root name) ∧
      (Task.evaluate (SpecialForm.define.form [.symbol "a"]) root).Finishes s
        (.error (.failure (.missingPart .define)) s) ∧
      (Task.evaluate (SpecialForm.defineExpander.form [.symbol "a", form]) root).Finishes s
        (.error (.failure (.wrongType .function .bool))
          (s.defined root.frame "a" (.bool true))) ∧
      (Task.evaluate (SpecialForm.bindings.form [names, .nil]) root).Finishes s
        (.error (.failure (.binder (.bindingName .bool)))
          (((s.opened []).defined 1 "a" (.bool true)).defined 1 "a" (.bool true))) := by
  intro s root form names
  -- No name is bound yet.
  have free (name : String) : ¬ s.Expands root name := by
    rintro ⟨_, _, _, _, bound⟩
    cases bound
  have evaluates (env : Env) (u : Store) (plain : expansion? u env form = none) :
      (Task.evaluate form env).Finishes u
        (.ok (.bool true) (u.defined env.frame "a" (.bool true))) :=
    finishes_iff_ends.mpr (.define plain (.constant trivial))
  have binds : Binds (root.nest 1) [.symbol "a", form] (s.opened [])
      (((s.opened []).defined 1 "a" (.bool true)).defined 1 "a" (.bool true)) :=
    .cons (evaluates (root.nest 1) _ rfl) .nil
  have paired : [Value.symbol "a", form, .bool false, .nil].length % 2 = 0 := by simp
  obtain ⟨ofDefinition, _⟩ := failures_leave_unwritten root s s
    (.failure (.missingPart .define)) [.symbol "a"] []
  obtain ⟨_, ofExpander, _⟩ := failures_leave_unwritten root s
    (s.defined root.frame "a" (.bool true)) (.failure (.wrongType .function .bool))
    [.symbol "a", form] []
  obtain ⟨_, _, _, _, ofBindings, _⟩ := failures_leave_unwritten root s
    (((s.opened []).defined 1 "a" (.bool true)).defined 1 "a" (.bool true))
    (.failure (.binder (.bindingName .bool))) [names, .nil] []
  exact ⟨free, (ofDefinition (free _)).mpr (.missingPart (by simp)),
    (ofExpander (free _)).mpr (.refused (evaluates root s rfl) rfl),
    (ofBindings (free _)).mpr (.stops rfl paired (.notSymbol binds rfl))⟩

end SmallLisp
