import SmallLisp.Proofs.Evaluation.Soundness
import SmallLisp.Proofs.Scope.Frames

/-!
# Runs leave other frames alone

A definition binds a name in the frame of the scope that it is evaluated in. That scope is the
one the evaluation began in, or the outermost one, which is where `eval` evaluates, or one that
opened on the way: the scope of a procedure's parameters or of a `let*` form. So of the frames
that there are when an evaluation begins, it changes at most that of its scope and the outermost
one; a call and an expansion change at most the outermost one.

## Main definitions

* `Task.Within`: a task that mentions known scopes only
* `Task.Avoids`: a task that has no business with guarded frames
* `Spares`: a way to perform tasks that leaves guarded frames alone

## Main results

* `Spares.perform`: so does one task, performed in this way
* `run_spares`: runs leave guarded frames alone
* `evaluate_bindings_keeps`: a `let*` form spares even the frame of its own scope
-/

namespace SmallLisp

/-- A task that mentions known scopes only. -/
def Task.Within (known : Env → Prop) : Task → Prop
  | .evaluate form env | .expand form env => form.Within known ∧ known env
  | .call callee arguments env =>
    callee.Within known ∧ (∀ argument ∈ arguments, argument.Within known) ∧ known env

/-- A task that has no business with guarded frames: an evaluation may bind names in the frame of
its scope. -/
def Task.Avoids (guarded : FrameId → Prop) : Task → Prop
  | .evaluate _ env => ¬ guarded env.frame
  | .expand .. | .call .. => True

/-- A value or a task that may come next. -/
def Progress.Avoids (guarded : FrameId → Prop) (scopes : List Env) : Progress → Prop
  | .done value => value.Within (· ∈ scopes)
  | .next task => task.Within (· ∈ scopes) ∧ task.Avoids guarded

/-- A way to perform tasks that leaves guarded frames alone. -/
def Spares (guarded : FrameId → Prop) (self : Task → Eval Value) : Prop :=
  ∀ task scopes s, Stage guarded scopes s → task.Within (· ∈ scopes) → task.Avoids guarded →
    (self task).Keeps guarded scopes s fun scopes' value => value.Within (· ∈ scopes')

variable {guarded : FrameId → Prop} {scopes : List Env} {s : Store}

/-! ### Primitive effects -/

namespace Eval.Keeps

variable (stage : Stage guarded scopes s)
include stage

theorem openScope {parent : Env} {made : Bindings} (inside : parent ∈ scopes)
    (ofMade : ∀ binding ∈ made, binding.2.Within (· ∈ scopes)) :
    (openScope parent made).Keeps guarded scopes s
      fun scopes' env => env ∈ scopes' ∧ ¬ guarded env.frame :=
  ⟨_, stage.evolves_opened inside ofMade, by simp, stage.not_guarded_fresh⟩

theorem define {env : Env} {value : Value} (free : ¬ guarded env.frame) (name : String)
    (ofValue : value.Within (· ∈ scopes)) :
    (define env name value).Keeps guarded scopes s fun _ _ => True :=
  ⟨scopes, stage.evolves_defined free name ofValue, trivial⟩

theorem readCell (cell : CellId) :
    (readCell cell).Keeps guarded scopes s fun scopes' value => value.Within (· ∈ scopes') :=
  ⟨scopes, .refl stage.within, stage.within.cells cell⟩

theorem writeCell (cell : CellId) {value : Value} (ofValue : value.Within (· ∈ scopes)) :
    (writeCell cell value).Keeps guarded scopes s fun _ _ => True :=
  ⟨scopes, .of_frames_eq (stage.within.write ofValue cell) rfl, trivial⟩

theorem newFunction {parameters : List Value} {body : Value} {env : Env}
    (ofParameters : ∀ parameter ∈ parameters, parameter.Within (· ∈ scopes))
    (ofBody : body.Within (· ∈ scopes)) (isScope : env ∈ scopes) :
    (newFunction parameters body env).Keeps guarded scopes s
      fun scopes' value => value.Within (· ∈ scopes') :=
  ⟨scopes, .of_frames_eq ⟨stage.within.opened, stage.within.size_eq, stage.within.bindings,
    stage.within.cells⟩ rfl, (Value.within_procedure ..).mpr ⟨ofParameters, ofBody, isScope⟩⟩

theorem lookup (env : Env) (name : String) :
    (lookup env name).Keeps guarded scopes s fun scopes' value => value.Within (· ∈ scopes') := by
  rw [Keeps, leads_lookup]
  exact ⟨fun value bound => ⟨scopes, .refl stage.within, stage.within.lookup bound⟩,
    fun _ => ⟨scopes, .refl stage.within, trivial⟩⟩

theorem expectCell (value : Value) :
    (Eval.ofExcept value.expectCell).Keeps guarded scopes s fun _ _ => True :=
  .ofExcept stage (by simp [Value.expectCell])

theorem expectSymbol (value : Value) :
    (Eval.ofExcept value.expectSymbol).Keeps guarded scopes s fun _ _ => True :=
  .ofExcept stage (by simp [Value.expectSymbol])

theorem print (text : String) : (print text).Keeps guarded scopes s fun _ _ => True :=
  ⟨scopes, .of_frames_eq ⟨stage.within.opened, stage.within.size_eq, stage.within.bindings,
    stage.within.cells⟩ rfl, trivial⟩

theorem render (style : Style) (value : Value) :
    (render style value).Keeps guarded scopes s fun _ _ => True :=
  ⟨scopes, .refl stage.within, trivial⟩

theorem textOf (style : Style) (separator : String) (values : List Value) :
    (Effect.textOf style separator values).Keeps guarded scopes s fun _ _ => True :=
  ⟨scopes, .refl stage.within, trivial⟩

theorem printAll (style : Style) (values : List Value) :
    (Effect.printAll style values).Keeps guarded scopes s
      fun scopes' value => value.Within (· ∈ scopes') := by
  refine (textOf stage style " " values).bind stage fun text scopes' t _ stage' _ => ?_
  refine (print stage' _).bind stage' fun _ scopes'' u _ stage'' _ => ?_
  exact .pure stage'' Value.within_nil

theorem readFile (path : String) :
    (readFile path).Keeps guarded scopes s fun _ _ => True := by
  have known : (get : Eval Store).Keeps guarded scopes s fun _ _ => True :=
    ⟨scopes, .refl stage.within, trivial⟩
  refine known.bind stage fun store scopes' t _ stage' _ => ?_
  split
  · exact .pure stage' trivial
  · exact .fail stage' trivial
  · exact ⟨scopes', .refl stage'.within, trivial⟩

end Eval.Keeps

/-- Effects change no frame. -/
theorem Effect.keeps_run (effect : Effect) {arguments : List Value}
    (stage : Stage guarded scopes s)
    (within : ∀ argument ∈ arguments, argument.Within (· ∈ scopes)) :
    (effect.run arguments).Keeps guarded scopes s
      fun scopes' value => value.Within (· ∈ scopes') := by
  by_cases admitted : effect.signature.arity.admits arguments.length = true
  case neg =>
    rw [run_eq_wrongCount_of_arity effect arguments (by simpa using admitted)]
    exact .fail stage trivial
  cases effect with
  | atom =>
    obtain ⟨value, rfl⟩ := Arity.exists_of_exactly_one admitted
    exact ⟨scopes, .of_frames_eq (stage.within.addCell (within value (by simp))) rfl,
      Value.within_atom _⟩
  | deref =>
    obtain ⟨value, rfl⟩ := Arity.exists_of_exactly_one admitted
    exact (Eval.Keeps.expectCell stage value).bind stage fun cell _ _ _ stage' _ =>
      .readCell stage' cell
  | reset =>
    obtain ⟨atom, value, rfl⟩ := Arity.exists_of_exactly_two admitted
    refine (Eval.Keeps.expectCell stage atom).bind stage fun cell scopes' t grows stage' _ => ?_
    have ofValue := (within value (by simp)).grow grows
    refine (Eval.Keeps.writeCell stage' cell ofValue).bind stage'
      fun _ scopes'' u grows' stage'' _ => ?_
    exact .pure stage'' (ofValue.grow grows')
  | str | prStr =>
    exact (Eval.Keeps.textOf stage _ _ arguments).bind stage fun text _ _ _ stage' _ =>
      .pure stage' (Value.within_string text)
  | println | prn => exact .printAll stage _ arguments
  | slurp =>
    obtain ⟨value, rfl⟩ := Arity.exists_of_exactly_one admitted
    have path : (Eval.ofExcept value.expectString).Keeps guarded scopes s fun _ _ => True :=
      .ofExcept stage (by simp [Value.expectString])
    refine path.bind stage fun path scopes' t _ stage' _ => ?_
    exact (Eval.Keeps.readFile stage' path).bind stage' fun text _ _ _ stage'' _ =>
      .pure stage'' (Value.within_string text)

section Parts

variable {self : Task → Eval Value} (spares : Spares guarded self)
include spares

theorem Spares.evaluate {env : Env} {form : Value} (stage : Stage guarded scopes s)
    (ofForm : form.Within (· ∈ scopes)) (isScope : env ∈ scopes) (free : ¬ guarded env.frame) :
    (self (.evaluate form env)).Keeps guarded scopes s
      fun scopes' value => value.Within (· ∈ scopes') :=
  spares _ scopes s stage ⟨ofForm, isScope⟩ free

theorem Spares.call {env : Env} {callee : Value} {arguments : List Value}
    (stage : Stage guarded scopes s) (ofCallee : callee.Within (· ∈ scopes))
    (ofArguments : ∀ argument ∈ arguments, argument.Within (· ∈ scopes)) (isScope : env ∈ scopes) :
    (self (.call callee arguments env)).Keeps guarded scopes s
      fun scopes' value => value.Within (· ∈ scopes') :=
  spares _ scopes s stage ⟨ofCallee, ofArguments, isScope⟩ trivial

theorem Spares.evaluateEach {env : Env} {forms : List Value} (stage : Stage guarded scopes s)
    (ofForms : ∀ form ∈ forms, form.Within (· ∈ scopes)) (isScope : env ∈ scopes)
    (free : ¬ guarded env.frame) :
    (evaluateEach self env forms).Keeps guarded scopes s
      fun scopes' values => ∀ value ∈ values, value.Within (· ∈ scopes') :=
  Eval.Keeps.mapM (fun scopes form => form.Within (· ∈ scopes) ∧ env ∈ scopes)
    (fun _ _ _ grows ofForm => ⟨ofForm.1.grow grows, grows ofForm.2⟩)
    (fun _ _ _ stage ofForm => spares.evaluate stage ofForm.1 ofForm.2 free)
    stage fun form mem => ⟨ofForms form mem, isScope⟩

theorem Spares.callEach {env : Env} {callee : Value} {values : List Value}
    (stage : Stage guarded scopes s) (ofCallee : callee.Within (· ∈ scopes))
    (ofValues : ∀ value ∈ values, value.Within (· ∈ scopes)) (isScope : env ∈ scopes) :
    (callEach self callee env values).Keeps guarded scopes s
      fun scopes' results => ∀ result ∈ results, result.Within (· ∈ scopes') :=
  Eval.Keeps.mapM
    (fun scopes value =>
      value.Within (· ∈ scopes) ∧ callee.Within (· ∈ scopes) ∧ env ∈ scopes)
    (fun _ _ _ grows h => ⟨h.1.grow grows, h.2.1.grow grows, grows h.2.2⟩)
    (fun _ _ _ stage h => spares.call stage h.2.1 (by simpa using h.1) h.2.2)
    stage fun value mem => ⟨ofValues value mem, ofCallee, isScope⟩

omit spares in
/-- Parameters are bound in a scope whose frame is new. -/
theorem extend_keeps {parameters arguments : List Value} {env : Env}
    (stage : Stage guarded scopes s) (isScope : env ∈ scopes)
    (ofArguments : ∀ argument ∈ arguments, argument.Within (· ∈ scopes)) :
    (env.extend parameters arguments).Keeps guarded scopes s
      fun scopes' inner => inner ∈ scopes' ∧ ¬ guarded inner.frame := by
  have binds : (Eval.ofExcept (Binder.bind parameters arguments)).Keeps guarded scopes s
      fun scopes' made => ∀ binding ∈ made, binding.2.Within (· ∈ scopes') :=
    .ofExcept stage (Binder.yields_bind parameters ofArguments)
  exact binds.bind stage fun made scopes' t grows stage' ofMade =>
    .openScope stage' (grows isScope) ofMade

omit spares in
/-- A procedure's body is evaluated in a scope whose frame is new. -/
theorem enter_keeps {parameters arguments : List Value} {body : Value} {scope : Env}
    (stage : Stage guarded scopes s) (ofBody : body.Within (· ∈ scopes)) (isScope : scope ∈ scopes)
    (ofArguments : ∀ argument ∈ arguments, argument.Within (· ∈ scopes)) :
    (enter parameters body scope arguments).Keeps guarded scopes s
      fun scopes' task => task.Within (· ∈ scopes') ∧ task.Avoids guarded :=
  (extend_keeps stage isScope ofArguments).bind stage fun _ _ _ grows stage' inner =>
    .pure stage' ⟨⟨ofBody.grow grows, inner.1⟩, inner.2⟩

theorem Spares.swapAtom {env : Env} {atom callee : Value} {more : List Value}
    (stage : Stage guarded scopes s) (ofCallee : callee.Within (· ∈ scopes))
    (ofMore : ∀ value ∈ more, value.Within (· ∈ scopes)) (isScope : env ∈ scopes) :
    (swapAtom self atom callee more env).Keeps guarded scopes s
      fun scopes' value => value.Within (· ∈ scopes') := by
  refine (Eval.Keeps.expectCell stage atom).bind stage fun cell scopes₁ t₁ grows₁ stage₁ _ => ?_
  -- The store mentions what the cell holds, so no new scope comes in with it.
  refine (Eval.Keeps.readCell stage₁ cell).bind stage₁
    fun current scopes₂ t₂ grows₂ stage₂ ofCurrent => ?_
  have grows := List.Subset.trans grows₁ grows₂
  refine (spares.call stage₂ (ofCallee.grow grows)
    (List.forall_mem_cons.mpr ⟨ofCurrent, fun value mem => (ofMore value mem).grow grows⟩)
    (grows isScope)).bind stage₂ fun updated scopes₃ t₃ _ stage₃ ofUpdated => ?_
  refine (Eval.Keeps.writeCell stage₃ cell ofUpdated).bind stage₃
    fun _ scopes₄ t₄ grows₄ stage₄ _ => ?_
  exact .pure stage₄ (ofUpdated.grow grows₄)

theorem Spares.applyTo {env : Env} {callee first : Value} {more : List Value}
    (stage : Stage guarded scopes s) (ofCallee : callee.Within (· ∈ scopes))
    (ofArguments : ∀ value ∈ first :: more, value.Within (· ∈ scopes)) (isScope : env ∈ scopes) :
    (applyTo self callee first more env).Keeps guarded scopes s
      fun scopes' value => value.Within (· ∈ scopes') := by
  have ofLast : ((first :: more).getLastD .nil).Within (· ∈ scopes) := by
    rw [List.getLastD_eq_getLast?, List.getLast?_eq_some_getLast (List.cons_ne_nil _ _)]
    exact ofArguments _ (List.getLast_mem _)
  have spread : (Eval.ofExcept ((first :: more).getLastD .nil).expectItems).Keeps guarded scopes s
      fun scopes' items => ∀ item ∈ items, item.Within (· ∈ scopes') :=
    .ofExcept stage (yields_expectItems ofLast)
  refine spread.bind stage fun items scopes' t grows stage' ofItems => ?_
  refine spares.call stage' (ofCallee.grow grows) (fun argument mem => ?_) (grows isScope)
  -- The arguments of the call are those before the last one and the items of that.
  rcases List.mem_append.mp mem with leading | last
  · exact (ofArguments argument ((List.dropLast_sublist _).mem leading)).grow grows
  · exact ofItems argument last

/-- The control functions evaluate in the outermost scope, if at all. -/
theorem Spares.runControl {env : Env} (control : Control) {arguments : List Value}
    (stage : Stage guarded scopes s)
    (ofArguments : ∀ argument ∈ arguments, argument.Within (· ∈ scopes)) (isScope : env ∈ scopes)
    (admitted : control.signature.arity.admits arguments.length = true) :
    (runControl self env control arguments).Keeps guarded scopes s
      fun scopes' value => value.Within (· ∈ scopes') := by
  cases control with
  | swap =>
    obtain ⟨atom, callee, more, rfl⟩ := Arity.exists_of_atLeast_two admitted
    exact spares.swapAtom stage (ofArguments callee (by simp))
      (fun value mem => ofArguments value (by simp [mem])) isScope
  | apply =>
    obtain ⟨callee, first, more, rfl⟩ := Arity.exists_of_atLeast_two admitted
    exact spares.applyTo stage (ofArguments callee (by simp))
      (fun value mem => ofArguments value (List.mem_cons_of_mem _ mem)) isScope
  | map =>
    obtain ⟨callee, sequence, rfl⟩ := Arity.exists_of_exactly_two admitted
    have items : (Eval.ofExcept sequence.expectItems).Keeps guarded scopes s
        fun scopes' items => ∀ item ∈ items, item.Within (· ∈ scopes') :=
      .ofExcept stage (yields_expectItems (ofArguments sequence (by simp)))
    refine items.bind stage fun items scopes' t grows stage' ofItems => ?_
    have ofCallee := (ofArguments callee (by simp)).grow grows
    refine (spares.callEach stage' ofCallee ofItems (grows isScope)).bind stage'
      fun results scopes'' u _ stage'' ofResults => ?_
    exact .pure stage'' ((Value.within_seq _ _).mpr ofResults)
  | eval =>
    obtain ⟨form, rfl⟩ := Arity.exists_of_exactly_one admitted
    -- All scopes lie inside the same outermost one, and that is not guarded.
    rw [SmallLisp.runControl, stage.within.opened.root_eq isScope]
    exact spares.evaluate stage (ofArguments form (by simp)) stage.within.opened.root_mem
      stage.notRoot

theorem Spares.runNative {env : Env} (f : Native) {arguments : List Value}
    (stage : Stage guarded scopes s)
    (ofArguments : ∀ argument ∈ arguments, argument.Within (· ∈ scopes)) (isScope : env ∈ scopes) :
    (runNative self env f arguments).Keeps guarded scopes s
      fun scopes' value => value.Within (· ∈ scopes') := by
  unfold SmallLisp.runNative
  split
  · rename_i admitted
    cases f with
    | operation operation =>
      exact .ofExcept stage (operation.yields_run ofArguments)
    | effect effect => exact effect.keeps_run stage ofArguments
    | control control => exact spares.runControl control stage ofArguments isScope admitted
  · exact .fail stage trivial

theorem Spares.performCall {env : Env} {callee : Value} {arguments : List Value}
    (stage : Stage guarded scopes s) (ofCallee : callee.Within (· ∈ scopes))
    (ofArguments : ∀ argument ∈ arguments, argument.Within (· ∈ scopes)) (isScope : env ∈ scopes) :
    (performCall self env callee arguments).Keeps guarded scopes s (fun scopes' progress =>
      progress.Avoids guarded scopes') := by
  unfold SmallLisp.performCall
  split
  · exact (spares.runNative _ stage ofArguments isScope).bind stage
      fun value _ _ _ stage' ofValue => .pure stage' ofValue
  · rw [Value.within_procedure] at ofCallee
    exact (enter_keeps stage ofCallee.2.1 ofCallee.2.2 ofArguments).bind stage
      fun task _ _ _ stage' next => .pure stage' next
  · exact (Eval.Keeps.render stage .readable callee).bind stage
      fun text _ _ _ stage' _ => .fail stage' trivial

/-! ### Special forms -/

theorem Spares.evaluateAllButLast {env : Env} {form : Value} {rest : List Value}
    (stage : Stage guarded scopes s) (ofForm : form.Within (· ∈ scopes))
    (ofRest : ∀ other ∈ rest, other.Within (· ∈ scopes)) (isScope : env ∈ scopes)
    (free : ¬ guarded env.frame) :
    (evaluateAllButLast self env form rest).Keeps guarded scopes s
      fun scopes' last => last.Within (· ∈ scopes') ∧ env ∈ scopes' := by
  induction rest generalizing form scopes s with
  | nil => exact .pure stage ⟨ofForm, isScope⟩
  | cons next rest ih =>
    have ofNext := ofRest next List.mem_cons_self
    have ofOthers := fun other mem => ofRest other (List.mem_cons_of_mem next mem)
    refine (spares.evaluate stage ofForm isScope free).bind stage
      fun _ scopes' t grows stage' _ => ?_
    exact ih stage' (ofNext.grow grows) (fun other mem => (ofOthers other mem).grow grows)
      (grows isScope)

theorem Spares.bindEach {scope : Env} {items : List Value} (stage : Stage guarded scopes s)
    (ofItems : ∀ item ∈ items, item.Within (· ∈ scopes)) (isScope : scope ∈ scopes)
    (free : ¬ guarded scope.frame) :
    (bindEach self scope items).Keeps guarded scopes s fun _ _ => True := by
  induction items using SmallLisp.bindEach.induct generalizing scopes s with
  | case1 name form rest text named ih =>
    have ofForm := ofItems form (by simp)
    have ofRest : ∀ item ∈ rest, item.Within (· ∈ scopes) := fun item mem =>
      ofItems item (List.mem_cons_of_mem name (List.mem_cons_of_mem form mem))
    rw [SmallLisp.bindEach]
    split
    · refine (spares.evaluate stage ofForm isScope free).bind stage
        fun value scopes' t grows stage' ofValue => ?_
      refine (Eval.Keeps.define stage' free _ ofValue).bind stage'
        fun _ scopes'' u grows' stage'' _ => ?_
      have grown := List.Subset.trans grows grows'
      exact ih stage'' (fun item mem => (ofRest item mem).grow grown) (grown isScope)
    · exact .fail stage trivial
  | case2 name form rest notSymbol =>
    rw [SmallLisp.bindEach, notSymbol]
    exact .fail stage trivial
  | case3 items noPair =>
    rw [SmallLisp.bindEach]
    · exact .pure stage trivial
    · exact noPair

theorem Spares.evaluateBindings {env : Env} {bindings : Value} (stage : Stage guarded scopes s)
    (ofBindings : bindings.Within (· ∈ scopes)) (isScope : env ∈ scopes) :
    (evaluateBindings self env bindings).Keeps guarded scopes s
      fun scopes' scope => scope ∈ scopes' ∧ ¬ guarded scope.frame := by
  unfold SmallLisp.evaluateBindings
  split
  · exact .fail stage trivial
  · rename_i items isSeq
    have ofItems : ∀ item ∈ items, item.Within (· ∈ scopes) := by
      cases bindings <;> cases isSeq
      exact (Value.within_seq _ _).mp ofBindings
    split
    · exact .fail stage trivial
    · refine (Eval.Keeps.openScope stage isScope (by simp)).bind stage
        fun scope scopes' t grows stage' inner => ?_
      have ofItems' := fun item mem => (ofItems item mem).grow grows
      refine (spares.bindEach stage' ofItems' inner.1 inner.2).bind stage'
        fun _ scopes'' u grows' stage'' _ => ?_
      exact .pure stage'' ⟨grows' inner.1, inner.2⟩

omit spares in
theorem makeFunction_keeps {env : Env} {parameters body : Value} (stage : Stage guarded scopes s)
    (ofParameters : parameters.Within (· ∈ scopes)) (ofBody : body.Within (· ∈ scopes))
    (isScope : env ∈ scopes) :
    (makeFunction env parameters body).Keeps guarded scopes s
      fun scopes' value => value.Within (· ∈ scopes') := by
  unfold makeFunction
  split
  · exact .fail stage trivial
  · rename_i items isSeq
    have ofItems : ∀ item ∈ items, item.Within (· ∈ scopes) := by
      cases parameters <;> cases isSeq
      exact (Value.within_seq _ _).mp ofParameters
    split
    · exact .fail stage trivial
    · exact .newFunction stage ofItems ofBody isScope

theorem Spares.evaluateDefinition {env : Env} {name form : Value} (stage : Stage guarded scopes s)
    (ofForm : form.Within (· ∈ scopes)) (isScope : env ∈ scopes) (free : ¬ guarded env.frame) :
    (evaluateDefinition self env name form).Keeps guarded scopes s
      fun scopes' value => value.Within (· ∈ scopes') := by
  refine (Eval.Keeps.expectSymbol stage name).bind stage fun text scopes₁ t₁ grows₁ stage₁ _ => ?_
  refine (spares.evaluate stage₁ (ofForm.grow grows₁) (grows₁ isScope) free).bind stage₁
    fun value scopes₂ t₂ _ stage₂ ofValue => ?_
  refine (Eval.Keeps.define stage₂ free text ofValue).bind stage₂
    fun _ scopes₃ t₃ grows₃ stage₃ _ => ?_
  exact .pure stage₃ (ofValue.grow grows₃)

omit spares in
theorem yields_expanderOf {known : Env → Prop} {value : Value} (within : value.Within known) :
    Yields known (·.Within known) (expanderOf value) := by
  unfold expanderOf
  split
  · rw [Value.within_procedure] at within
    exact (Value.within_procedure ..).mpr within
  · trivial

theorem Spares.evaluateExpanderDefinition {env : Env} {name form : Value}
    (stage : Stage guarded scopes s) (ofForm : form.Within (· ∈ scopes)) (isScope : env ∈ scopes)
    (free : ¬ guarded env.frame) :
    (evaluateExpanderDefinition self env name form).Keeps guarded scopes s
      fun scopes' value => value.Within (· ∈ scopes') := by
  refine (Eval.Keeps.expectSymbol stage name).bind stage fun text scopes₁ t₁ grows₁ stage₁ _ => ?_
  refine (spares.evaluate stage₁ (ofForm.grow grows₁) (grows₁ isScope) free).bind stage₁
    fun value scopes₂ t₂ _ stage₂ ofValue => ?_
  have made : (Eval.ofExcept (expanderOf value)).Keeps guarded scopes₂ t₂
      fun scopes' expander => expander.Within (· ∈ scopes') :=
    .ofExcept stage₂ (yields_expanderOf ofValue)
  refine made.bind stage₂ fun expander scopes₃ t₃ _ stage₃ ofExpander => ?_
  refine (Eval.Keeps.define stage₃ free text ofExpander).bind stage₃
    fun _ scopes₄ t₄ grows₄ stage₄ _ => ?_
  exact .pure stage₄ (ofExpander.grow grows₄)

/-- A `let*` form has no business with the frame of its own scope. -/
theorem Spares.performBindings {env : Env} (parts : List Value) (stage : Stage guarded scopes s)
    (ofParts : ∀ part ∈ parts, part.Within (· ∈ scopes)) (isScope : env ∈ scopes) :
    (performSpecial self env .bindings parts).Keeps guarded scopes s
      fun scopes' progress => progress.Avoids guarded scopes' := by
  by_cases enough : (Arity.atLeast SpecialForm.bindings.leastParts).admits parts.length = true
  case neg =>
    rw [performSpecial_of_tooFew (by simpa [Arity.admits] using enough)]
    exact .fail stage trivial
  obtain ⟨bindings, body, more, rfl⟩ := Arity.exists_of_atLeast_two enough
  -- From here on only the new scope is written to, and its frame is not guarded.
  refine (spares.evaluateBindings stage (ofParts bindings (by simp)) isScope).bind stage
    fun scope scopes' t grows stage' inner => ?_
  exact .pure stage' ⟨⟨(ofParts body (by simp)).grow grows, inner.1⟩, inner.2⟩

/-- The special forms of a scope whose frame is not guarded. -/
theorem Spares.performSpecial {env : Env} (special : SpecialForm) {parts : List Value}
    (stage : Stage guarded scopes s) (ofParts : ∀ part ∈ parts, part.Within (· ∈ scopes))
    (isScope : env ∈ scopes) (free : ¬ guarded env.frame) :
    (performSpecial self env special parts).Keeps guarded scopes s
      fun scopes' progress => progress.Avoids guarded scopes' := by
  by_cases enough : (Arity.atLeast special.leastParts).admits parts.length = true
  case neg =>
    rw [performSpecial_of_tooFew (by simpa [Arity.admits] using enough)]
    exact .fail stage trivial
  cases special with
  | quote =>
    obtain ⟨form, more, rfl⟩ := Arity.exists_of_atLeast_one enough
    exact .pure stage (ofParts form (by simp))
  | quasiquote =>
    obtain ⟨template, more, rfl⟩ := Arity.exists_of_atLeast_one enough
    have expands : (Eval.ofExcept (Template.expand template)).Keeps guarded scopes s
        fun scopes' form => form.Within (· ∈ scopes') :=
      .ofExcept stage (Template.yields_expand template (ofParts template (by simp)))
    exact expands.bind stage fun form _ _ grows stage' ofForm =>
      .pure stage' ⟨⟨ofForm, grows isScope⟩, free⟩
  | sequence =>
    obtain ⟨form, rest, rfl⟩ := Arity.exists_of_atLeast_one enough
    have ofRest := fun other mem => ofParts other (List.mem_cons_of_mem form mem)
    exact (spares.evaluateAllButLast stage (ofParts form (by simp)) ofRest isScope free).bind stage
      fun last _ _ _ stage' ofLast => .pure stage' ⟨ofLast, free⟩
  | conditional =>
    obtain ⟨condition, consequent, rest, rfl⟩ := Arity.exists_of_atLeast_two enough
    refine (spares.evaluate stage (ofParts condition (by simp)) isScope free).bind stage
      fun value scopes' t grows stage' _ => ?_
    have ofConsequent := ofParts consequent (by simp)
    have ofAlternative : (rest.headD .nil).Within (· ∈ scopes) :=
      Value.within_headD (fun other mem => ofParts other (by simp [mem])) .nil Value.within_nil
    refine .pure stage' ⟨⟨?_, grows isScope⟩, free⟩
    split
    · exact ofConsequent.grow grows
    · exact ofAlternative.grow grows
  | function =>
    obtain ⟨parameters, body, more, rfl⟩ := Arity.exists_of_atLeast_two enough
    exact (makeFunction_keeps stage (ofParts parameters (by simp)) (ofParts body (by simp))
      isScope).bind stage fun value _ _ _ stage' ofValue => .pure stage' ofValue
  | define =>
    obtain ⟨name, form, more, rfl⟩ := Arity.exists_of_atLeast_two enough
    exact (spares.evaluateDefinition stage (ofParts form (by simp)) isScope free).bind stage
      fun value _ _ _ stage' ofValue => .pure stage' ofValue
  | defineExpander =>
    obtain ⟨name, form, more, rfl⟩ := Arity.exists_of_atLeast_two enough
    exact (spares.evaluateExpanderDefinition stage (ofParts form (by simp)) isScope free).bind stage
      fun value _ _ _ stage' ofValue => .pure stage' ofValue
  | expand =>
    obtain ⟨form, more, rfl⟩ := Arity.exists_of_atLeast_one enough
    exact .pure stage ⟨⟨ofParts form (by simp), isScope⟩, trivial⟩
  | bindings => exact spares.performBindings parts stage ofParts isScope

/-! ### Tasks and runs -/

theorem Spares.evaluateEntries {env : Env} {made entries : Entries} (stage : Stage guarded scopes s)
    (ofMade : (Value.map made).Within (· ∈ scopes))
    (ofEntries : (Value.map entries).Within (· ∈ scopes)) (isScope : env ∈ scopes)
    (free : ¬ guarded env.frame) :
    (evaluateEntries self env made entries).Keeps guarded scopes s
      fun scopes' result => (Value.map result).Within (· ∈ scopes') := by
  induction entries generalizing made scopes s with
  | nil => exact .pure stage ofMade
  | cons entry rest ih =>
    rw [Value.within_map] at ofEntries
    have ofEntry := ofEntries entry List.mem_cons_self
    have ofRest : (Value.map rest).Within (· ∈ scopes) :=
      (Value.within_map rest).mpr fun other mem => ofEntries other (List.mem_cons_of_mem entry mem)
    refine (spares.evaluate stage ofEntry.2 isScope free).bind stage
      fun value scopes' t grows stage' ofValue => ?_
    exact ih stage' (Entries.within_insert (ofMade.grow grows) (ofEntry.1.grow grows) ofValue)
      (ofRest.grow grows) (grows isScope)

/-- A list that calls no expander is a special form or a call. -/
theorem Spares.performList {env : Env} {head : Value} {arguments : List Value}
    (stage : Stage guarded scopes s)
    (ofItems : ∀ item ∈ head :: arguments, item.Within (· ∈ scopes)) (isScope : env ∈ scopes)
    (free : ¬ guarded env.frame) :
    (performExpanded self env (.list (head :: arguments))).Keeps guarded scopes s
      fun scopes' progress => progress.Avoids guarded scopes' := by
  have ofHead := ofItems head List.mem_cons_self
  have ofArguments := fun argument mem => ofItems argument (List.mem_cons_of_mem head mem)
  unfold SmallLisp.performExpanded
  dsimp only
  split
  · exact spares.performSpecial _ stage ofArguments isScope free
  · refine (spares.evaluate stage ofHead isScope free).bind stage
      fun callee scopes' t grows stage' ofCallee => ?_
    have ofArguments' := fun argument mem => (ofArguments argument mem).grow grows
    refine (spares.evaluateEach stage' ofArguments' (grows isScope) free).bind stage'
      fun values scopes'' u grows' stage'' ofValues => ?_
    exact .pure stage'' ⟨⟨ofCallee.grow grows', ofValues, grows' (grows isScope)⟩, trivial⟩

theorem Spares.performExpanded {env : Env} {form : Value} (stage : Stage guarded scopes s)
    (ofForm : form.Within (· ∈ scopes)) (isScope : env ∈ scopes) (free : ¬ guarded env.frame) :
    (performExpanded self env form).Keeps guarded scopes s
      fun scopes' progress => progress.Avoids guarded scopes' := by
  cases form with
  | seq kind items =>
    have ofItems := (Value.within_seq _ _).mp ofForm
    cases kind with
    | vector =>
      exact (spares.evaluateEach stage ofItems isScope free).bind stage
        fun values _ _ _ stage' ofValues => .pure stage' ((Value.within_seq _ _).mpr ofValues)
    | list =>
      cases items with
      | nil => exact .pure stage ofForm
      | cons head arguments => exact spares.performList stage ofItems isScope free
  | map entries =>
    exact (spares.evaluateEntries stage (by simp) ofForm isScope free).bind stage
      fun made _ _ _ stage' ofMade => .pure stage' ofMade
  | symbol name =>
    exact (Eval.Keeps.lookup stage env name).bind stage
      fun value _ _ _ stage' ofValue => .pure stage' ofValue
  | nil | bool | number | string | keyword | atom | native | procedure => exact .pure stage ofForm

omit spares in
theorem within_of_expansion? {env : Env} {form : Value} {expansion : Expansion}
    (within : s.Within scopes) (ofForm : form.Within (· ∈ scopes))
    (called : expansion? s env form = some expansion) :
    expansion.body.Within (· ∈ scopes) ∧ expansion.scope ∈ scopes ∧
      ∀ argument ∈ expansion.arguments, argument.Within (· ∈ scopes) := by
  obtain ⟨name, id, rfl, bound⟩ := expansion?_eq_some_iff.mp called
  have ofExpander := (Value.within_procedure ..).mp (within.lookup bound)
  refine ⟨ofExpander.2.1, ofExpander.2.2, fun argument mem => ?_⟩
  exact (Value.within_seq _ _).mp ofForm argument (List.mem_cons_of_mem _ mem)

theorem Spares.expandOnce {env : Env} {form : Value} {expansion : Expansion}
    (stage : Stage guarded scopes s) (ofForm : form.Within (· ∈ scopes))
    (called : expansion? s env form = some expansion) :
    (expandOnce self expansion).Keeps guarded scopes s
      fun scopes' result => result.Within (· ∈ scopes') := by
  obtain ⟨ofBody, isScope, ofArguments⟩ := within_of_expansion? stage.within ofForm called
  exact (enter_keeps stage ofBody isScope ofArguments).bind stage
    fun task scopes' t _ stage' next => spares task scopes' t stage' next.1 next.2

/-- One task, performed with runs that leave guarded frames alone, does so itself. -/
theorem Spares.perform (task : Task) (stage : Stage guarded scopes s)
    (within : task.Within (· ∈ scopes)) (avoids : task.Avoids guarded) :
    (perform self task).Keeps guarded scopes s
      fun scopes' progress => progress.Avoids guarded scopes' := by
  cases task with
  | evaluate form env =>
    rw [SmallLisp.perform, Eval.Keeps, Eval.leads_bind, Eval.leads_get]
    split
    · rename_i expansion called
      exact (spares.expandOnce stage within.1 called).bind stage
        fun result _ _ grows stage' ofResult => .pure stage' ⟨⟨ofResult, grows within.2⟩, avoids⟩
    · exact spares.performExpanded stage within.1 within.2 avoids
  | expand form env =>
    rw [SmallLisp.perform, Eval.Keeps, Eval.leads_bind, Eval.leads_get]
    split
    · rename_i expansion called
      exact (spares.expandOnce stage within.1 called).bind stage
        fun result _ _ grows stage' ofResult => .pure stage' ⟨⟨ofResult, grows within.2⟩, trivial⟩
    · exact Eval.Keeps.pure stage within.1
  | call callee arguments env => exact spares.performCall stage within.1 within.2.1 within.2.2

/-- A `let*` form that calls no expander spares even the frame of its own scope. -/
theorem Spares.perform_bindings {env : Env} {parts : List Value} (stage : Stage guarded scopes s)
    (ofParts : ∀ part ∈ parts, part.Within (· ∈ scopes)) (isScope : env ∈ scopes)
    (plain : expansion? s env (SpecialForm.bindings.form parts) = none) :
    (SmallLisp.perform self (.evaluate (SpecialForm.bindings.form parts) env)).Keeps guarded
      scopes s fun scopes' progress => progress.Avoids guarded scopes' := by
  rw [SmallLisp.perform, Eval.Keeps, Eval.leads_bind, Eval.leads_get, plain]
  have keeps := spares.performBindings parts stage ofParts isScope
  exact keeps

end Parts

/-- Runs leave guarded frames alone, however much fuel they have. -/
theorem run_spares (fuel : Nat) : Spares guarded (run fuel) := by
  induction fuel with
  | zero => exact fun task scopes s stage _ _ => ⟨scopes, .refl stage.within, trivial⟩
  | succ fuel ih =>
    intro task scopes s stage within avoids
    -- What takes the place of a task begins with the scopes that the task has opened.
    rw [run_succ]
    refine (ih.perform task stage within avoids).bind stage
      fun progress scopes' t _ stage' next => ?_
    cases progress with
    | done value => exact .pure stage' next
    | next task => exact ih task scopes' t stage' next.1 next.2

/-- A `let*` form that calls no expander spares even the frame of its own scope: its names are
bound, and its body is evaluated, in a scope whose frame is new. -/
theorem evaluate_bindings_keeps (fuel : Nat) {env : Env} {parts : List Value}
    (stage : Stage guarded scopes s) (ofParts : ∀ part ∈ parts, part.Within (· ∈ scopes))
    (isScope : env ∈ scopes)
    (plain : expansion? s env (SpecialForm.bindings.form parts) = none) :
    (run fuel (.evaluate (SpecialForm.bindings.form parts) env)).Keeps guarded scopes s
      fun scopes' value => value.Within (· ∈ scopes') := by
  cases fuel with
  | zero => exact ⟨scopes, .refl stage.within, trivial⟩
  | succ fuel =>
    rw [run_succ]
    refine ((run_spares fuel).perform_bindings stage ofParts isScope plain).bind stage
      fun progress scopes' t _ stage' next => ?_
    cases progress with
    | done value => exact .pure stage' next
    | next task => exact run_spares fuel task scopes' t stage' next.1 next.2

end SmallLisp
