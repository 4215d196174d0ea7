import SmallLisp.Proofs.Evaluation.Rules

/-!
# Runs follow the rules

A run that does not spend all of its fuel ends as the rules of evaluation say. The rules know
complete works only, so a task that is replaced by another is accounted for by what every end of
the replacement would mean for it.

## Main definitions

* `Stops`: an early stop that the rules allow, or lack of fuel
* `Follows`: a way to perform tasks that ends as the rules say
* `Reaches`: what the progress of a task means for its end

## Main results

* `perform_follows`: one task, performed with runs that follow the rules, gets where they say
* `run_follows`: runs follow the rules
-/

namespace SmallLisp

/-- A work stops early where the rules allow it, or for lack of fuel. -/
def Stops (work : Work) (s : Store) (halt : Halt) (t : Store) : Prop :=
  halt = .exhausted ∨ Ends work s (.error halt t)

/-- A way to perform tasks that ends as the rules say, unless it lacks fuel. -/
def Follows (self : Task → Eval Value) : Prop :=
  ∀ task s, (self task).Leads s (fun value t => Ends (.task task) s (.ok value t))
    (Stops (.task task) s)

/-- What the progress of a task means for its end: the value is the task's value, and a task that
takes its place ends as the task would. -/
def Reaches (task : Task) (s : Store) : Progress → Store → Prop
  | .done value, t => Ends (.task task) s (.ok value t)
  | .next next, t => ∀ ending, Ends (.task next) t ending → Ends (.task task) s ending

/-! ### What the functions of the evaluator recognise -/

theorem expansion?_eq_some_iff {s : Store} {env : Env} {form : Value} {expansion : Expansion} :
    expansion? s env form = some expansion ↔
      ∃ name id, form = .list (.symbol name :: expansion.arguments) ∧
        s.lookup? env name = some
          (.procedure .expander id expansion.parameters expansion.body expansion.scope) := by
  constructor
  · intro h
    unfold expansion? at h
    split at h
    · split at h
      · rename_i bound
        cases h
        exact ⟨_, _, rfl, bound⟩
      · cases h
    · cases h
  · rintro ⟨name, id, rfl, bound⟩
    simp only [expansion?, bound]

theorem specialForm?_eq_some {head : Value} {special : SpecialForm}
    (h : specialForm? head = some special) : head = .symbol special.keyword := by
  unfold specialForm? at h
  split at h
  · rw [SpecialForm.keyword_of_ofKeyword? h]
  · cases h

theorem specialForm?_keyword (special : SpecialForm) :
    specialForm? (.symbol special.keyword) = some special :=
  SpecialForm.ofKeyword?_keyword special

theorem specialForm?_eq_none_iff {head : Value} :
    specialForm? head = none ↔ ∀ special : SpecialForm, head ≠ .symbol special.keyword := by
  constructor
  · rintro h special rfl
    rw [specialForm?_keyword] at h
    cases h
  · intro h
    cases hs : specialForm? head with
    | none => rfl
    | some special => exact absurd (specialForm?_eq_some hs) (h special)

theorem eq_symbol_of_symbol? {value : Value} {name : String} (h : value.symbol? = some name) :
    value = .symbol name := by
  cases value <;> simp [Value.symbol?] at h
  rw [h]

theorem eq_atom_of_cell? {value : Value} {cell : CellId} (h : value.cell? = some cell) :
    value = .atom cell := by
  cases value <;> simp [Value.cell?] at h
  rw [h]

/-! ### Works that consist of several -/

section Parts

variable {self : Task → Eval Value} (follows : Follows self)
include follows

theorem mapM_follows (tasks : List Task) (s : Store) :
    (tasks.mapM self).Leads s (fun values t => Ends (.each tasks) s (.ok (.list values) t))
      (Stops (.each tasks) s) := by
  -- The later tasks begin where the first one ends, so the store varies.
  induction tasks generalizing s with
  | nil => simpa using .each_nil
  | cons task rest ih =>
    rw [List.mapM_cons, Eval.leads_bind]
    refine (follows task s).mono (fun value t first => ?_)
      fun halt t stop => stop.imp_right .each_first_stops
    rw [Eval.leads_bind]
    exact (ih t).mono (fun values u others => .each_cons first others)
      fun halt u stop => stop.imp_right (.each_rest_stops first)

theorem evaluateEach_follows (env : Env) (forms : List Value) (s : Store) :
    (evaluateEach self env forms).Leads s
      (fun values t => Ends (.each (forms.map (.evaluate · env))) s (.ok (.list values) t))
      (Stops (.each (forms.map (.evaluate · env))) s) := by
  have h := mapM_follows follows (forms.map (.evaluate · env)) s
  rwa [List.mapM_map] at h

theorem callEach_follows (callee : Value) (env : Env) (values : List Value) (s : Store) :
    (callEach self callee env values).Leads s
      (fun results t =>
        Ends (.each (values.map fun value => .call callee [value] env)) s (.ok (.list results) t))
      (Stops (.each (values.map fun value => .call callee [value] env)) s) := by
  have h := mapM_follows follows (values.map fun value => .call callee [value] env) s
  rwa [List.mapM_map] at h

theorem evaluateAllButLast_follows (env : Env) (form : Value) (rest : List Value) (s : Store) :
    (evaluateAllButLast self env form rest).Leads s
      (fun last t => ∀ ending, Ends (.evaluate last env) t ending →
        Ends (.body (form :: rest) env) s ending)
      (Stops (.body (form :: rest) env) s) := by
  induction rest generalizing form s with
  | nil =>
    rw [evaluateAllButLast, Eval.leads_pure]
    exact fun ending => .body_last
  | cons next rest ih =>
    rw [evaluateAllButLast, Eval.leads_bind]
    refine (follows (.evaluate form env) s).mono (fun value t first => ?_)
      fun halt t stop => stop.imp_right .body_stops
    exact (ih next t).mono (fun last u goesOn ending h => .body_next first (goesOn ending h))
      fun halt u stop => stop.imp_right (.body_next first)

theorem evaluateEntries_follows (env : Env) (made rest : Entries) (s : Store) :
    (evaluateEntries self env made rest).Leads s
      (fun entries t => Ends (.entries made rest env) s (.ok (.map entries) t))
      (Stops (.entries made rest env) s) := by
  induction rest generalizing made s with
  | nil =>
    rw [evaluateEntries, Eval.leads_pure]
    exact .entries_nil
  | cons entry rest ih =>
    obtain ⟨key, form⟩ := entry
    rw [evaluateEntries, Eval.leads_bind]
    refine (follows (.evaluate form env) s).mono (fun value t first => ?_)
      fun halt t stop => stop.imp_right .entries_stops
    exact (ih _ t).mono (fun entries u others => .entries_cons first others)
      fun halt u stop => stop.imp_right (.entries_cons first)

theorem bindEach_follows (scope : Env) (items : List Value) (paired : items.length % 2 = 0)
    (s : Store) :
    (bindEach self scope items).Leads s
      (fun _ t => Ends (.bindings items scope) s (.ok .nil t))
      (Stops (.bindings items scope) s) := by
  -- Bindings are taken two items at a time.
  induction items using bindEach.induct generalizing s with
  | case1 name form rest text named ih =>
    obtain rfl := eq_symbol_of_symbol? named
    simp only [bindEach, Value.symbol?, Eval.leads_bind, Eval.leads_define]
    refine (follows (.evaluate form scope) s).mono (fun value t first => ?_)
      fun halt t stop => stop.imp_right .bindings_form_stops
    have rest_paired : rest.length % 2 = 0 := by
      simp only [List.length_cons] at paired
      omega
    exact (ih rest_paired _).mono (fun _ u others => .bindings_cons first others)
      fun halt u stop => stop.imp_right (.bindings_cons first)
  | case2 name form rest notSymbol =>
    simp only [bindEach, notSymbol, Eval.leads_fail]
    exact .inr (.bindings_notSymbol notSymbol)
  | case3 items short =>
    -- Fewer than two items that come in pairs are none.
    rcases items with _ | ⟨name, _ | ⟨form, rest⟩⟩
    · simpa [bindEach] using Ends.bindings_nil
    · simp at paired
    · exact (short name form rest rfl).elim

/-! ### Calls -/

omit follows in
/-- Entering a procedure's body is how a call of the procedure goes on, whichever sort of
procedure it is and wherever it is called from. -/
theorem enter_follows (kind : ProcedureKind) (id : ProcedureId) (parameters : List Value)
    (body : Value) (scope : Env) (arguments : List Value) (env : Env) (s : Store) :
    (enter parameters body scope arguments).Leads s
      (fun task t => Reaches (.call (.procedure kind id parameters body scope) arguments env) s
        (.next task) t)
      (Stops (.call (.procedure kind id parameters body scope) arguments env) s) := by
  rw [enter, Eval.leads_bind, Eval.leads_extend]
  exact ⟨fun bindings binds ending => .procedure binds,
    fun error fails => .inr (.procedure_fails fails)⟩

theorem expandOnce_follows {expansion : Expansion} {env : Env} {form : Value} {s : Store}
    (h : expansion? s env form = some expansion) :
    ∃ name id,
      form = .list (.symbol name :: expansion.arguments) ∧
      s.lookup? env name = some
        (.procedure .expander id expansion.parameters expansion.body expansion.scope) ∧
      (expandOnce self expansion).Leads s
        (fun value t => Ends (.call (.procedure .expander id expansion.parameters expansion.body
          expansion.scope) expansion.arguments env) s (.ok value t))
        (Stops (.call (.procedure .expander id expansion.parameters expansion.body
          expansion.scope) expansion.arguments env) s) := by
  obtain ⟨name, id, shape, bound⟩ := expansion?_eq_some_iff.mp h
  refine ⟨name, id, shape, bound, ?_⟩
  -- The body is run to its end at once, and what it ends with is what the call would.
  rw [expandOnce, Eval.leads_bind]
  refine (enter_follows .expander id _ _ _ _ env s).mono (fun task t goesOn => ?_)
    fun _ _ stop => stop
  exact (follows task t).mono (fun value u ends => goesOn _ ends)
    fun halt u stop => stop.imp_right (goesOn _)

theorem swapAtom_follows (atom callee : Value) (more : List Value) (env : Env) (s : Store) :
    (swapAtom self atom callee more env).Leads s
      (fun value t =>
        Ends (.call (.native (.control .swap)) (atom :: callee :: more) env) s (.ok value t))
      (Stops (.call (.native (.control .swap)) (atom :: callee :: more) env) s) := by
  rw [swapAtom, Eval.leads_bind, Value.expectCell, Eval.leads_expect]
  refine ⟨fun cell isAtom => ?_, fun notAtom => .inr (.swap_notAtom notAtom)⟩
  obtain rfl := eq_atom_of_cell? isAtom
  simp only [Eval.leads_bind, Eval.leads_readCell, Eval.leads_writeCell, Eval.leads_pure]
  exact (follows _ s).mono (fun value t => .swap) fun halt t stop => stop.imp_right .swap_stops

theorem applyTo_follows (callee first : Value) (more : List Value) (env : Env) (s : Store) :
    (applyTo self callee first more env).Leads s
      (fun value t =>
        Ends (.call (.native (.control .apply)) (callee :: first :: more) env) s (.ok value t))
      (Stops (.call (.native (.control .apply)) (callee :: first :: more) env) s) := by
  -- The rules take the arguments apart at the last one.
  have split : first :: more = (first :: more).dropLast ++ [(first :: more).getLastD .nil] := by
    rw [List.getLastD_eq_getLast?, List.getLast?_eq_some_getLast (List.cons_ne_nil _ _),
      Option.getD_some, List.dropLast_concat_getLast]
  rw [applyTo, Eval.leads_bind, Value.expectItems, Eval.leads_expect]
  generalize (first :: more).dropLast = leading, (first :: more).getLastD .nil = last at split ⊢
  rw [split]
  refine ⟨fun items isSeq => ?_, fun notSeq => .inr (.apply_notSeq notSeq)⟩
  exact (follows _ s).mono (fun value t => .apply isSeq)
    fun halt t stop => stop.imp_right (.apply isSeq)

theorem runControl_follows (control : Control) (arguments : List Value) (env : Env) (s : Store)
    (admitted : (Native.control control).arity.admits arguments.length) :
    (runControl self env control arguments).Leads s
      (fun value t => Ends (.call (.native (.control control)) arguments env) s (.ok value t))
      (Stops (.call (.native (.control control)) arguments env) s) := by
  cases control with
  | swap =>
    obtain ⟨atom, callee, more, rfl⟩ := Arity.exists_of_atLeast_two admitted
    exact swapAtom_follows follows atom callee more env s
  | apply =>
    obtain ⟨callee, first, more, rfl⟩ := Arity.exists_of_atLeast_two admitted
    exact applyTo_follows follows callee first more env s
  | map =>
    obtain ⟨callee, sequence, rfl⟩ := Arity.exists_of_exactly_two admitted
    rw [runControl, Eval.leads_bind, Value.expectItems, Eval.leads_expect]
    refine ⟨fun items isSeq => ?_, fun notSeq => .inr (.mapping_notSeq notSeq)⟩
    rw [Eval.leads_bind]
    exact (callEach_follows follows callee env items s).mono (fun values t => .mapping isSeq)
      fun halt t stop => stop.imp_right (.mapping isSeq)
  | eval =>
    obtain ⟨form, rfl⟩ := Arity.exists_of_exactly_one admitted
    exact (follows _ s).mono (fun value t => .eval) fun halt t stop => stop.imp_right .eval

theorem runNative_follows (f : Native) (arguments : List Value) (env : Env) (s : Store) :
    (runNative self env f arguments).Leads s
      (fun value t => Ends (.call (.native f) arguments env) s (.ok value t))
      (Stops (.call (.native f) arguments env) s) := by
  unfold runNative
  split
  · rename_i admitted
    cases f with
    | operation operation =>
      rw [Eval.leads_ofExcept]
      exact ⟨fun value => .operation admitted,
        fun error fails => .inr (.operation_fails admitted fails)⟩
    | effect effect =>
      change (effect.run arguments).Leads s _ _
      exact Eval.leads_iff.mpr ⟨fun value t ends => ends ▸ .effect admitted,
        fun halt t ends => .inr (ends ▸ .effect admitted)⟩
    | control control => exact runControl_follows follows control arguments env s admitted
  · rename_i refused
    exact .inr (.wrongCount (by simpa using refused))

theorem performCall_follows (callee : Value) (arguments : List Value) (env : Env) (s : Store) :
    (performCall self env callee arguments).Leads s (Reaches (.call callee arguments env) s)
      (Stops (.call callee arguments env) s) := by
  cases callee with
  | native f =>
    rw [performCall, Eval.leads_bind]
    exact (runNative_follows follows f arguments env s).mono (fun value t h => h)
      fun _ _ stop => stop
  | procedure kind id parameters body scope =>
    rw [performCall, Eval.leads_bind]
    exact (enter_follows kind id parameters body scope arguments env s).mono
      (fun task t h => h) fun _ _ stop => stop
  | _ => exact .inr (.notFunction rfl rfl)

/-! ### Special forms -/

omit follows in
theorem makeFunction_follows {parameters body : Value} {more : List Value} {env : Env} {s : Store}
    (plain : expansion? s env (SpecialForm.function.form (parameters :: body :: more)) = none) :
    (makeFunction env parameters body).Leads s
      (fun value t => Ends (.evaluate (SpecialForm.function.form (parameters :: body :: more)) env)
        s (.ok value t))
      (Stops (.evaluate (SpecialForm.function.form (parameters :: body :: more)) env) s) := by
  unfold makeFunction
  split
  · rename_i notSeq
    exact .inr (.function_notSeq plain notSeq)
  · rename_i items isSeq
    -- The first parameter that is no symbol is the one complained of.
    split
    · rename_i item found
      obtain ⟨notSymbol, named, rest, rfl, before⟩ := List.find?_eq_some_iff_append.mp found
      refine .inr (.function_notSymbol plain isSeq (fun item mem => ?_) (by simpa using notSymbol))
      simpa [Option.isSome_iff_ne_none] using before item mem
    · rename_i notFound
      refine Ends.function plain isSeq fun item mem => ?_
      simpa [Option.isSome_iff_ne_none] using List.find?_eq_none.mp notFound item mem

theorem evaluateDefinition_follows {name form : Value} {more : List Value} {env : Env} {s : Store}
    (plain : expansion? s env (SpecialForm.define.form (name :: form :: more)) = none) :
    (evaluateDefinition self env name form).Leads s
      (fun value t =>
        Ends (.evaluate (SpecialForm.define.form (name :: form :: more)) env) s (.ok value t))
      (Stops (.evaluate (SpecialForm.define.form (name :: form :: more)) env) s) := by
  rw [evaluateDefinition, Eval.leads_bind, Value.expectSymbol, Eval.leads_expect]
  refine ⟨fun text named => ?_, fun notSymbol => .inr (.define_notSymbol plain notSymbol)⟩
  obtain rfl := eq_symbol_of_symbol? named
  simp only [Eval.leads_bind, Eval.leads_define, Eval.leads_pure]
  exact (follows _ s).mono (fun value t => .define plain)
    fun halt t stop => stop.imp_right (.define_stops plain)

theorem evaluateExpanderDefinition_follows {name form : Value} {more : List Value} {env : Env}
    {s : Store}
    (plain : expansion? s env (SpecialForm.defineExpander.form (name :: form :: more)) = none) :
    (evaluateExpanderDefinition self env name form).Leads s
      (fun value t =>
        Ends (.evaluate (SpecialForm.defineExpander.form (name :: form :: more)) env) s
          (.ok value t))
      (Stops (.evaluate (SpecialForm.defineExpander.form (name :: form :: more)) env) s) := by
  rw [evaluateExpanderDefinition, Eval.leads_bind, Value.expectSymbol, Eval.leads_expect]
  refine ⟨fun text named => ?_, fun notSymbol => .inr (.defineExpander_notSymbol plain notSymbol)⟩
  obtain rfl := eq_symbol_of_symbol? named
  rw [Eval.leads_bind]
  refine (follows _ s).mono (fun value t evaluates => ?_)
    fun halt t stop => stop.imp_right (.defineExpander_stops plain)
  cases value with
  | procedure kind id parameters body scope =>
    simp only [expanderOf, Eval.ofExcept, Eval.leads_bind, Eval.leads_define, Eval.leads_pure]
    exact .defineExpander plain evaluates
  -- The form has been evaluated by the time its value turns out to be no procedure.
  | _ => exact .inr (.defineExpander_notProcedure plain evaluates rfl)

theorem evaluateBindings_follows {bindings body : Value} {more : List Value} {env : Env} {s : Store}
    (plain : expansion? s env (SpecialForm.bindings.form (bindings :: body :: more)) = none) :
    (evaluateBindings self env bindings).Leads s
      (fun scope t => Reaches
        (.evaluate (SpecialForm.bindings.form (bindings :: body :: more)) env) s
        (.next (.evaluate body scope)) t)
      (Stops (.evaluate (SpecialForm.bindings.form (bindings :: body :: more)) env) s) := by
  unfold evaluateBindings
  split
  · rename_i notSeq
    exact .inr (.bindings_notSeq plain notSeq)
  · rename_i items isSeq
    split
    · rename_i odd
      exact .inr (.bindings_odd plain isSeq odd)
    · rename_i notOdd
      have paired : items.length % 2 = 0 := by omega
      rw [Eval.leads_bind, Eval.leads_openScope, Eval.leads_bind]
      exact (bindEach_follows follows _ items paired _).mono
        (fun _ t binds ending => .bindings plain isSeq paired binds)
        fun halt t stop => stop.imp_right (.bindings_stops plain isSeq paired)

omit follows in
/-- A special form that lacks a part fails. -/
theorem performSpecial_of_tooFew {special : SpecialForm} {parts : List Value} {env : Env}
    (tooFew : parts.length < special.leastParts) :
    performSpecial self env special parts = Eval.fail (.missingPart special) := by
  rcases parts with _ | ⟨first, _ | ⟨second, rest⟩⟩
  · cases special <;> rfl
  · cases special <;> first | rfl | simp [SpecialForm.leastParts] at tooFew
  · -- No special form asks for more than two parts.
    have atMostTwo := special.leastParts_le_two
    rw [List.length_cons, List.length_cons] at tooFew
    omega

theorem performSpecial_follows {special : SpecialForm} {parts : List Value} {env : Env} {s : Store}
    (plain : expansion? s env (special.form parts) = none) :
    (performSpecial self env special parts).Leads s (Reaches (.evaluate (special.form parts) env) s)
      (Stops (.evaluate (special.form parts) env) s) := by
  by_cases enough : (Arity.atLeast special.leastParts).admits parts.length = true
  case neg =>
    have tooFew : parts.length < special.leastParts := by simpa [Arity.admits] using enough
    rw [performSpecial_of_tooFew tooFew]
    exact .inr (.missingPart plain tooFew)
  cases special with
  | quote =>
    obtain ⟨form, more, rfl⟩ := Arity.exists_of_atLeast_one enough
    exact Ends.quote plain
  | quasiquote =>
    obtain ⟨template, more, rfl⟩ := Arity.exists_of_atLeast_one enough
    rw [performSpecial, Eval.leads_bind, Eval.leads_ofExcept]
    exact ⟨fun form expands ending => .quasiquote plain expands,
      fun error fails => .inr (.quasiquote_fails plain fails)⟩
  | sequence =>
    obtain ⟨form, more, rfl⟩ := Arity.exists_of_atLeast_one enough
    rw [performSpecial, Eval.leads_bind]
    exact (evaluateAllButLast_follows follows env form more s).mono
      (fun last t goesOn ending ends => .sequence plain (goesOn ending ends))
      fun halt t stop => stop.imp_right (.sequence plain)
  | conditional =>
    obtain ⟨condition, consequent, more, rfl⟩ := Arity.exists_of_atLeast_two enough
    rw [performSpecial, Eval.leads_bind]
    exact (follows (.evaluate condition env) s).mono
      (fun value t decides ending => .conditional plain decides)
      fun halt t stop => stop.imp_right (.conditional_stops plain)
  | function =>
    obtain ⟨parameters, body, more, rfl⟩ := Arity.exists_of_atLeast_two enough
    rw [performSpecial, Eval.leads_bind]
    exact (makeFunction_follows plain).mono (fun value t ends => ends) fun _ _ stop => stop
  | define =>
    obtain ⟨name, form, more, rfl⟩ := Arity.exists_of_atLeast_two enough
    rw [performSpecial, Eval.leads_bind]
    exact (evaluateDefinition_follows follows plain).mono (fun value t ends => ends)
      fun _ _ stop => stop
  | defineExpander =>
    obtain ⟨name, form, more, rfl⟩ := Arity.exists_of_atLeast_two enough
    rw [performSpecial, Eval.leads_bind]
    exact (evaluateExpanderDefinition_follows follows plain).mono (fun value t ends => ends)
      fun _ _ stop => stop
  | expand =>
    obtain ⟨form, more, rfl⟩ := Arity.exists_of_atLeast_one enough
    exact fun ending => Ends.expand plain
  | bindings =>
    obtain ⟨bindings, body, more, rfl⟩ := Arity.exists_of_atLeast_two enough
    rw [performSpecial, Eval.leads_bind]
    exact (evaluateBindings_follows follows plain).mono (fun scope t goesOn => goesOn)
      fun _ _ stop => stop

/-! ### Tasks and runs -/

theorem performExpanded_follows {form : Value} {env : Env} {s : Store}
    (plain : expansion? s env form = none) :
    (performExpanded self env form).Leads s (Reaches (.evaluate form env) s)
      (Stops (.evaluate form env) s) := by
  match form with
  | .list [] => exact Ends.constant trivial
  | .list (head :: arguments) =>
    unfold performExpanded
    dsimp only
    split
    · rename_i special named
      obtain rfl := specialForm?_eq_some named
      exact performSpecial_follows follows plain
    · rename_i notSpecial
      have ordinary := specialForm?_eq_none_iff.mp notSpecial
      -- The head is evaluated before the arguments, which the rules take as one row.
      rw [Eval.leads_bind]
      refine (follows (.evaluate head env) s).mono (fun callee t first => ?_)
        fun halt t stop => stop.imp_right fun h =>
          .application_stops plain ordinary (.each_first_stops h)
      rw [Eval.leads_bind]
      exact (evaluateEach_follows follows env arguments t).mono
        (fun values u others ending => .application plain ordinary (.each_cons first others))
        fun halt u stop =>
          stop.imp_right fun h => .application_stops plain ordinary (.each_rest_stops first h)
  | .vector forms =>
    rw [performExpanded, Eval.leads_bind]
    exact (evaluateEach_follows follows env forms s).mono (fun values t => .vector)
      fun halt t stop => stop.imp_right .vector_stops
  | .map entries =>
    rw [performExpanded, Eval.leads_bind]
    exact (evaluateEntries_follows follows env [] entries s).mono (fun values t => .map)
      fun halt t stop => stop.imp_right .map
  | .symbol name =>
    rw [performExpanded, Eval.leads_bind, Eval.leads_lookup]
    exact ⟨fun value => .symbol, fun free => .inr (.unbound free)⟩
  | .nil | .bool _ | .number _ | .string _ | .keyword _ | .atom _ | .native _ | .procedure .. =>
    exact Ends.constant trivial

/-- One task, performed with runs that follow the rules, gets where the rules say. -/
theorem perform_follows (task : Task) (s : Store) :
    (perform self task).Leads s (Reaches task s) (Stops (.task task) s) := by
  cases task with
  | evaluate form env =>
    rw [perform, Eval.leads_bind, Eval.leads_get]
    split
    · rename_i expansion called
      obtain ⟨name, id, rfl, bound, leads⟩ := expandOnce_follows follows called
      rw [Eval.leads_bind]
      exact leads.mono (fun value t expands ending => .expander bound expands)
        fun halt t stop => stop.imp_right (.expander_stops bound)
    · rename_i plain
      exact performExpanded_follows follows plain
  | expand form env =>
    rw [perform, Eval.leads_bind, Eval.leads_get]
    split
    · rename_i expansion called
      obtain ⟨name, id, rfl, bound, leads⟩ := expandOnce_follows follows called
      rw [Eval.leads_bind]
      exact leads.mono (fun value t expands ending => .expandOn bound expands)
        fun halt t stop => stop.imp_right (.expandOn_stops bound)
    · rename_i plain
      exact Ends.expanded plain
  | call callee arguments env => exact performCall_follows follows callee arguments env s

end Parts

/-- Runs follow the rules, however much fuel they have. -/
theorem run_follows (fuel : Nat) : Follows (run fuel) := by
  induction fuel with
  | zero => exact fun task s => .inl rfl
  | succ fuel ih =>
    intro task s
    rw [run_succ, Eval.leads_bind]
    refine (perform_follows ih task s).mono (fun progress t reaches => ?_) fun _ _ stop => stop
    cases progress with
    | done value => exact reaches
    -- Whatever the next task ends with, the task it takes the place of ends with.
    | next next =>
      exact (ih next t).mono (fun value u ends => reaches _ ends)
        fun halt u stop => stop.imp_right (reaches _)

end SmallLisp
