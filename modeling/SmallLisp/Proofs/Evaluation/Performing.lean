import SmallLisp.Proofs.Evaluation.Soundness

/-!
# What one step comes to

What performing a task comes to, form by form, and what the functions of the evaluator come to that
have a part in it. Nothing is said of how further tasks are performed, so all of this holds for runs
with any amount of fuel, and for whatever else performs tasks.

## Main definitions

* `Work.via`: a work as a computation, given how to perform tasks
* `defineAs`: what the two forms that bind a name have in common

## Main results

* `perform_special`, `perform_expander`, `perform_application`: the step of a list, by its head
* `defineAs_of_ok`, `makeFunction_eq`, `evaluateBindings_eq`: what parts of special forms come to
* `runNative_swap`, `runNative_apply`, `runNative_map`: functions that call other functions
* `via_each_cons`, `via_body_next`, `via_entries_cons`, `via_bindings_cons`: works of several parts
-/

namespace SmallLisp

/-- A work as a computation, given how to perform tasks. -/
def Work.via (self : Task → Eval Value) : Work → Eval Value
  | .task t => self t
  | .each tasks => .list <$> tasks.mapM self
  | .body [] _ => pure .nil
  | .body (form :: rest) env => do self (.evaluate (← evaluateAllButLast self env form rest) env)
  | .entries made rest env => .map <$> evaluateEntries self env made rest
  | .bindings items scope => do
    bindEach self scope items
    return .nil

/-- Binds a name to what is made of the value of a form. -/
def defineAs (self : Task → Eval Value) (accept : Value → Except Error Value) (env : Env)
    (name form : Value) : Eval Value := do
  let text ← Eval.ofExcept name.expectSymbol
  let value ← self (.evaluate form env)
  let made ← Eval.ofExcept (accept value)
  Eval.define env text made
  return made

/-- How a definition ends whose form has a value. -/
def definitionEnding (accept : Value → Except Error Value) (env : Env) (text : String)
    (value : Value) (t : Store) : Ending Value :=
  match accept value with
  | .ok made => .ok made (t.defined env.frame text made)
  | .error error => .error (.failure error) t

/-! ### What performing a task comes to -/

section Perform

variable {self : Task → Eval Value} {env : Env} {s : Store}

theorem evaluateEach_eq (env : Env) (forms : List Value) :
    evaluateEach self env forms = (forms.map (.evaluate · env)).mapM self := by
  rw [List.mapM_map]
  rfl

theorem perform_plain {form : Value} (plain : expansion? s env form = none) :
    perform self (.evaluate form env) s = performExpanded self env form s := by
  rw [perform, Eval.bind_of_ok (Eval.get_eq s), plain]

theorem perform_symbol (name : String) :
    perform self (.evaluate (.symbol name) env) s =
      (do return .done (← Eval.lookup env name) : Eval Progress) s :=
  perform_plain rfl

theorem perform_vector (forms : List Value) :
    perform self (.evaluate (.vector forms) env) s =
      (do
        return .done (.vector (← (forms.map (.evaluate · env)).mapM self)) : Eval Progress) s := by
  rw [perform_plain rfl, performExpanded, evaluateEach_eq]

theorem perform_map (entries : Entries) :
    perform self (.evaluate (.map entries) env) s =
      (do return .done (← (Work.entries [] entries env).via self) : Eval Progress) s := by
  rw [perform_plain rfl, performExpanded, Work.via]
  simp only [bind_map_left]

section Expanders

variable {name : String} {id : ProcedureId} {parameters : List Value} {body : Value} {scope : Env}
  (bound : s.lookup? env name = some (.procedure .expander id parameters body scope))
  (arguments : List Value)
include bound

theorem perform_expander :
    perform self (.evaluate (.list (.symbol name :: arguments)) env) s =
      (do return .next (.evaluate (← expandOnce self ⟨parameters, body, scope, arguments⟩) env) :
        Eval Progress) s := by
  rw [perform, Eval.bind_of_ok (Eval.get_eq s)]
  simp only [expansion?, bound]

theorem perform_expand :
    perform self (.expand (.list (.symbol name :: arguments)) env) s =
      (do return .next (.expand (← expandOnce self ⟨parameters, body, scope, arguments⟩) env) :
        Eval Progress) s := by
  rw [perform, Eval.bind_of_ok (Eval.get_eq s)]
  simp only [expansion?, bound]

end Expanders

theorem perform_expand_plain {form : Value} (plain : expansion? s env form = none) :
    perform self (.expand form env) s = .ok (.done form) s := by
  rw [perform, Eval.bind_of_ok (Eval.get_eq s), plain]
  rfl

theorem perform_special {special : SpecialForm} {parts : List Value}
    (plain : expansion? s env (special.form parts) = none) :
    perform self (.evaluate (special.form parts) env) s =
      performSpecial self env special parts s := by
  rw [perform_plain plain, performExpanded, specialForm?_keyword]

theorem expanderOf_eq_error {value : Value} (notProcedure : value.procedure? = none) :
    expanderOf value = .error (.wrongType .function value.type) := by
  cases value <;> first | rfl | simp [Value.procedure?] at notProcedure

theorem performCall_of_notFunction {callee : Value} {arguments : List Value}
    (notNative : callee.native? = none) (notProcedure : callee.procedure? = none) :
    performCall self env callee arguments s =
      .error (.failure (.notFunction (s.readableText callee))) s := by
  cases callee with
  | native f => simp [Value.native?] at notNative
  | procedure kind id parameters body scope => simp [Value.procedure?] at notProcedure
  | _ => rfl

/-- A call is performed when its items are evaluated, of which the head is the first. -/
theorem perform_application {head : Value} {arguments : List Value}
    (plain : expansion? s env (.list (head :: arguments)) = none)
    (ordinary : ∀ special : SpecialForm, head ≠ .symbol special.keyword) :
    perform self (.evaluate (.list (head :: arguments)) env) s =
      (do
        let values ← ((head :: arguments).map (.evaluate · env)).mapM self
        return .next (.call (values.headD .nil) values.tail env) : Eval Progress) s := by
  rw [perform_plain plain, performExpanded, specialForm?_eq_none_iff.mpr ordinary, List.map_cons,
    List.mapM_cons, List.mapM_map, bind_assoc]
  simp only [bind_assoc]
  rfl

theorem perform_constant {form : Value} (isConstant : form.IsConstant) :
    perform self (.evaluate form env) s = .ok (.done form) s := by
  match form with
  | .list [] | .nil | .bool _ | .number _ | .string _ | .keyword _ | .atom _ | .native _
  | .procedure .. => rfl

/-! ### What the parts of special forms come to -/

theorem perform_missingPart {special : SpecialForm} {parts : List Value}
    (plain : expansion? s env (special.form parts) = none)
    (tooFew : parts.length < special.leastParts) :
    perform self (.evaluate (special.form parts) env) s =
      .error (.failure (.missingPart special)) s := by
  rw [perform_special plain, performSpecial_of_tooFew tooFew]
  rfl

theorem makeFunction_eq {parameters : Value} {items : List Value} (body : Value)
    (isSeq : parameters.items? = some items) (named : ∀ item ∈ items, item.symbol?.isSome) :
    makeFunction env parameters body = Eval.newFunction items body env := by
  have none_unnamed : items.find? (fun item => item.symbol?.isNone) = none := by
    refine List.find?_eq_none.mpr fun item mem => ?_
    simpa [Option.isSome_iff_ne_none] using named item mem
  rw [makeFunction, isSeq]
  simp only [none_unnamed]

theorem makeFunction_of_notSymbol {parameters item : Value} {named rest : List Value} (body : Value)
    (isSeq : parameters.items? = some (named ++ item :: rest))
    (before : ∀ item ∈ named, item.symbol?.isSome) (notSymbol : item.symbol? = none) :
    makeFunction env parameters body = Eval.fail (.binder (.parameter item.type)) := by
  have first_unnamed :
      (named ++ item :: rest).find? (fun item => item.symbol?.isNone) = some item := by
    refine List.find?_eq_some_iff_append.mpr
      ⟨by simp [notSymbol], named, rest, rfl, fun other mem => ?_⟩
    simpa [Option.isSome_iff_ne_none] using before other mem
  rw [makeFunction, isSeq]
  simp only [first_unnamed]

theorem makeFunction_of_notSeq {parameters : Value} (body : Value)
    (notSeq : parameters.items? = none) :
    makeFunction env parameters body = Eval.fail (.binder (.parameterList parameters.type)) := by
  rw [makeFunction, notSeq]

section Definitions

variable {accept : Value → Except Error Value} {name form value : Value} {text : String}
  {more : List Value} {t : Store} {halt : Halt}

theorem defineAs_of_notSymbol (notSymbol : name.symbol? = none) :
    defineAs self accept env name form s =
      .error (.failure (.wrongType .symbol name.type)) s := by
  rw [defineAs, Value.expectSymbol, notSymbol]
  rfl

/-- The value is made into what is bound, or refused, after the form and before the binding. -/
theorem defineAs_of_ok (returns : self (.evaluate form env) s = .ok value t) :
    defineAs self accept env (.symbol text) form s = definitionEnding accept env text value t := by
  refine (Eval.bind_of_ok rfl).trans ((Eval.bind_of_ok returns).trans ?_)
  rw [definitionEnding]
  cases accept value with
  | ok made => rfl
  | error error => rfl

theorem defineAs_of_error (stops : self (.evaluate form env) s = .error halt t) :
    defineAs self accept env (.symbol text) form s = .error halt t :=
  (Eval.bind_of_ok rfl).trans (Eval.bind_of_error stops)

theorem definitionEnding_of_refused {error : Error} (refuses : accept value = .error error) :
    definitionEnding accept env text value t = .error (.failure error) t := by
  rw [definitionEnding, refuses]

theorem performSpecial_define (self : Task → Eval Value) (name form : Value) (more : List Value) :
    performSpecial self env .define (name :: form :: more) =
      Progress.done <$> defineAs self .ok env name form := by
  rw [← bind_pure_comp]
  rfl

theorem performSpecial_defineExpander (self : Task → Eval Value) (name form : Value)
    (more : List Value) :
    performSpecial self env .defineExpander (name :: form :: more) =
      Progress.done <$> defineAs self expanderOf env name form := by
  rw [← bind_pure_comp]
  rfl

end Definitions

theorem evaluateBindings_eq {bindings : Value} {items : List Value}
    (isSeq : bindings.items? = some items) (paired : items.length % 2 = 0) :
    evaluateBindings self env bindings = (do
      let scope ← Eval.openScope env []
      bindEach self scope items
      return scope) := by
  rw [evaluateBindings, isSeq]
  simp [paired]

section Bindings

variable {bindings : Value} {items : List Value} {t : Store} {halt : Halt}

theorem evaluateBindings_of_ok (isSeq : bindings.items? = some items)
    (paired : items.length % 2 = 0)
    (binds : bindEach self (env.nest s.frames.size) items (s.opened []) = .ok () t) :
    evaluateBindings self env bindings s = .ok (env.nest s.frames.size) t := by
  rw [evaluateBindings_eq isSeq paired]
  exact (Eval.bind_of_ok rfl).trans (Eval.bind_of_ok binds)

theorem evaluateBindings_of_error (isSeq : bindings.items? = some items)
    (paired : items.length % 2 = 0)
    (stops : bindEach self (env.nest s.frames.size) items (s.opened []) = .error halt t) :
    evaluateBindings self env bindings s = .error halt t := by
  rw [evaluateBindings_eq isSeq paired]
  exact (Eval.bind_of_ok rfl).trans (Eval.bind_of_error stops)

theorem evaluateBindings_of_notSeq (notSeq : bindings.items? = none) :
    evaluateBindings self env bindings s =
      .error (.failure (.binder (.bindingList bindings.type))) s := by
  rw [evaluateBindings, notSeq]
  rfl

theorem evaluateBindings_of_odd (isSeq : bindings.items? = some items)
    (odd : items.length % 2 = 1) :
    evaluateBindings self env bindings s = .error (.failure (.binder .oddBindings)) s := by
  rw [evaluateBindings, isSeq]
  simp only [odd]
  rfl

end Bindings

/-! ### What calling a native function comes to -/

theorem runNative_operation {operation : Operation} {arguments : List Value}
    (admitted : (Native.operation operation).arity.admits arguments.length) :
    runNative self env (.operation operation) arguments =
      Eval.ofExcept (operation.run arguments) := by
  unfold runNative
  exact if_pos admitted

theorem runNative_operation_of_ok {operation : Operation} {arguments : List Value} {value : Value}
    (admitted : (Native.operation operation).arity.admits arguments.length)
    (computes : operation.run arguments = .ok value) :
    runNative self env (.operation operation) arguments s = .ok value s := by
  rw [runNative_operation admitted]
  exact Eval.ofExcept_of_ok computes

theorem runNative_operation_of_error {operation : Operation} {arguments : List Value}
    {error : Error} (admitted : (Native.operation operation).arity.admits arguments.length)
    (fails : operation.run arguments = .error error) :
    runNative self env (.operation operation) arguments s = .error (.failure error) s := by
  rw [runNative_operation admitted]
  exact Eval.ofExcept_of_error fails

theorem runNative_effect {effect : Effect} {arguments : List Value}
    (admitted : (Native.effect effect).arity.admits arguments.length) :
    runNative self env (.effect effect) arguments = effect.run arguments := by
  unfold runNative
  exact if_pos admitted

theorem runNative_control {control : Control} {arguments : List Value}
    (admitted : (Native.control control).arity.admits arguments.length) :
    runNative self env (.control control) arguments = runControl self env control arguments := by
  unfold runNative
  exact if_pos admitted

theorem runNative_of_refused {f : Native} {arguments : List Value}
    (refused : f.arity.admits arguments.length = false) :
    runNative self env f arguments = Eval.fail (.wrongCount f arguments.length) := by
  unfold runNative
  rw [if_neg (by simp [refused])]

theorem runNative_swap (atom callee : Value) (more : List Value) :
    runNative self env (.control .swap) (atom :: callee :: more) =
      swapAtom self atom callee more env :=
  runNative_control (by simp [Native.arity, Native.signature, Control.signature, Arity.admits])

section Swap

variable {cell : CellId} {callee atom value : Value} {more : List Value} {t : Store} {halt : Halt}

theorem swapAtom_of_ok
    (calls : self (.call callee (s.contents cell :: more) env) s = .ok value t) :
    swapAtom self (.atom cell) callee more env s = .ok value (t.written cell value) :=
  (Eval.bind_of_ok rfl).trans ((Eval.bind_of_ok rfl).trans (Eval.bind_of_ok calls))

theorem swapAtom_of_error
    (stops : self (.call callee (s.contents cell :: more) env) s = .error halt t) :
    swapAtom self (.atom cell) callee more env s = .error halt t :=
  (Eval.bind_of_ok rfl).trans ((Eval.bind_of_ok rfl).trans (Eval.bind_of_error stops))

theorem runNative_swap_of_notAtom (notAtom : atom.cell? = none) :
    runNative self env (.control .swap) (atom :: callee :: more) s =
      .error (.failure (.wrongType .atom atom.type)) s := by
  rw [runNative_swap, swapAtom, Value.expectCell, notAtom]
  rfl

end Swap

theorem runNative_apply (callee : Value) (leading : List Value) (last : Value) :
    runNative self env (.control .apply) (callee :: (leading ++ [last])) = (do
      let spread ← Eval.ofExcept last.expectItems
      self (.call callee (leading ++ spread) env)) := by
  have admitted : (Native.control .apply).arity.admits (callee :: (leading ++ [last])).length := by
    simp [Native.arity, Native.signature, Control.signature, Arity.admits]
  obtain ⟨first, more, split⟩ : ∃ first more, leading ++ [last] = first :: more :=
    List.exists_cons_of_ne_nil (by simp)
  rw [runNative_control admitted, split]
  simp only [runControl, applyTo, ← split, List.dropLast_concat, List.getLastD_concat]

theorem runNative_map (callee sequence : Value) :
    runNative self env (.control .map) [callee, sequence] = (do
      let items ← Eval.ofExcept sequence.expectItems
      return .list (← callEach self callee env items)) :=
  runNative_control rfl

section Spread

variable {callee sequence : Value} {items leading : List Value}

theorem expectItems_of_notSeq (notSeq : sequence.items? = none) :
    sequence.expectItems = .error (.wrongType .sequence sequence.type) := by
  rw [Value.expectItems, notSeq]
  rfl

theorem runNative_apply_of_items (spread : sequence.items? = some items) :
    runNative self env (.control .apply) (callee :: (leading ++ [sequence])) s =
      self (.call callee (leading ++ items) env) s := by
  rw [runNative_apply, Value.expectItems, spread]
  rfl

theorem runNative_apply_of_notSeq (notSeq : sequence.items? = none) :
    runNative self env (.control .apply) (callee :: (leading ++ [sequence])) s =
      .error (.failure (.wrongType .sequence sequence.type)) s := by
  rw [runNative_apply, expectItems_of_notSeq notSeq]
  rfl

/-- A function is called on each of the items as in a row of calls. -/
theorem runNative_map_of_items (isSeq : sequence.items? = some items) :
    runNative self env (.control .map) [callee, sequence] s =
      (Work.each (items.map fun item => .call callee [item] env)).via self s := by
  rw [runNative_map, Value.expectItems, isSeq, Work.via, List.mapM_map, ← bind_pure_comp]
  rfl

theorem runNative_map_of_notSeq (notSeq : sequence.items? = none) :
    runNative self env (.control .map) [callee, sequence] s =
      .error (.failure (.wrongType .sequence sequence.type)) s := by
  rw [runNative_map, expectItems_of_notSeq notSeq]
  rfl

end Spread

end Perform

/-! ### What works of several parts come to -/

section Via

variable {self : Task → Eval Value} {s t u : Store} {value : Value} {halt : Halt}
  {ending : Ending Value}

section Row

variable {task : Task} {rest : List Task} {values : List Value}

theorem via_each_eq_ok_iff {tasks : List Task} :
    (Work.each tasks).via self s = .ok (.list values) t ↔ tasks.mapM self s = .ok values t := by
  rw [Work.via, Eval.map_eq_ok_iff]
  constructor
  · rintro ⟨results, ends, same⟩
    cases same
    exact ends
  · intro ends
    exact ⟨values, ends, rfl⟩

theorem via_each_eq_error_iff {tasks : List Task} :
    (Work.each tasks).via self s = .error halt t ↔ tasks.mapM self s = .error halt t :=
  Eval.map_eq_error_iff

theorem via_each_cons (first : self task s = .ok value t)
    (others : (Work.each rest).via self t = .ok (.list values) u) :
    (Work.each (task :: rest)).via self s = .ok (.list (value :: values)) u := by
  rw [via_each_eq_ok_iff] at others ⊢
  rw [List.mapM_cons]
  exact (Eval.bind_of_ok first).trans (Eval.bind_of_ok others)

theorem via_each_first_stops (stops : self task s = .error halt t) :
    (Work.each (task :: rest)).via self s = .error halt t := by
  rw [via_each_eq_error_iff, List.mapM_cons]
  exact Eval.bind_of_error stops

theorem via_each_rest_stops (first : self task s = .ok value t)
    (stops : (Work.each rest).via self t = .error halt u) :
    (Work.each (task :: rest)).via self s = .error halt u := by
  rw [via_each_eq_error_iff] at stops ⊢
  rw [List.mapM_cons]
  exact (Eval.bind_of_ok first).trans (Eval.bind_of_error stops)

end Row

section Forms

variable {form next : Value} {more : List Value} {made rest : Entries} {key : Value} {env : Env}

theorem via_body_next (first : self (.evaluate form env) s = .ok value t)
    (others : (Work.body (next :: more) env).via self t = ending) :
    (Work.body (form :: next :: more) env).via self s = ending := by
  rw [Work.via, evaluateAllButLast, bind_assoc]
  exact (Eval.bind_of_ok first).trans others

theorem via_body_stops (stops : self (.evaluate form env) s = .error halt t) :
    (Work.body (form :: next :: more) env).via self s = .error halt t := by
  rw [Work.via, evaluateAllButLast, bind_assoc]
  exact Eval.bind_of_error stops

theorem via_entries_cons (first : self (.evaluate form env) s = .ok value t)
    (others : (Work.entries (Entries.insert made key value) rest env).via self t = ending) :
    (Work.entries made ((key, form) :: rest) env).via self s = ending := by
  rw [Work.via, evaluateEntries, map_bind]
  exact (Eval.bind_of_ok first).trans others

theorem via_entries_stops (stops : self (.evaluate form env) s = .error halt t) :
    (Work.entries made ((key, form) :: rest) env).via self s = .error halt t := by
  rw [Work.via, evaluateEntries, map_bind]
  exact Eval.bind_of_error stops

end Forms

section Names

variable {name : String} {form : Value} {items rest : List Value} {scope : Env}

theorem bindEach_of_via_eq_ok (ends : (Work.bindings items scope).via self s = .ok value t) :
    bindEach self scope items s = .ok () t := by
  rw [Work.via] at ends
  cases binds : bindEach self scope items s with
  | ok _ after =>
    rw [Eval.bind_of_ok binds] at ends
    cases ends
    rfl
  | error halt after =>
    rw [Eval.bind_of_error binds] at ends
    cases ends

theorem bindEach_of_via_eq_error (stops : (Work.bindings items scope).via self s = .error halt t) :
    bindEach self scope items s = .error halt t := by
  rw [Work.via] at stops
  cases binds : bindEach self scope items s with
  | ok _ after =>
    rw [Eval.bind_of_ok binds] at stops
    cases stops
  | error halt after =>
    rw [Eval.bind_of_error binds] at stops
    cases stops
    rfl

theorem via_bindings_cons (first : self (.evaluate form scope) s = .ok value t)
    (others : (Work.bindings rest scope).via self (t.defined scope.frame name value) = ending) :
    (Work.bindings (.symbol name :: form :: rest) scope).via self s = ending := by
  rw [Work.via, bindEach, ← others]
  simp only [Value.symbol?, bind_assoc]
  exact (Eval.bind_of_ok first).trans (Eval.bind_of_ok rfl)

theorem via_bindings_form_stops (stops : self (.evaluate form scope) s = .error halt t) :
    (Work.bindings (.symbol name :: form :: rest) scope).via self s = .error halt t := by
  rw [Work.via, bindEach]
  simp only [Value.symbol?, bind_assoc]
  exact Eval.bind_of_error stops

theorem via_bindings_of_notSymbol {name : Value} (notSymbol : name.symbol? = none) :
    (Work.bindings (name :: form :: rest) scope).via self s =
      .error (.failure (.binder (.bindingName name.type))) s := by
  rw [Work.via, bindEach, notSymbol]
  rfl

end Names

end Via

end SmallLisp
