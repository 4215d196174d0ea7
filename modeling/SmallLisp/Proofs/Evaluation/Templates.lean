import SmallLisp.Proofs.Evaluation.Steps

/-!
# What a template describes

A quasiquoted template is rewritten into calls, and the calls are evaluated like any others. What
comes out is said here of the template itself: a template has places where values are put in, each
with an expression, and it describes a form, given the values. The expressions are evaluated once
each, from left to right, and nothing else is. Where a place has no expression, nothing is evaluated
at all.

## Main definitions

* `Template.Insertion`, `Template.insertions`: the places of a template where values are put in
* `Template.instantiate`: the form that a template describes, given the values
* `Store.BuildsTemplates`: a world in which the names that templates are rewritten with mean what
  they mean from the start

## Main results

* `Template.expand_of_insertions`: when a template can be rewritten
* `quasiquote_instantiates`: what a quasiquoted template evaluates to
-/

namespace SmallLisp

/-- A world in which the names that templates are rewritten with mean what they mean from the start:
`cons` and `concat` are the native functions, and the two special forms are no expanders. -/
structure Store.BuildsTemplates (store : Store) (env : Env) : Prop where
  cons : store.lookup? env "cons" = some (.native (.operation .cons))
  concat : store.lookup? env "concat" = some (.native (.operation .concat))
  quote : ¬ store.Expands env "quote"
  quasiquote : ¬ store.Expands env "quasiquote"

namespace Template

/-! ### The places of a template -/

/-- A place in a template where a value is put in: as it stands, or item by item. -/
structure Insertion where
  mark : TemplateMark
  /-- The expression whose value is put in, if there is one behind the mark. -/
  operand : Option Value
  isSpliced : Bool

mutual

/-- The places of a template where values are put in, from left to right. -/
def insertions : Value → List Insertion
  | .seq _ (head :: rest) =>
    if head.isSymbol TemplateMark.unquote.keyword then [⟨.unquote, rest.head?, false⟩]
    else itemInsertions (head :: rest)
  | _ => []

/-- The places in the tail of a sequence. At the head of a tail, the mark that asks for a value asks
for the items of the value. -/
def itemInsertions : List Value → List Insertion
  | [] => []
  | item :: rest =>
    if item.isSymbol TemplateMark.unquote.keyword then [⟨.unquote, rest.head?, true⟩]
    else
      match splice? item with
      | some operands => ⟨.spliceUnquote, operands.head?, true⟩ :: itemInsertions rest
      | none => insertions item ++ itemInsertions rest

end

/-- The expressions at some places, from left to right. -/
def operands (places : List Insertion) : List Value := places.filterMap (·.operand)

@[simp] theorem operands_append (places others : List Insertion) :
    operands (places ++ others) = operands places ++ operands others :=
  List.filterMap_append

/-- The next of the values that are put in. -/
def nextValue : StateM (List Value) Value := fun values => (values.headD .nil, values.tail)

/-- The items of the next of the values that are put in. -/
def nextItems : StateM (List Value) (List Value) := return (← nextValue).items?.getD []

mutual

/-- The form that a template describes, with values put in one after the other. -/
def build : Value → StateM (List Value) Value
  | .seq _ (head :: rest) =>
    if head.isSymbol TemplateMark.unquote.keyword then nextValue
    else return .list (← buildItems (head :: rest))
  | other => return other

/-- The items that the tail of a sequence describes. -/
def buildItems : List Value → StateM (List Value) (List Value)
  | [] => return []
  | item :: rest =>
    if item.isSymbol TemplateMark.unquote.keyword then nextItems
    else
      match splice? item with
      | some _ => return (← nextItems) ++ (← buildItems rest)
      | none => return (← build item) :: (← buildItems rest)

end

/-- The form that a template describes, given the values that are put in. -/
def instantiate (template : Value) (values : List Value) : Value := (build template values).1

section Build

variable {head : Value} {rest values others left items : List Value} {kind : SeqKind}

theorem build_of_mark (isMark : head.isSymbol TemplateMark.unquote.keyword) (value : Value) :
    build (.seq kind (head :: rest)) (value :: left) = (value, left) := by
  rw [build, if_pos isMark]
  rfl

theorem build_of_items (ordinary : ¬ head.isSymbol TemplateMark.unquote.keyword)
    (builds : buildItems (head :: rest) values = (items, left)) :
    build (.seq kind (head :: rest)) values = (.list items, left) := by
  rw [build, if_neg ordinary]
  change (let (items, left) := buildItems (head :: rest) values
    (Value.list items, left)) = _
  rw [builds]

theorem buildItems_of_mark (isMark : head.isSymbol TemplateMark.unquote.keyword) :
    buildItems (head :: rest) (.seq kind items :: left) = (items, left) := by
  rw [buildItems, if_pos isMark]
  rfl

theorem buildItems_of_splice {forms spliced : List Value}
    (ordinary : ¬ head.isSymbol TemplateMark.unquote.keyword) (splices : splice? head = some forms)
    (builds : buildItems rest others = (items, left)) :
    buildItems (head :: rest) (.seq kind spliced :: others) = (spliced ++ items, left) := by
  rw [buildItems, if_neg ordinary, splices]
  change (let (items, left) := buildItems rest others
    (spliced ++ items, left)) = _
  rw [builds]

theorem buildItems_of_whole {built : Value}
    (ordinary : ¬ head.isSymbol TemplateMark.unquote.keyword) (whole : splice? head = none)
    (builds : build head values = (built, others))
    (builds' : buildItems rest others = (items, left)) :
    buildItems (head :: rest) values = (built :: items, left) := by
  rw [buildItems, if_neg ordinary, whole]
  change (let (built, others) := build head values
    let (items, left) := buildItems rest others
    (built :: items, left)) = _
  rw [builds]
  change (let (items, left) := buildItems rest others
    (built :: items, left)) = _
  rw [builds']

end Build

/-! ### Rewriting -/

/-- What places let a template be rewritten to: none of them lacks its expression, or the first that
does is complained of. -/
def Allow (places : List Insertion) (result : Except Error Value) : Prop :=
  match places.find? (·.operand.isNone) with
  | some place => result = .error (.missingForm place.mark)
  | none => ∃ form, result = .ok form

theorem Allow.append {places others : List Insertion} {first second : Except Error Value}
    (allow : Allow places first) (allow' : Allow others second) (join : Value → Value → Value) :
    Allow (places ++ others) (do
      let form ← first
      return join form (← second)) := by
  unfold Allow at *
  rw [List.find?_append]
  cases found : places.find? (·.operand.isNone) with
  | some place =>
    rw [found] at allow
    rw [allow]
    rfl
  | none =>
    rw [found] at allow
    obtain ⟨form, rfl⟩ := allow
    rw [Option.none_or]
    cases found' : others.find? (·.operand.isNone) with
    | some place =>
      rw [found'] at allow'
      rw [allow']
      rfl
    | none =>
      rw [found'] at allow'
      obtain ⟨form', rfl⟩ := allow'
      exact ⟨join form form', rfl⟩

theorem allow_operand (mark : TemplateMark) (forms : List Value) (isSpliced : Bool) :
    Allow [⟨mark, forms.head?, isSpliced⟩] (operand mark forms) := by
  cases forms with
  | nil => rfl
  | cons form rest => exact ⟨form, rfl⟩

mutual

/-- A template is rewritten unless one of its places lacks an expression. -/
theorem expand_of_insertions (template : Value) :
    Allow (insertions template) (expand template) := by
  match template with
  | .seq kind (head :: rest) =>
    rw [insertions, expand]
    by_cases isMark : head.isSymbol TemplateMark.unquote.keyword
    · rw [if_pos isMark, expandItems, if_pos isMark]
      exact allow_operand .unquote rest false
    · rw [if_neg isMark]
      exact expandItems_of_insertions (head :: rest)
  | .seq kind [] | .nil | .bool _ | .number _ | .string _ | .symbol _ | .keyword _ | .map _
  | .atom _ | .native _ | .procedure .. => exact ⟨_, rfl⟩

theorem expandItems_of_insertions (items : List Value) :
    Allow (itemInsertions items) (expandItems items) := by
  match items with
  | [] => exact ⟨_, rfl⟩
  | item :: rest =>
    rw [itemInsertions, expandItems]
    by_cases isMark : item.isSymbol TemplateMark.unquote.keyword
    · rw [if_pos isMark, if_pos isMark]
      exact allow_operand .unquote rest true
    · rw [if_neg isMark, if_neg isMark]
      have others := expandItems_of_insertions rest
      cases splice? item with
      | some forms =>
        exact (allow_operand .spliceUnquote forms true).append others
          fun spliced built => Form.call "concat" [spliced, built]
      | none =>
        exact (expand_of_insertions item).append others
          fun built rest => Form.call "cons" [built, rest]

end

/-! ### Values put in -/

/-- Values are put in the places of a template: the expressions are there and, evaluated one after
the other, give these values, of which those that are put in item by item are sequences. At every
time on the way the names that the template is rewritten with mean what they should. -/
structure Filled (env : Env) (places : List Insertion) (s : Store) (values : List Value)
    (t : Store) : Prop where
  complete : ∀ place ∈ places, place.operand.isSome
  evaluates : Ends (.each ((operands places).map (.evaluate · env))) s (.ok (.list values) t)
  sequences : ∀ pair ∈ places.zip values, pair.1.isSpliced → pair.2.items?.isSome
  ready : ∀ before after earlier u, operands places = before ++ after →
    Ends (.each (before.map (.evaluate · env))) s (.ok (.list earlier) u) → u.BuildsTemplates env

theorem length_operands {places : List Insertion}
    (complete : ∀ place ∈ places, place.operand.isSome) :
    (operands places).length = places.length := by
  rw [operands, List.length_filterMap_eq_countP, List.countP_eq_length]
  exact complete

namespace Filled

variable {env : Env} {places others : List Insertion} {s t : Store} {values : List Value}

theorem ready_before (filled : Filled env places s values t) : s.BuildsTemplates env :=
  filled.ready [] (operands places) [] s rfl .each_nil

/-- Values are put in some places and then in others. -/
theorem split (filled : Filled env (places ++ others) s values t) :
    ∃ before after u, values = before ++ after ∧ Filled env places s before u ∧
      Filled env others u after t := by
  obtain ⟨complete, evaluates, sequences, ready⟩ := filled
  rw [operands_append, List.map_append, ends_each_append_iff] at evaluates
  obtain ⟨before, after, u, rfl, earlier, later⟩ := evaluates
  obtain ⟨complete, complete'⟩ := List.forall_mem_append.mp complete
  have sameLength : places.length = before.length := by
    rw [length_eq_of_ends_each earlier, List.length_map, length_operands complete]
  rw [List.zip_append sameLength, List.forall_mem_append] at sequences
  obtain ⟨sequences, sequences'⟩ := sequences
  refine ⟨before, after, u, rfl, ⟨complete, earlier, sequences, ?_⟩,
    ⟨complete', later, sequences', ?_⟩⟩
  · intro first rest values' v split
    refine ready first (rest ++ operands others) values' v ?_
    rw [operands_append, split, List.append_assoc]
  -- What has been evaluated by some time later on is all the places before, and some others.
  · intro first rest values' v split evaluates
    refine ready (operands places ++ first) rest (before ++ values') v ?_ ?_
    · rw [operands_append, split, List.append_assoc]
    · rw [List.map_append]
      exact ends_each_append_iff.mpr ⟨before, values', u, rfl, earlier, evaluates⟩

/-- A value is put in a place. -/
theorem exists_of_singleton {mark : TemplateMark} {operand? : Option Value} {isSpliced : Bool}
    (filled : Filled env [⟨mark, operand?, isSpliced⟩] s values t) :
    ∃ form value, operand? = some form ∧ values = [value] ∧
      Ends (.evaluate form env) s (.ok value t) ∧ (isSpliced → value.items?.isSome) := by
  obtain ⟨form, rfl⟩ := Option.isSome_iff_exists.mp (filled.complete _ (List.mem_singleton_self _))
  have evaluates := filled.evaluates
  cases evaluates with
  | each_cons first others =>
    cases others
    exact ⟨form, _, rfl, rfl, first, filled.sequences _ (List.mem_singleton_self _)⟩

end Filled

/-! ### Building -/

theorem ends_quote {env : Env} {s : Store} (builds : s.BuildsTemplates env) (form : Value) :
    Ends (.evaluate (Form.call "quote" [form]) env) s (.ok form s) :=
  .quote (expansion?_of_not_expands builds.quote [form])

/-- A pair of forms that are evaluated one after the other. -/
theorem ends_each_pair {first second value other : Value} {env : Env} {s t u : Store}
    (evaluates : Ends (.evaluate first env) s (.ok value t))
    (evaluates' : Ends (.evaluate second env) t (.ok other u)) :
    Ends (.each ([first, second].map (.evaluate · env))) s (.ok (.list [value, other]) u) :=
  .each_cons evaluates (.each_cons evaluates' .each_nil)

theorem ends_cons {first second value : Value} {kind : SeqKind} {items : List Value} {env : Env}
    {s t u : Store} (builds : s.BuildsTemplates env)
    (evaluates : Ends (.evaluate first env) s (.ok value t))
    (evaluates' : Ends (.evaluate second env) t (.ok (.seq kind items) u)) :
    Ends (.evaluate (Form.call "cons" [first, second]) env) s (.ok (.list (value :: items)) u) :=
  ends_call_operation builds.cons rfl (ends_each_pair evaluates evaluates') rfl rfl

theorem ends_concat {first second : Value} {kind kind' : SeqKind} {items others : List Value}
    {env : Env} {s t u : Store} (builds : s.BuildsTemplates env)
    (evaluates : Ends (.evaluate first env) s (.ok (.seq kind items) t))
    (evaluates' : Ends (.evaluate second env) t (.ok (.seq kind' others) u)) :
    Ends (.evaluate (Form.call "concat" [first, second]) env) s
      (.ok (.list (items ++ others)) u) := by
  have joins : [items, others].flatten = items ++ others := by simp
  have computes : Operation.run .concat [.seq kind items, .seq kind' others] =
      .ok (.list [items, others].flatten) := rfl
  rw [← joins]
  exact ends_call_operation builds.concat rfl (ends_each_pair evaluates evaluates') rfl computes

theorem exists_of_join {first second : Except Error Value} {join : Value → Value → Value}
    {form : Value} (joined : (do
      let built ← first
      return join built (← second)) = .ok form) :
    ∃ built rest, first = .ok built ∧ second = .ok rest ∧ form = join built rest := by
  cases first with
  | error error => cases joined
  | ok built =>
    cases second with
    | error error => cases joined
    | ok rest =>
      cases joined
      exact ⟨built, rest, rfl, rfl, rfl⟩

theorem exists_seq_of_items? {value : Value} (isSeq : value.items?.isSome) :
    ∃ kind items, value = .seq kind items := by
  cases value with
  | seq kind items => exact ⟨kind, items, rfl⟩
  | _ => cases isSeq

mutual

/-- The form that a template is rewritten to evaluates to what the template describes. -/
theorem ends_expand (template : Value) {form : Value} {env : Env} {s t : Store}
    {values : List Value} (filled : Filled env (insertions template) s values t)
    (rewrites : expand template = .ok form) :
    ∃ value, Ends (.evaluate form env) s (.ok value t) ∧
      ∀ later, build template (values ++ later) = (value, later) := by
  match template with
  | .seq kind (head :: rest) =>
    by_cases isMark : head.isSymbol TemplateMark.unquote.keyword
    -- A mark at the head takes the value as it is, and what stands behind its operand is ignored.
    · rw [insertions, if_pos isMark] at filled
      rw [expand, expandItems, if_pos isMark] at rewrites
      obtain ⟨operand, value, isOperand, rfl, evaluates, _⟩ := filled.exists_of_singleton
      obtain ⟨more, rfl⟩ := List.head?_eq_some_iff.mp isOperand
      cases rewrites
      exact ⟨value, evaluates, fun _ => build_of_mark isMark value⟩
    · rw [insertions, if_neg isMark] at filled
      rw [expand] at rewrites
      obtain ⟨kind, items, evaluates, builds, isList⟩ :=
        ends_expandItems (head :: rest) filled rewrites
      have isList : kind = .list := by
        refine isList.resolve_right ?_
        rintro ⟨_, _, ⟨⟩, isMark'⟩
        exact isMark isMark'
      subst isList
      exact ⟨.list items, evaluates, fun later => build_of_items isMark (builds later)⟩
  | .seq kind [] | .nil | .bool _ | .number _ | .string _ | .symbol _ | .keyword _ | .map _
  | .atom _ | .native _ | .procedure .. =>
    cases rewrites
    have builds := filled.ready_before
    have evaluates := filled.evaluates
    cases evaluates
    exact ⟨_, ends_quote builds _, fun later => rfl⟩

/-- The form that a tail is rewritten to evaluates to a sequence of what the tail describes: to a
list, unless the tail is a mark with an expression. -/
theorem ends_expandItems (items : List Value) {form : Value} {env : Env} {s t : Store}
    {values : List Value} (filled : Filled env (itemInsertions items) s values t)
    (rewrites : expandItems items = .ok form) :
    ∃ kind built, Ends (.evaluate form env) s (.ok (.seq kind built) t) ∧
      (∀ later, buildItems items (values ++ later) = (built, later)) ∧
      (kind = .list ∨ ∃ mark rest, items = mark :: rest ∧
        mark.isSymbol TemplateMark.unquote.keyword) := by
  match items with
  | [] =>
    cases rewrites
    have builds := filled.ready_before
    have evaluates := filled.evaluates
    cases evaluates
    exact ⟨.list, [], ends_quote builds _, fun later => rfl, .inl rfl⟩
  | item :: rest =>
    by_cases isMark : item.isSymbol TemplateMark.unquote.keyword
    -- The operand of a mark ends up as the last argument of the call in front, so its value has to
    -- be a sequence.
    · rw [itemInsertions, if_pos isMark] at filled
      rw [expandItems, if_pos isMark] at rewrites
      obtain ⟨operand, value, isOperand, rfl, evaluates, isSeq⟩ := filled.exists_of_singleton
      obtain ⟨more, rfl⟩ := List.head?_eq_some_iff.mp isOperand
      obtain ⟨kind, items, rfl⟩ := exists_seq_of_items? (isSeq rfl)
      cases rewrites
      exact ⟨kind, items, evaluates, fun _ => buildItems_of_mark isMark,
        .inr ⟨item, _, rfl, isMark⟩⟩
    · rw [itemInsertions, if_neg isMark] at filled
      rw [expandItems, if_neg isMark] at rewrites
      cases splices : splice? item with
      | some forms =>
        -- The spliced value takes the first of the values, the rest of the tail the others.
        simp only [splices] at filled rewrites
        rw [← List.singleton_append] at filled
        obtain ⟨_, after, u, rfl, here, others⟩ := filled.split
        obtain ⟨first, value, isFirst, rfl, evaluates, isSeq⟩ := here.exists_of_singleton
        obtain ⟨more, rfl⟩ := List.head?_eq_some_iff.mp isFirst
        obtain ⟨kind, spliced, rfl⟩ := exists_seq_of_items? (isSeq rfl)
        obtain ⟨_, second, ⟨⟩, ofRest, rfl⟩ := exists_of_join rewrites
        obtain ⟨kind', built, evaluates', builds, _⟩ := ends_expandItems rest others ofRest
        exact ⟨.list, spliced ++ built, ends_concat filled.ready_before evaluates evaluates',
          fun later => buildItems_of_splice isMark splices (builds later), .inl rfl⟩
      | none =>
        simp only [splices] at filled rewrites
        obtain ⟨before, after, u, rfl, here, others⟩ := filled.split
        obtain ⟨first, second, ofItem, ofRest, rfl⟩ := exists_of_join rewrites
        obtain ⟨value, evaluates, builds⟩ := ends_expand item here ofItem
        obtain ⟨kind', built, evaluates', builds', _⟩ := ends_expandItems rest others ofRest
        refine ⟨.list, value :: built, ends_cons filled.ready_before evaluates evaluates',
          fun later => ?_, .inl rfl⟩
        rw [List.append_assoc]
        exact buildItems_of_whole isMark splices (builds _) (builds' later)

end

end Template

section Quasiquote

variable {template : Value} {more : List Value} {env : Env} {s t : Store} {values : List Value}

theorem run_quasiquote_of_missing {place : Template.Insertion}
    (ordinary : ¬ s.Expands env "quasiquote")
    (missing : (Template.insertions template).find? (·.operand.isNone) = some place) (fuel : Nat) :
    run (fuel + 1) (.evaluate (SpecialForm.quasiquote.form (template :: more)) env) s =
      .error (.failure (.missingForm place.mark)) s := by
  have fails := Template.expand_of_insertions template
  rw [Template.Allow, missing] at fails
  refine run_of_stop ?_
  rw [perform_special (expansion?_of_not_expands ordinary _), performSpecial, fails]
  rfl

theorem finishes_quasiquote
    (filled : Template.Filled env (Template.insertions template) s values t) :
    (Task.evaluate (SpecialForm.quasiquote.form (template :: more)) env).Finishes s
      (.ok (Template.instantiate template values) t) := by
  have allowed := Template.expand_of_insertions template
  have noneMissing : (Template.insertions template).find? (·.operand.isNone) = none := by
    refine List.find?_eq_none.mpr fun place mem => ?_
    simpa [Option.isSome_iff_ne_none] using filled.complete place mem
  rw [Template.Allow, noneMissing] at allowed
  obtain ⟨form, rewrites⟩ := allowed
  obtain ⟨value, evaluates, builds⟩ := Template.ends_expand template filled rewrites
  have isValue : Template.instantiate template values = value := by
    rw [Template.instantiate, ← List.append_nil values, builds []]
  rw [isValue, finishes_iff_ends]
  exact .quasiquote (expansion?_of_not_expands filled.ready_before.quasiquote _) rewrites evaluates

end Quasiquote

/-- **A quasiquoted template is instantiated.** Where a place of the template lacks its expression,
the first such place is complained of before anything is evaluated. Where the expressions are there
and, evaluated once each from left to right, give values, those that are put in item by item being
sequences, what comes out is the form that the template describes, and nothing else has happened.
The names that templates are rewritten with have to mean what they mean from the start, between any
two of the expressions. -/
theorem quasiquote_instantiates (template : Value) (more : List Value) (env : Env) (s : Store) :
    let places := Template.insertions template
    let form := SpecialForm.quasiquote.form (template :: more)
    (∀ place fuel, ¬ s.Expands env "quasiquote" →
      places.find? (·.operand.isNone) = some place →
      run (fuel + 1) (.evaluate form env) s = .error (.failure (.missingForm place.mark)) s) ∧
    ∀ fuel values t, (∀ place ∈ places, place.operand.isSome) →
      evaluateEach (run fuel) env (Template.operands places) s = .ok values t →
      (∀ pair ∈ places.zip values, pair.1.isSpliced → pair.2.items?.isSome) →
      (∀ before after fuel earlier u, Template.operands places = before ++ after →
        evaluateEach (run fuel) env before s = .ok earlier u → u.BuildsTemplates env) →
      (Task.evaluate form env).Finishes s (.ok (Template.instantiate template values) t) := by
  intro places form
  refine ⟨fun place fuel ordinary missing => run_quasiquote_of_missing ordinary missing fuel,
    fun fuel values t complete evaluates sequences ready => finishes_quasiquote ?_⟩
  refine ⟨complete, ends_each_of_evaluateEach evaluates, sequences, ?_⟩
  intro before after earlier u split ends
  obtain ⟨fuel, evaluates⟩ := (eventually_mapM_ok ends.settles).exists
  rw [← evaluateEach_eq] at evaluates
  exact ready before after fuel earlier u split evaluates

/-- A template with an item, an expression to put in and one whose items are put in at the end, and
a template that is a mark alone. -/
theorem quasiquote_instantiates_vector :
    let s := (Store.initial fun _ => none).opened TopLevel.nativeBindings
    let splice := Form.call "splice-unquote" [.list []]
    let template := Value.vector [.symbol "a", Form.call "unquote" [.bool true], splice]
    let form := SpecialForm.quasiquote.form [template]
    s.BuildsTemplates TopLevel.root ∧
      evaluateEach (run 1) TopLevel.root [.bool true, .list []] s = .ok [.bool true, .list []] s ∧
      (Task.evaluate form TopLevel.root).Finishes s (.ok (.list [.symbol "a", .bool true]) s) ∧
      run 1 (.evaluate (SpecialForm.quasiquote.form [Form.call "unquote" []]) TopLevel.root) s =
        .error (.failure (.missingForm .unquote)) s := by
  intro s splice template form
  have ordinary {name : String} (ordinary : s.lookup? TopLevel.root name = none) :
      ¬ s.Expands TopLevel.root name := by
    rintro ⟨_, _, _, _, bound⟩
    rw [ordinary] at bound
    cases bound
  have builds : s.BuildsTemplates TopLevel.root :=
    ⟨by rfl, by rfl, ordinary (by rfl), ordinary (by rfl)⟩
  have evaluates : evaluateEach (run 1) TopLevel.root [.bool true, .list []] s =
      .ok [.bool true, .list []] s := by rfl
  -- Constants are evaluated without a change of the store, however many of them there are.
  have ready : ∀ before after fuel earlier u, [Value.bool true, .list []] = before ++ after →
      evaluateEach (run fuel) TopLevel.root before s = .ok earlier u →
        u.BuildsTemplates TopLevel.root := by
    intro before after fuel earlier u split evaluates
    have same : u = s := by
      rcases before with _ | ⟨first, _ | ⟨second, _ | _⟩⟩ <;> cases split <;>
        rcases fuel with _ | fuel <;> cases evaluates <;> rfl
    rw [same]
    exact builds
  obtain ⟨_, fills⟩ := quasiquote_instantiates template [] TopLevel.root s
  obtain ⟨fails, _⟩ := quasiquote_instantiates (Form.call "unquote" []) [] TopLevel.root s
  refine ⟨builds, evaluates, fills 1 _ s ?_ evaluates ?_ ready, fails _ 0 builds.quasiquote rfl⟩
  · decide
  · decide

end SmallLisp
