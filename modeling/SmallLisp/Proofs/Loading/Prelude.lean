import SmallLisp.Proofs.Loading.Call
import SmallLisp.Proofs.Reading.Given

/-!
# The world with the prelude

Each source of the prelude is the text of a definition at top level, so setting up the world binds
four names one after the other. No special form is given another meaning, and what the function that
loads files needs is in place.

## Main definitions

* `Definition`: a procedure that is defined at top level
* `Store.afterDefinition`: the store after a definition
* `Store.Plain`: a world in which no name of a special form is bound

## Main results

* `evaluateFirst_definition`: what the text of a definition does
* `start_definitions`: setting up the world makes the definitions of the prelude
* `exists_start`: what a world that is set up with the prelude is like
-/

namespace SmallLisp

/-- A procedure that is defined at top level. -/
structure Definition where
  kind : ProcedureKind
  name : String
  parameters : List Value
  body : Value

namespace Definition

/-- The special form that defines procedures of a sort. -/
def special : ProcedureKind → SpecialForm
  | .function => .define
  | .expander => .defineExpander

/-- The form that makes a definition. -/
def form (d : Definition) : Value :=
  (special d.kind).form [.symbol d.name, SpecialForm.function.form [.list d.parameters, d.body]]

/-- The definition that a form makes, if it has the shape of one. -/
def ofForm? : Value → Option Definition
  | .list [.symbol keyword, .symbol name, .list [.symbol head, .list parameters, body]] =>
    if head = SpecialForm.function.keyword then
      if keyword = SpecialForm.define.keyword then some ⟨.function, name, parameters, body⟩
      else if keyword = SpecialForm.defineExpander.keyword then
        some ⟨.expander, name, parameters, body⟩
      else none
    else none
  | _ => none

theorem form_of_ofForm? {value : Value} {d : Definition} (shaped : ofForm? value = some d) :
    d.form = value := by
  unfold ofForm? at shaped
  split at shaped
  · split at shaped
    · split at shaped
      · cases shaped
        simp_all [form, special]
      · split at shaped
        · cases shaped
          simp_all [form, special]
        · cases shaped
    · cases shaped
  · cases shaped

/-- Whether a definition gives its parameters as symbols, and takes no name of a special form. -/
def isProper (d : Definition) : Bool :=
  d.parameters.all (·.symbol?.isSome) &&
    SpecialForm.all.all fun special => special.keyword != d.name

/-- The definition that the text of one makes, if it is proper. -/
def ofText? (source : String) : Option Definition :=
  match Form.ofText source with
  | .ok form => (ofForm? form).filter isProper
  | .error _ => none

theorem isProper_of_ofText? {source : String} {d : Definition}
    (isDefinition : ofText? source = some d) : d.isProper = true := by
  unfold ofText? at isDefinition
  split at isDefinition
  · exact (Option.filter_eq_some_iff.mp isDefinition).2
  · cases isDefinition

end Definition

namespace Store

/-- In the outermost scope nothing is bound to the name of a special form. -/
def Plain (store : Store) : Prop :=
  ∀ special : SpecialForm, store.lookup? TopLevel.root special.keyword = none

/-- The procedure that a definition makes. -/
def made (store : Store) (d : Definition) : Value :=
  .procedure d.kind store.procedures d.parameters d.body TopLevel.root

/-- The store after a definition. -/
def afterDefinition (store : Store) (d : Definition) : Store :=
  store.numbered.defined TopLevel.root.frame d.name (store.made d)

theorem lookup?_root (store : Store) (name : String) :
    store.lookup? TopLevel.root name = (store.bindings 0).find? name := by
  rw [lookup?, TopLevel.root, Env.frames, List.findSome?_cons, List.findSome?_nil]
  cases (store.bindings 0).find? name <;> rfl

@[simp] theorem size_frames_afterDefinition (store : Store) (d : Definition) :
    (store.afterDefinition d).frames.size = store.frames.size := by
  simp [afterDefinition, defined, numbered]

theorem lookup?_afterDefinition (store : Store) (started : 0 < store.frames.size) (d : Definition)
    (name : String) :
    (store.afterDefinition d).lookup? TopLevel.root name =
      if name = d.name then some (store.made d) else store.lookup? TopLevel.root name := by
  rw [lookup?_root, lookup?_root, afterDefinition, bindings_defined, if_pos ⟨rfl, started⟩]
  exact Bindings.find?_insert _ _ _ _

/-- Definitions of other names do not matter. -/
theorem lookup?_foldl_of_not_mem (store : Store) (started : 0 < store.frames.size)
    {definitions : List Definition} {name : String} (other : name ∉ definitions.map (·.name)) :
    (definitions.foldl afterDefinition store).lookup? TopLevel.root name =
      store.lookup? TopLevel.root name := by
  induction definitions generalizing store with
  | nil => rfl
  | cons d rest ih =>
    rw [List.map_cons, List.mem_cons, not_or] at other
    rw [List.foldl_cons, ih _ (by simpa using started) other.2, lookup?_afterDefinition _ started,
      if_neg other.1]

@[simp] theorem size_frames_foldl (store : Store) (definitions : List Definition) :
    (definitions.foldl afterDefinition store).frames.size = store.frames.size := by
  induction definitions generalizing store with
  | nil => rfl
  | cons d rest ih => rw [List.foldl_cons, ih, size_frames_afterDefinition]

/-- A definition stays in place when no later one takes its name. -/
theorem exists_lookup?_foldl (store : Store) (started : 0 < store.frames.size)
    {definitions before after : List Definition} {d : Definition}
    (split : definitions = before ++ d :: after) (kept : d.name ∉ after.map (·.name)) :
    ∃ id, (definitions.foldl afterDefinition store).lookup? TopLevel.root d.name =
      some (.procedure d.kind id d.parameters d.body TopLevel.root) := by
  have startedBefore : 0 < (before.foldl afterDefinition store).frames.size := by
    rwa [size_frames_foldl]
  have startedAfter : 0 < ((before.foldl afterDefinition store).afterDefinition d).frames.size := by
    rwa [size_frames_afterDefinition]
  rw [split, List.foldl_append, List.foldl_cons, lookup?_foldl_of_not_mem _ startedAfter kept,
    lookup?_afterDefinition _ startedBefore, if_pos rfl]
  exact ⟨_, rfl⟩

theorem Plain.afterDefinition {store : Store} (plain : store.Plain)
    (started : 0 < store.frames.size) {d : Definition} (proper : d.isProper = true) :
    (store.afterDefinition d).Plain := by
  intro special
  have differs : ¬ special.keyword = d.name := by
    have all := (Bool.and_eq_true_iff.mp proper).2
    simpa using List.all_eq_true.mp all special special.mem_all
  rw [lookup?_afterDefinition _ started, if_neg differs, plain special]

theorem Plain.opened {store : Store} (plain : store.Plain) (started : 0 < store.frames.size)
    (bindings : Bindings) : (store.opened bindings).Plain := by
  intro special
  have older : ¬ (0 : FrameId) = store.frames.size := Nat.ne_of_lt started
  rw [lookup?_root, bindings_opened, if_neg older, ← lookup?_root, plain special]

end Store

section Prelude

variable {fuel : Nat} {s : Store} {d : Definition}

theorem expansion?_form (plain : s.Plain) (special : SpecialForm) (parts : List Value) :
    expansion? s TopLevel.root (special.form parts) = none := by
  simp only [expansion?, plain special]

theorem run_definition (plain : s.Plain) (proper : d.isProper = true) :
    run (fuel + 2) (.evaluate d.form TopLevel.root) s = .ok (s.made d) (s.afterDefinition d) := by
  have named : ∀ parameter ∈ d.parameters, parameter.symbol?.isSome := by
    simpa using (Bool.and_eq_true_iff.mp proper).1
  have makes : run (fuel + 1) (.evaluate (SpecialForm.function.form [.list d.parameters, d.body])
      TopLevel.root) s =
        .ok (.procedure .function s.procedures d.parameters d.body TopLevel.root) s.numbered := by
    refine run_of_done ?_
    rw [perform_special (expansion?_form plain _ _), performSpecial,
      makeFunction_eq d.body rfl named]
    rfl
  refine run_of_done ?_
  obtain ⟨kind, name, parameters, body⟩ := d
  cases kind with
  | function =>
    rw [Definition.form, Definition.special, perform_special (expansion?_form plain _ _),
      performSpecial]
    exact Eval.bind_of_ok (Eval.bind_of_ok makes)
  | expander =>
    rw [Definition.form, Definition.special, perform_special (expansion?_form plain _ _),
      performSpecial]
    exact Eval.bind_of_ok (Eval.bind_of_ok makes)

/-- The text of a definition is evaluated at top level. -/
theorem evaluateFirst_definition (plain : s.Plain) {source : String}
    (isDefinition : Definition.ofText? source = some d) :
    TopLevel.evaluateFirst (fuel + 2) source s = .ok (s.made d) (s.afterDefinition d) := by
  unfold Definition.ofText? at isDefinition
  cases reads : Form.ofText source with
  | error error =>
    rw [reads] at isDefinition
    cases isDefinition
  | ok form =>
    rw [reads] at isDefinition
    obtain ⟨shaped, proper⟩ := Option.filter_eq_some_iff.mp isDefinition
    have reads : TopLevel.read source s = .ok d.form s := by
      rw [TopLevel.read, reads, Definition.form_of_ofForm? shaped]
      rfl
    rw [TopLevel.evaluateFirst, Eval.bind_of_ok reads]
    exact run_definition plain proper

/-- Definitions are made one after the other. -/
theorem forM_definitions (fuel : Nat) (plain : s.Plain) (started : 0 < s.frames.size)
    {sources : List String} {definitions : List Definition}
    (areDefinitions : sources.map Definition.ofText? = definitions.map some) :
    (sources.forM fun source => discard (TopLevel.evaluateFirst (fuel + 2) source)) s =
        .ok () (definitions.foldl Store.afterDefinition s) ∧
      (definitions.foldl Store.afterDefinition s).Plain := by
  induction definitions generalizing s sources with
  | nil =>
    obtain rfl := List.map_eq_nil_iff.mp areDefinitions
    exact ⟨rfl, plain⟩
  | cons d rest ih =>
    obtain ⟨source, others, rfl, isDefinition, areDefinitions⟩ :=
      List.map_eq_cons_iff.mp areDefinitions
    have proper : d.isProper = true := Definition.isProper_of_ofText? isDefinition
    have first : discard (TopLevel.evaluateFirst (fuel + 2) source) s =
        .ok () (s.afterDefinition d) := by
      change (Function.const Value () <$> TopLevel.evaluateFirst (fuel + 2) source) s = _
      rw [Eval.map_eq_ok_iff]
      exact ⟨_, evaluateFirst_definition plain isDefinition, rfl⟩
    have rest := ih (plain.afterDefinition started proper) (by simpa using started) areDefinitions
    exact ⟨(Eval.bind_of_ok first).trans rest.1, rest.2⟩

theorem Prelude.name_negation :
    (Definition.ofText? Prelude.negation).map (·.name) = some "not" := by
  decide +kernel

theorem Prelude.name_firstBranch :
    (Definition.ofText? Prelude.firstBranch).map (·.name) = some "cond" := by
  decide +kernel

theorem Prelude.name_firstTruth :
    (Definition.ofText? Prelude.firstTruth).map (·.name) = some "or" := by
  decide +kernel

theorem Prelude.ofText_fileLoading : Form.ofText Prelude.fileLoading =
    .ok (SpecialForm.define.form [.symbol "load-file",
      SpecialForm.function.form [.list [.symbol "f"], Prelude.loaderBody]]) := by
  apply Form.ofText_eq_of_sameForm
  decide +kernel

/-- The definition of the function that loads files. -/
def Prelude.loader : Definition := ⟨.function, "load-file", [.symbol "f"], Prelude.loaderBody⟩

theorem Prelude.ofText?_fileLoading :
    Definition.ofText? Prelude.fileLoading = some Prelude.loader := by
  rw [Definition.ofText?, Prelude.ofText_fileLoading]
  rfl

theorem find?_nativeBindings (name : String) :
    TopLevel.nativeBindings.find? name = (Native.named? name).map .native := by
  rw [TopLevel.nativeBindings, Native.named?]
  induction Native.all with
  | nil => rfl
  | cons f rest ih =>
    rw [List.map_cons, Bindings.find?_cons, List.find?_cons, ih]
    by_cases same : name = f.name
    · rw [if_pos same, same, beq_self_eq_true]
      rfl
    · have differs : (f.name == name) = false := by simpa using fun h => same h.symm
      rw [if_neg same, differs]

theorem lookup?_nativeBindings (files : String → Option (Except FileFault String)) (name : String) :
    ((Store.initial files).opened TopLevel.nativeBindings).lookup? TopLevel.root name =
      (Native.named? name).map .native := by
  have fresh : (0 : FrameId) = (Store.initial files).frames.size := rfl
  rw [Store.lookup?_root, Store.bindings_opened, if_pos fresh, find?_nativeBindings]

theorem started_nativeBindings (files : String → Option (Except FileFault String)) :
    0 < ((Store.initial files).opened TopLevel.nativeBindings).frames.size := Nat.zero_lt_one

theorem plain_nativeBindings (files : String → Option (Except FileFault String)) :
    ((Store.initial files).opened TopLevel.nativeBindings).Plain := by
  intro special
  have noNative : Native.named? special.keyword = none := by cases special <;> decide
  rw [lookup?_nativeBindings, noNative, Option.map_none]

theorem Prelude.exists_definitions : ∃ negation branch truth,
    Prelude.definitions.map Definition.ofText? =
      [negation, Prelude.loader, branch, truth].map some ∧
    negation.name = "not" ∧ branch.name = "cond" ∧ truth.name = "or" := by
  obtain ⟨negation, isNegation, named⟩ := Option.map_eq_some_iff.mp Prelude.name_negation
  obtain ⟨branch, isBranch, named'⟩ := Option.map_eq_some_iff.mp Prelude.name_firstBranch
  obtain ⟨truth, isTruth, named''⟩ := Option.map_eq_some_iff.mp Prelude.name_firstTruth
  refine ⟨negation, branch, truth, ?_, named, named', named''⟩
  rw [Prelude.definitions, List.map_cons, List.map_cons, List.map_cons, List.map_cons,
    List.map_nil, isNegation, Prelude.ofText?_fileLoading, isBranch, isTruth]
  rfl

/-- Setting up the world makes the definitions of the prelude, where the native functions are. -/
theorem start_definitions (fuel : Nat) (files : String → Option (Except FileFault String))
    {definitions : List Definition}
    (areDefinitions : Prelude.definitions.map Definition.ofText? = definitions.map some) :
    TopLevel.start (fuel + 2) true (Store.initial files) =
        .ok () (definitions.foldl Store.afterDefinition
          ((Store.initial files).opened TopLevel.nativeBindings)) ∧
      (definitions.foldl Store.afterDefinition
        ((Store.initial files).opened TopLevel.nativeBindings)).Plain := by
  have opens : Eval.openRoot TopLevel.nativeBindings (Store.initial files) =
      .ok TopLevel.root ((Store.initial files).opened TopLevel.nativeBindings) := rfl
  obtain ⟨defines, plain⟩ := forM_definitions fuel (plain_nativeBindings files)
    (started_nativeBindings files) areDefinitions
  rw [TopLevel.start, Eval.bind_of_ok opens, if_pos rfl, TopLevel.loadPrelude]
  exact ⟨defines, plain⟩

/-- A world that is set up with the prelude loads files as the prelude has it, and treats special
forms as such. -/
theorem exists_start (fuel : Nat) (files : String → Option (Except FileFault String)) :
    ∃ store, TopLevel.start (fuel + 2) true (Store.initial files) = .ok () store ∧
      store.LoadsFiles ∧ store.Plain ∧ store.files = files := by
  obtain ⟨negation, branch, truth, areDefinitions, named, named', named''⟩ :=
    Prelude.exists_definitions
  have started := started_nativeBindings files
  obtain ⟨ready, plain⟩ := start_definitions fuel files areDefinitions
  refine ⟨_, ready, ⟨?_, fun f mem => ?_⟩, plain, rfl⟩
  · -- No later definition takes the name.
    have others : Prelude.loader.name ∉ [branch, truth].map (·.name) := by
      simp [named', named'', Prelude.loader]
    have split : [negation, Prelude.loader, branch, truth] =
      [negation] ++ Prelude.loader :: [branch, truth] := rfl
    exact Store.exists_lookup?_foldl _ started split others
  · have others : f.name ∉ [negation, Prelude.loader, branch, truth].map (·.name) := by
      have names : [negation, Prelude.loader, branch, truth].map (·.name) =
          ["not", "load-file", "cond", "or"] := by
        simp [named, named', named'', Prelude.loader]
      simp only [Prelude.loaderNatives, List.mem_cons, List.not_mem_nil, or_false] at mem
      rw [names]
      rcases mem with rfl | rfl | rfl | rfl <;> decide
    rw [Store.lookup?_foldl_of_not_mem _ started others, lookup?_nativeBindings, Native.named?_name]
    rfl

end Prelude

end SmallLisp
