import SmallLisp.Proofs.Loading.Prelude

/-!
# The expanders of the prelude

The prelude defines two expanders for branching. Their texts are read here, once and for all: what
is shown of the forms that come out holds of the texts. Each of the two takes all of its operands in
one list, and its body works on that list with native functions. A world in which these and the
special forms mean what they mean from the start serves the expander, and the world that is set up
with the prelude does.

## Main definitions

* `Prelude.branch`, `Prelude.truth`: the definitions of the two expanders
* `Store.Serves`: a world in which an expander works as it does from the start

## Main results

* `Prelude.ofText?_firstBranch`, `Prelude.ofText?_firstTruth`: what the texts define
* `exists_serves_start`: the world that is set up with the prelude serves both
-/

namespace SmallLisp

/-- A call of an operation by its name. -/
def Operation.form (operation : Operation) (arguments : List Value) : Value :=
  Form.call (Native.operation operation).name arguments

/-- A definition of an expander that takes all operands in one list, and the operations that its
body calls. -/
structure Idiom where
  name : String
  body : Value
  natives : List Operation

namespace Idiom

/-- The name that the operands are bound to. -/
def operandsName : String := "xs"

/-- The definition of the expander. -/
def definition (idiom : Idiom) : Definition :=
  ⟨.expander, idiom.name, [.symbol Binder.restMarker, .symbol operandsName], idiom.body⟩

/-- A call of the expander. -/
def call (idiom : Idiom) (operands : List Value) : Value := Form.call idiom.name operands

/-- The special forms that the expanders make use of, in their bodies or in what they give. -/
def specials : List SpecialForm := [.conditional, .bindings, .quote, .quasiquote]

end Idiom

namespace Prelude

/-- The operands, as the bodies of the expanders name them. -/
def operands : Value := .symbol Idiom.operandsName

/-- What a call is told that has a condition with nothing behind it. -/
def oddForms : String := "odd number of forms to cond"

/-- The body of the expander that branches on conditions. -/
def branchBody : Value :=
  SpecialForm.conditional.form [
    Operation.form .greater [Operation.form .count [operands], Operation.countValue 0],
    Operation.form .list [
      SpecialForm.quote.form [.symbol "if"],
      Operation.form .first [operands],
      SpecialForm.conditional.form [
        Operation.form .greater [Operation.form .count [operands], Operation.countValue 1],
        Operation.form .nth [operands, Operation.countValue 1],
        Operation.form .throw [.string oddForms]],
      Operation.form .cons [
        SpecialForm.quote.form [.symbol "cond"],
        Operation.form .rest [Operation.form .rest [operands]]]]]

/-- The expander that branches on conditions. -/
def branch : Idiom :=
  ⟨"cond", branchBody, [.greater, .count, .list, .first, .nth, .throw, .cons, .rest]⟩

/-- The name that the value of an operand is kept under. -/
def keptName : String := "or__value"

/-- What the other expander gives for two or more operands: the value of the first is kept, and
stands for the call if it is true. -/
def truthTemplate : Value :=
  SpecialForm.bindings.form [
    .list [.symbol keptName, Form.call "unquote" [Operation.form .first [operands]]],
    SpecialForm.conditional.form [.symbol keptName, .symbol keptName,
      Form.call "or" [Form.call "splice-unquote" [Operation.form .rest [operands]]]]]

/-- The body of the expander for the first true value. -/
def truthBody : Value :=
  SpecialForm.conditional.form [
    Operation.form .isEmpty [operands],
    .nil,
    SpecialForm.conditional.form [
      Operation.form .equal [Operation.countValue 1, Operation.form .count [operands]],
      Operation.form .first [operands],
      SpecialForm.quasiquote.form [truthTemplate]]]

/-- The expander for the first true value. -/
def truth : Idiom :=
  ⟨"or", truthBody, [.isEmpty, .equal, .count, .first, .rest, .cons, .concat]⟩

theorem ofText?_firstBranch : Definition.ofText? firstBranch = some branch.definition := by
  have reads : Form.ofText firstBranch = .ok branch.definition.form := by
    apply Form.ofText_eq_of_sameForm
    decide +kernel
  rw [Definition.ofText?, reads]
  rfl

theorem ofText?_firstTruth : Definition.ofText? firstTruth = some truth.definition := by
  have reads : Form.ofText firstTruth = .ok truth.definition.form := by
    apply Form.ofText_eq_of_sameForm
    decide +kernel
  rw [Definition.ofText?, reads]
  rfl

end Prelude

/-! ### Worlds in which the expanders work -/

/-- A world in which an expander of the prelude works, called from a scope, as it does from the
start: the scope sees the expander, the expander sees the native functions that it calls, and
neither of them sees an expander under the name of a special form. -/
structure Store.Serves (store : Store) (idiom : Idiom) (env : Env) : Prop where
  expander : ∃ id, store.lookup? env idiom.name = some
    (.procedure .expander id idiom.definition.parameters idiom.body TopLevel.root)
  natives : ∀ operation ∈ idiom.natives,
    store.lookup? TopLevel.root (Native.operation operation).name =
      some (.native (.operation operation))
  here : ∀ special ∈ Idiom.specials, ¬ store.Expands env special.keyword
  inside : ∀ special ∈ Idiom.specials, ¬ store.Expands TopLevel.root special.keyword

theorem Store.Plain.not_expands {store : Store} (plain : store.Plain) (special : SpecialForm) :
    ¬ store.Expands TopLevel.root special.keyword := by
  rintro ⟨id, parameters, body, scope, bound⟩
  rw [plain special] at bound
  cases bound

/-- An expander is served from the start when no definition takes the names of the native functions
that it calls, and no later one its own. -/
theorem serves_foldl {files : String → Option (Except FileFault String)} {idiom : Idiom}
    {definitions before after : List Definition}
    (plain : (definitions.foldl Store.afterDefinition
      ((Store.initial files).opened TopLevel.nativeBindings)).Plain)
    (split : definitions = before ++ idiom.definition :: after)
    (kept : idiom.name ∉ after.map (·.name))
    (others : ∀ operation ∈ idiom.natives,
      (Native.operation operation).name ∉ definitions.map (·.name)) :
    (definitions.foldl Store.afterDefinition
      ((Store.initial files).opened TopLevel.nativeBindings)).Serves idiom TopLevel.root where
  expander := Store.exists_lookup?_foldl _ (started_nativeBindings files) split kept
  natives operation mem := by
    rw [Store.lookup?_foldl_of_not_mem _ (started_nativeBindings files) (others operation mem),
      lookup?_nativeBindings, Native.named?_name]
    rfl
  here special _ := plain.not_expands special
  inside special _ := plain.not_expands special

/-- The world that is set up with the prelude serves both of its expanders. -/
theorem exists_serves_start (fuel : Nat) (files : String → Option (Except FileFault String)) :
    ∃ store, TopLevel.start (fuel + 2) true (Store.initial files) = .ok () store ∧
      store.Serves Prelude.branch TopLevel.root ∧ store.Serves Prelude.truth TopLevel.root := by
  obtain ⟨negation, isNegation, named⟩ := Option.map_eq_some_iff.mp Prelude.name_negation
  let definitions :=
    [negation, Prelude.loader, Prelude.branch.definition, Prelude.truth.definition]
  have areDefinitions : Prelude.definitions.map Definition.ofText? = definitions.map some := by
    rw [Prelude.definitions, List.map_cons, List.map_cons, List.map_cons, List.map_cons,
      List.map_nil, isNegation, Prelude.ofText?_fileLoading, Prelude.ofText?_firstBranch,
      Prelude.ofText?_firstTruth]
    rfl
  have names : definitions.map (·.name) = ["not", "load-file", "cond", "or"] := by
    rw [List.map_cons, named]
    rfl
  have splitBranch : definitions = [negation, Prelude.loader] ++ Prelude.branch.definition ::
    [Prelude.truth.definition] := rfl
  have splitTruth : definitions = [negation, Prelude.loader, Prelude.branch.definition] ++
    Prelude.truth.definition :: [] := rfl
  obtain ⟨ready, plain⟩ := start_definitions fuel files areDefinitions
  refine ⟨_, ready, serves_foldl plain splitBranch (by decide) ?_,
    serves_foldl plain splitTruth (by decide) ?_⟩
  · rw [names]
    decide
  · rw [names]
    decide

end SmallLisp
