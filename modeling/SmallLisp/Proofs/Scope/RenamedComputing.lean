import SmallLisp.Proofs.Scope.Computing
import SmallLisp.Proofs.Scope.Renaming

/-!
# Computing does not see the names of frames

What an operation, the rewriting of a template or the binding of parameters gives for arguments with
renamed frames is what it gives for the arguments, with renamed frames, be it a value or an error.
What is read from a text mentions no frame at all.

## Main results

* `renamed_bind`: sequences of computations of which each does not see the names of frames
* `Form.rename_of_ofText`: what is read mentions no frame
* `Operation.run_rename`: operations do not see the names of frames
* `Template.expand_rename`: nor do templates
* `Binder.bind_rename`: nor does the binding of parameters
-/

namespace SmallLisp

variable (ρ : FrameId → FrameId)

theorem renamed_bind {α α' β β' : Type} {f : α → α'} {g : β → β'} {first : Except Error α}
    {first' : Except Error α'} {second : α → Except Error β} {second' : α' → Except Error β'}
    (start : first' = renamed ρ f first) (rest : ∀ a, second' (f a) = renamed ρ g (second a)) :
    (first' >>= second') = renamed ρ g (first >>= second) := by
  subst start
  cases first with
  | ok a => exact rest a
  | error error => rfl

namespace Value

section Expect

variable (value : Value)

theorem expect_rename {α β : Type} {f : α → β} (expected : Expectation) {found : Option α}
    {found' : Option β} (same : found' = found.map f) :
    (value.rename ρ).expect expected found' = renamed ρ f (value.expect expected found) := by
  subst same
  cases found with
  | some content => rfl
  | none =>
    change Except.error (Error.wrongType expected (value.rename ρ).type) = _
    rw [type_rename]
    rfl

theorem expectNumber_rename :
    (value.rename ρ).expectNumber = renamed ρ id value.expectNumber :=
  expect_rename ρ value .number (by simp)

theorem expectString_rename :
    (value.rename ρ).expectString = renamed ρ id value.expectString :=
  expect_rename ρ value .string (by simp)

theorem expectSymbol_rename :
    (value.rename ρ).expectSymbol = renamed ρ id value.expectSymbol :=
  expect_rename ρ value .symbol (by simp)

theorem expectCell_rename : (value.rename ρ).expectCell = renamed ρ id value.expectCell :=
  expect_rename ρ value .atom (by simp)

theorem expectEntries_rename :
    (value.rename ρ).expectEntries = renamed ρ (Entries.rename ρ) value.expectEntries :=
  expect_rename ρ value .map (entries?_rename ρ value)

theorem expectItems_rename :
    (value.rename ρ).expectItems = renamed ρ (List.map (rename ρ)) value.expectItems :=
  expect_rename ρ value .sequence (items?_rename ρ value)

end Expect

end Value

theorem Form.ofText_renamed (text : String) :
    ofText text = renamed ρ (Value.rename ρ) (ofText text) := by
  -- It mentions only scopes that have any given property, such as to be left alone.
  have noFrame : Yields (fun env => env.rename ρ = env)
      (fun form => form.Within fun env => env.rename ρ = env) (ofText text) :=
    yields_ofText text
  cases reads : ofText text with
  | ok form =>
    rw [reads] at noFrame
    rw [renamed, Value.rename_eq_self ρ form noFrame]
  | error error =>
    rw [reads] at noFrame
    cases error with
    | thrown payload => rw [renamed, Error.rename, Value.rename_eq_self ρ payload noFrame]
    | _ => rfl

/-- What is read mentions no frame. -/
theorem Form.rename_of_ofText {text : String} {form : Value} (reads : ofText text = .ok form) :
    form.rename ρ = form := by
  have same := Form.ofText_renamed ρ text
  rw [reads, renamed, Except.ok.injEq] at same
  exact same.symm

/-! ### Operations -/

namespace Operation

variable (value : Value)

theorem onNumbers_rename {f : Float → Float → Value} (left right : Value)
    (plain : ∀ x y, (f x y).rename ρ = f x y) :
    onNumbers f (left.rename ρ) (right.rename ρ) =
      renamed ρ (Value.rename ρ) (onNumbers f left right) := by
  refine renamed_bind ρ (Value.expectNumber_rename ρ left) fun x => ?_
  refine renamed_bind ρ (Value.expectNumber_rename ρ right) fun y => ?_
  exact congrArg Except.ok (plain x y).symm

theorem entriesOf_rename (forms : List Value) :
    entriesOf (forms.map (Value.rename ρ)) = renamed ρ (Entries.rename ρ) (entriesOf forms) := by
  rw [entriesOf, Entries.ofForms?_rename, List.length_map, entriesOf]
  cases Entries.ofForms? forms <;> rfl

theorem sizeOf_rename :
    Operation.sizeOf (value.rename ρ) = renamed ρ id (Operation.sizeOf value) := by
  cases value with
  | map entries =>
    rw [Value.rename_map, sizeOf, sizeOf, Entries.length_rename]
    rfl
  | seq kind items =>
    rw [Value.rename_seq]
    exact congrArg Except.ok (List.length_map _)
  | procedure kind id parameters body env => cases kind <;> rfl
  | _ => rfl

theorem firstOf_rename : firstOf (value.rename ρ) = renamed ρ (Value.rename ρ) (firstOf value) := by
  cases value with
  | seq kind items =>
    rw [Value.rename_seq]
    cases items <;> rfl
  | procedure kind id parameters body env => cases kind <;> rfl
  | _ => rfl

theorem restOf_rename : restOf (value.rename ρ) = renamed ρ (Value.rename ρ) (restOf value) := by
  cases value with
  | seq kind items =>
    rw [Value.rename_seq]
    cases items with
    | nil => rfl
    | cons item rest => exact congrArg Except.ok (Value.rename_seq ρ .list rest).symm
  | procedure kind id parameters body env => cases kind <;> rfl
  | _ => rfl

theorem itemAt_rename (items : List Value) (index : Nat) :
    itemAt (items.map (Value.rename ρ)) index =
      renamed ρ (Value.rename ρ) (itemAt items index) := by
  rw [itemAt, List.getElem?_map, List.length_map, itemAt]
  cases items[index]? <;> rfl

theorem nthOf_rename (sequence index : Value) :
    nthOf (sequence.rename ρ) (index.rename ρ) =
      renamed ρ (Value.rename ρ) (nthOf sequence index) := by
  refine renamed_bind ρ (Value.expectItems_rename ρ sequence) fun items => ?_
  refine renamed_bind ρ (Value.expectNumber_rename ρ index) fun x => ?_
  simp only [id_eq, Value.type_rename]
  cases index? x with
  | none => rfl
  | some n => exact itemAt_rename ρ items n

theorem getFrom_rename (key : Value) :
    getFrom (value.rename ρ) (key.rename ρ) = renamed ρ (Value.rename ρ) (getFrom value key) := by
  cases value with
  | map entries =>
    rw [Value.rename_map]
    change Except.ok _ = Except.ok _
    rw [Entries.find?_rename]
    cases Entries.find? entries key <;> rfl
  | seq kind items => cases kind <;> rfl
  | procedure kind id parameters body env => cases kind <;> rfl
  | _ => rfl

theorem assocTo_rename (forms : List Value) :
    assocTo (value.rename ρ) (forms.map (Value.rename ρ)) =
      renamed ρ (Value.rename ρ) (assocTo value forms) := by
  refine renamed_bind ρ (Value.expectEntries_rename ρ value) fun entries => ?_
  refine renamed_bind ρ (entriesOf_rename ρ forms) fun more => ?_
  change Except.ok _ = Except.ok _
  rw [Entries.insertAll_rename, Value.rename_map]

theorem foldl_erase_rename (removed : List Value) (entries : Entries) :
    (removed.map (Value.rename ρ)).foldl Entries.erase (Entries.rename ρ entries) =
      Entries.rename ρ (removed.foldl Entries.erase entries) := by
  induction removed generalizing entries with
  | nil => rfl
  | cons key rest ih =>
    rw [List.map_cons, List.foldl_cons, List.foldl_cons, Entries.erase_rename, ih]

theorem dissocFrom_rename (removed : List Value) :
    dissocFrom (value.rename ρ) (removed.map (Value.rename ρ)) =
      renamed ρ (Value.rename ρ) (dissocFrom value removed) := by
  refine renamed_bind ρ (Value.expectEntries_rename ρ value) fun entries => ?_
  change Except.ok _ = Except.ok _
  rw [foldl_erase_rename, Value.rename_map]

theorem mapM_expectItems_rename (sequences : List Value) :
    (sequences.map (Value.rename ρ)).mapM Value.expectItems =
      renamed ρ (List.map (List.map (Value.rename ρ))) (sequences.mapM Value.expectItems) := by
  induction sequences with
  | nil => rfl
  | cons sequence rest ih =>
    rw [List.map_cons, List.mapM_cons, List.mapM_cons]
    refine renamed_bind ρ (Value.expectItems_rename ρ sequence) fun items => ?_
    exact renamed_bind ρ ih fun lists => rfl

theorem keywordOf_rename :
    keywordOf (value.rename ρ) = renamed ρ (Value.rename ρ) (keywordOf value) := by
  cases value with
  | seq kind items => cases kind <;> rfl
  | procedure kind id parameters body env => cases kind <;> rfl
  | _ => rfl

theorem docOf_rename : docOf (value.rename ρ) = (docOf value).rename ρ := by
  cases value <;> rfl

theorem hasType_rename (type : ValueType) :
    hasType type (value.rename ρ) = renamed ρ (Value.rename ρ) (hasType type value) := by
  rw [hasType, Value.type_rename]
  rfl

/-- Operations do not see the names of frames. -/
theorem run_rename (operation : Operation) (arguments : List Value) :
    operation.run (arguments.map (Value.rename ρ)) =
      renamed ρ (Value.rename ρ) (operation.run arguments) := by
  by_cases admitted : operation.signature.arity.admits arguments.length = true
  case neg =>
    have refused := Bool.eq_false_iff.mpr admitted
    have sameCount : (arguments.map (Value.rename ρ)).length = arguments.length :=
      List.length_map _
    rw [run_eq_wrongCount_of_arity operation _ refused,
      run_eq_wrongCount_of_arity operation _ (sameCount ▸ refused), sameCount]
    rfl
  cases operation with
  | add | subtract | multiply | divide | less | lessOrEqual | greater | greaterOrEqual =>
    obtain ⟨left, right, rfl⟩ := Arity.exists_of_exactly_two admitted
    exact onNumbers_rename ρ left right fun x y => rfl
  | equal =>
    obtain ⟨left, right, rfl⟩ := Arity.exists_of_exactly_two admitted
    exact congrArg (fun same => Except.ok (Value.bool same)) (Value.rename_beq_rename ρ left right)
  | list | vector => exact congrArg Except.ok (Value.rename_seq ρ _ arguments).symm
  | cons =>
    obtain ⟨item, sequence, rfl⟩ := Arity.exists_of_exactly_two admitted
    refine renamed_bind ρ (Value.expectItems_rename ρ sequence) fun items => ?_
    exact congrArg Except.ok (Value.rename_seq ρ .list (item :: items)).symm
  | concat =>
    refine renamed_bind ρ (mapM_expectItems_rename ρ arguments) fun lists => ?_
    change Except.ok _ = Except.ok _
    rw [← List.map_flatten, Value.rename_seq]
  | first =>
    obtain ⟨sequence, rfl⟩ := Arity.exists_of_exactly_one admitted
    exact firstOf_rename ρ sequence
  | rest =>
    obtain ⟨sequence, rfl⟩ := Arity.exists_of_exactly_one admitted
    exact restOf_rename ρ sequence
  | nth =>
    obtain ⟨sequence, index, rfl⟩ := Arity.exists_of_exactly_two admitted
    exact nthOf_rename ρ sequence index
  | count | isEmpty =>
    obtain ⟨value, rfl⟩ := Arity.exists_of_exactly_one admitted
    exact renamed_bind ρ (sizeOf_rename ρ value) fun size => rfl
  | hashMap =>
    refine renamed_bind ρ (entriesOf_rename ρ arguments) fun entries => ?_
    exact congrArg Except.ok (Value.rename_map ρ entries).symm
  | assoc =>
    obtain ⟨value, forms, rfl⟩ := Arity.exists_of_atLeast_one admitted
    exact assocTo_rename ρ value forms
  | dissoc =>
    obtain ⟨value, removed, rfl⟩ := Arity.exists_of_atLeast_one admitted
    exact dissocFrom_rename ρ value removed
  | get =>
    obtain ⟨value, key, rfl⟩ := Arity.exists_of_exactly_two admitted
    exact getFrom_rename ρ value key
  | contains =>
    obtain ⟨value, key, rfl⟩ := Arity.exists_of_exactly_two admitted
    refine renamed_bind ρ (Value.expectEntries_rename ρ value) fun entries => ?_
    change Except.ok _ = Except.ok _
    rw [Entries.contains, Entries.find?_rename, Option.isSome_map]
    rfl
  | keys =>
    obtain ⟨value, rfl⟩ := Arity.exists_of_exactly_one admitted
    refine renamed_bind ρ (Value.expectEntries_rename ρ value) fun entries => ?_
    change Except.ok _ = Except.ok _
    rw [Entries.keys_rename, Value.rename_seq]
  | vals =>
    obtain ⟨value, rfl⟩ := Arity.exists_of_exactly_one admitted
    refine renamed_bind ρ (Value.expectEntries_rename ρ value) fun entries => ?_
    change Except.ok _ = Except.ok _
    rw [Entries.values_rename, Value.rename_seq]
  | isNil | isSymbol | isKeyword | isList | isVector | isMap | isAtom =>
    obtain ⟨value, rfl⟩ := Arity.exists_of_exactly_one admitted
    exact hasType_rename ρ value _
  | isSequential =>
    obtain ⟨value, rfl⟩ := Arity.exists_of_exactly_one admitted
    change Except.ok _ = Except.ok _
    rw [Value.items?_rename, Option.isSome_map]
    rfl
  | isTrue | isFalse =>
    obtain ⟨value, rfl⟩ := Arity.exists_of_exactly_one admitted
    change Except.ok _ = Except.ok _
    rw [Value.bool?_rename]
    rfl
  | isFunction =>
    obtain ⟨value, rfl⟩ := Arity.exists_of_exactly_one admitted
    change Except.ok _ = Except.ok _
    rw [Value.isFunction_rename]
    rfl
  | symbol =>
    obtain ⟨value, rfl⟩ := Arity.exists_of_exactly_one admitted
    exact renamed_bind ρ (Value.expectString_rename ρ value) fun name => rfl
  | keyword =>
    obtain ⟨value, rfl⟩ := Arity.exists_of_exactly_one admitted
    exact keywordOf_rename ρ value
  | readString =>
    obtain ⟨value, rfl⟩ := Arity.exists_of_exactly_one admitted
    exact renamed_bind ρ (Value.expectString_rename ρ value) fun text => Form.ofText_renamed ρ text
  | throw =>
    obtain ⟨value, rfl⟩ := Arity.exists_of_exactly_one admitted
    rfl
  | doc =>
    obtain ⟨value, rfl⟩ := Arity.exists_of_exactly_one admitted
    exact congrArg Except.ok (docOf_rename ρ value)

end Operation

/-! ### Templates and parameters -/

namespace Template

theorem operand_rename (mark : TemplateMark) (operands : List Value) :
    operand mark (operands.map (Value.rename ρ)) =
      renamed ρ (Value.rename ρ) (operand mark operands) := by
  cases operands <;> rfl

theorem splice?_rename (item : Value) :
    splice? (item.rename ρ) = (splice? item).map (List.map (Value.rename ρ)) := by
  unfold splice?
  rw [Value.items?_rename]
  match item.items? with
  | none => rfl
  | some [] => rfl
  | some (head :: operands) =>
    simp only [Option.map_some, List.map_cons, Value.isSymbol_rename]
    split <;> rfl

mutual

/-- Templates do not see the names of frames. -/
theorem expand_rename (template : Value) :
    expand (template.rename ρ) = renamed ρ (Value.rename ρ) (expand template) := by
  match template with
  | .seq kind [] => rfl
  | .seq kind (item :: rest) =>
    rw [Value.rename_seq]
    exact expandItems_rename (item :: rest)
  | .nil | .bool _ | .number _ | .string _ | .symbol _ | .keyword _ | .map _ | .atom _ | .native _
  | .procedure .. => rfl

theorem expandItems_rename (items : List Value) :
    expandItems (items.map (Value.rename ρ)) =
      renamed ρ (Value.rename ρ) (expandItems items) := by
  match items with
  | [] => rfl
  | item :: rest =>
    rw [List.map_cons, expandItems, expandItems, Value.isSymbol_rename, splice?_rename]
    split
    · exact operand_rename ρ .unquote rest
    · cases splice? item with
      | some operands =>
        refine renamed_bind ρ (operand_rename ρ .spliceUnquote operands) fun form => ?_
        refine renamed_bind ρ (expandItems_rename rest) fun tail => ?_
        exact congrArg Except.ok (Value.rename_call ρ "concat" [form, tail]).symm
      | none =>
        refine renamed_bind ρ (expand_rename item) fun form => ?_
        refine renamed_bind ρ (expandItems_rename rest) fun tail => ?_
        exact congrArg Except.ok (Value.rename_call ρ "cons" [form, tail]).symm

end

end Template

namespace Bindings

theorem insert_rename (bindings : Bindings) (name : String) (value : Value) :
    insert (bindings.rename ρ) name (value.rename ρ) = rename ρ (insert bindings name value) := by
  induction bindings with
  | nil => rfl
  | cons binding rest ih =>
    obtain ⟨bound, old⟩ := binding
    have first : rename ρ ((bound, old) :: rest) = (bound, old.rename ρ) :: rename ρ rest := rfl
    rw [first, insert, insert, ih]
    split <;> rfl

theorem find?_rename (bindings : Bindings) (name : String) :
    find? (bindings.rename ρ) name = (find? bindings name).map (Value.rename ρ) := by
  induction bindings with
  | nil => rfl
  | cons binding rest ih =>
    obtain ⟨bound, old⟩ := binding
    have first : rename ρ ((bound, old) :: rest) = (bound, old.rename ρ) :: rename ρ rest := rfl
    rw [first, find?_cons, find?_cons, ih]
    split <;> rfl

end Bindings

namespace Binder

theorem nameOf_rename (parameter : Value) :
    nameOf (parameter.rename ρ) = renamed ρ id (nameOf parameter) := by
  rw [nameOf, Value.symbol?_rename, Value.type_rename, nameOf]
  cases parameter.symbol? <;> rfl

theorem bindEach_rename (bindings : Bindings) (parameters arguments : List Value) :
    bindEach (bindings.rename ρ) (parameters.map (Value.rename ρ))
        (arguments.map (Value.rename ρ)) =
      renamed ρ (Bindings.rename ρ) (bindEach bindings parameters arguments) := by
  induction parameters generalizing bindings arguments with
  | nil => rfl
  | cons parameter parameters ih =>
    cases arguments with
    | nil => rfl
    | cons argument arguments =>
      rw [List.map_cons, List.map_cons, bindEach, bindEach]
      refine renamed_bind ρ (nameOf_rename ρ parameter) fun name => ?_
      rw [id_eq, Bindings.insert_rename, ih]

theorem split_rename (parameters : List Value) :
    split (parameters.map (Value.rename ρ)) =
      renamed ρ (Prod.map (List.map (Value.rename ρ)) (Option.map (Value.rename ρ)))
        (split parameters) := by
  have positional : (parameters.map (Value.rename ρ)).takeWhile (fun p => !p.isSymbol restMarker) =
      (parameters.takeWhile fun p => !p.isSymbol restMarker).map (Value.rename ρ) := by
    rw [List.takeWhile_map]
    simp only [Function.comp_def, Value.isSymbol_rename]
  unfold split
  simp only [positional, List.length_map, ← List.map_drop]
  -- One name, which binds all further arguments, must follow the marker, and no more.
  generalize parameters.drop _ = following
  rcases following with _ | ⟨_, _ | ⟨rest, _ | _⟩⟩ <;> rfl

/-- The binding of parameters does not see the names of frames. -/
theorem bind_rename (parameters arguments : List Value) :
    bind (parameters.map (Value.rename ρ)) (arguments.map (Value.rename ρ)) =
      renamed ρ (Bindings.rename ρ) (bind parameters arguments) := by
  refine renamed_bind ρ (split_rename ρ parameters) fun (positional, rest) => ?_
  simp only [Prod.map_apply, List.length_map]
  split
  · rfl
  · refine renamed_bind ρ (bindEach_rename ρ [] positional arguments) fun made => ?_
    cases rest with
    | none => rfl
    | some parameter =>
      refine renamed_bind ρ (nameOf_rename ρ parameter) fun name => ?_
      have inserted := Bindings.insert_rename ρ made name (.list (arguments.drop positional.length))
      rw [Value.rename_seq, List.map_drop] at inserted
      exact congrArg Except.ok inserted

end Binder

end SmallLisp
