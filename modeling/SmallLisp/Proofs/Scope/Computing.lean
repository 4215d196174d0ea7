import SmallLisp.Binder
import SmallLisp.Native.Operation
import SmallLisp.Proofs.Scope.Mention
import SmallLisp.Template

/-!
# Computing makes up no scopes

What is read from a text mentions no scope. What an operation, the rewriting of a template or the
binding of parameters gives, be it a value or an error, mentions only what it was given mentions.

## Main results

* `Form.yields_ofText`: what is read mentions no scope
* `Operation.yields_run`: operations make up no scopes
* `Template.yields_expand`: nor do templates
* `Binder.yields_bind`: nor does the binding of parameters
-/

namespace SmallLisp

variable {known : Env → Prop}

/-! ### Forms that are read -/

namespace Form

/-- What has been read of a form that has begun is of a given sort. -/
def Unfinished.Within (known : Env → Prop) : Unfinished → Prop
  | .sequence _ reversed => ∀ item ∈ reversed, item.Within known
  | .marked _ | .noteMark => True
  | .noted note => note.Within known

/-- What has been read so far is of a given sort. -/
def Progress.Within (known : Env → Prop) : Progress → Prop
  | .finished form => form.Within known
  | .unfinished around => ∀ outer ∈ around, outer.Within known

/-- What a token leads to is of a given sort, and its error carries no value. -/
def Step.Within (known : Env → Prop) : Step → Prop
  | .advanced progress => progress.Within known
  | .failed error | .refused error => error.Within known

theorem within_call (name : String) {arguments : List Value}
    (within : ∀ argument ∈ arguments, argument.Within known) :
    (call name arguments).Within known := by
  rw [call, Value.within_seq]
  intro item mem
  rcases List.mem_cons.mp mem with rfl | mem
  · exact Value.within_symbol name
  · exact within item mem

theorem within_deliver {form : Value} {around : List Unfinished} (within : form.Within known)
    (ofAround : ∀ outer ∈ around, outer.Within known) : (deliver form around).Within known := by
  -- A mark makes a new form of the delivered one, and that is delivered further out.
  induction around generalizing form with
  | nil => exact within
  | cons inner outer ih =>
    have ofInner := ofAround inner List.mem_cons_self
    have ofOuter := fun other mem => ofAround other (List.mem_cons_of_mem inner mem)
    cases inner with
    | sequence delimiters reversed =>
      intro other mem
      rcases List.mem_cons.mp mem with rfl | mem
      · exact List.forall_mem_cons.mpr ⟨within, ofInner⟩
      · exact ofOuter other mem
    | marked name => exact ih (within_call name (by simpa using within)) ofOuter
    | noteMark =>
      intro other mem
      rcases List.mem_cons.mp mem with rfl | mem
      · exact within
      · exact ofOuter other mem
    | noted note =>
      exact ih (within_call _ (by simpa using ⟨within, ofInner⟩)) ofOuter

theorem yields_build (delimiters : Delimiters) {items : List Value}
    (within : ∀ item ∈ items, item.Within known) :
    Yields known (·.Within known) (delimiters.build items) := by
  cases delimiters with
  | parens => exact (Value.within_seq _ _).mpr within
  | brackets => exact (Value.within_seq _ _).mpr within
  | braces =>
    rw [Delimiters.build]
    split
    · rename_i entries made
      exact Entries.within_ofForms? within made
    · trivial

theorem within_constant? {lexeme : String} {value : Value} (named : constant? lexeme = some value) :
    value.Within known := by
  unfold constant? at named
  split at named
  · cases named
    exact Value.within_nil
  · split at named
    · cases named
      exact Value.within_bool true
    · split at named
      · cases named
        exact Value.within_bool false
      · cases named

theorem within_literalOrSymbol? {lexeme : String} {value : Value}
    (denotes : literalOrSymbol? lexeme = some value) : value.Within known := by
  unfold literalOrSymbol? at denotes
  split at denotes
  · split at denotes
    · cases denotes
      exact Value.within_string _
    · cases denotes
  · cases denotes
    exact Value.within_symbol lexeme

theorem within_ofLexeme? {lexeme : String} {value : Value}
    (denotes : ofLexeme? lexeme = some value) : value.Within known := by
  unfold ofLexeme? at denotes
  split at denotes
  · rename_i constant isConstant
    cases denotes
    exact within_constant? isConstant
  · cases denotes
    exact Value.within_keyword _
  · split at denotes
    · cases denotes
      exact Value.within_number _
    · exact within_literalOrSymbol? denotes

theorem yields_ofAtom (token : Token) : Yields known (·.Within known) (ofAtom token) := by
  unfold ofAtom
  split
  · rename_i value denotes
    exact within_ofLexeme? denotes
  · trivial

theorem within_start (token : Token) {around : List Unfinished}
    (within : ∀ outer ∈ around, outer.Within known) : (start token around).Within known := by
  have opens (inner : Unfinished) (ofInner : inner.Within known) :
      (Step.advanced (.unfinished (inner :: around))).Within known :=
    List.forall_mem_cons.mpr ⟨ofInner, within⟩
  unfold start
  split
  -- Only an atom brings in a value; all other tokens begin a form or fail.
  case h_13 =>
    have ofAtom : Yields known (·.Within known) (ofAtom token) := yields_ofAtom token
    split
    · rename_i value isValue
      rw [isValue] at ofAtom
      exact within_deliver ofAtom within
    · rename_i error isError
      rw [isError] at ofAtom
      exact ofAtom
  all_goals first | trivial | exact opens _ (by simp [Unfinished.Within])

theorem within_step (token : Token) {around : List Unfinished}
    (within : ∀ outer ∈ around, outer.Within known) : (step token around).Within known := by
  unfold step
  split
  · rename_i delimiters reversed outer
    -- The token closes the innermost sequence, is another closer, or begins a form in it.
    split
    · have ofItems : ∀ item ∈ reversed.reverse, item.Within known := fun item mem =>
        within _ List.mem_cons_self item (List.mem_reverse.mp mem)
      have built := yields_build delimiters ofItems
      unfold close
      split
      · rename_i value isValue
        rw [isValue] at built
        exact within_deliver built fun other mem => within other (List.mem_cons_of_mem _ mem)
      · rename_i error isError
        rw [isError] at built
        exact built
    · split
      · trivial
      · exact within_start token within
  · exact within_start token within

theorem yields_readWithin {around : List Unfinished} (tokens : List Token)
    (within : ∀ outer ∈ around, outer.Within known) :
    Yields known (·.Within known) (readWithin around tokens).outcome := by
  induction tokens generalizing around with
  | nil => trivial
  | cons token rest ih =>
    have reads := within_step token within
    unfold readWithin
    split <;> rename_i goesOn <;> rw [goesOn] at reads
    · exact reads
    · exact ih reads
    · exact reads
    · exact reads

/-- What is read from a text, form or error, mentions no scope. -/
theorem yields_ofText (text : String) : Yields known (·.Within known) (ofText text) :=
  yields_readWithin (Token.scan text) (by simp)

end Form

/-! ### Operations -/

namespace Operation

theorem yields_onNumbers {f : Float → Float → Value} (left right : Value)
    (within : ∀ x y, (f x y).Within known) :
    Yields known (·.Within known) (onNumbers f left right) := by
  simp only [onNumbers, Value.expectNumber, yields_bind, yields_expect, yields_pure]
  exact fun x _ y _ => within x y

theorem yields_entriesOf {forms : List Value} (within : ∀ form ∈ forms, form.Within known) :
    Yields known (fun entries => (Value.map entries).Within known) (entriesOf forms) := by
  unfold entriesOf
  split
  · rename_i entries made
    exact Entries.within_ofForms? within made
  · trivial

theorem yields_sizeOf (value : Value) : Yields known (fun _ => True) (sizeOf value) := by
  unfold sizeOf
  split
  · trivial
  · trivial
  · simp [Value.expectItems]

theorem yields_firstOf {value : Value} (within : value.Within known) :
    Yields known (·.Within known) (firstOf value) := by
  unfold firstOf
  split
  · simp
  · rw [yields_bind]
    exact (yields_expectItems within).mono fun items ofItems =>
      Value.within_headD ofItems .nil Value.within_nil

theorem yields_restOf {value : Value} (within : value.Within known) :
    Yields known (·.Within known) (restOf value) := by
  unfold restOf
  split
  · simp
  · rw [yields_bind]
    refine (yields_expectItems within).mono fun items ofItems => ?_
    exact (Value.within_seq _ _).mpr fun item mem => ofItems item (List.mem_of_mem_tail mem)

theorem yields_nthOf {sequence index : Value} (within : sequence.Within known) :
    Yields known (·.Within known) (nthOf sequence index) := by
  rw [nthOf, yields_bind]
  refine (yields_expectItems within).mono fun items ofItems => ?_
  rw [yields_bind, Value.expectNumber, yields_expect]
  intro x _
  split
  · unfold itemAt
    split
    · rename_i item found
      exact ofItems item (List.mem_of_getElem? found)
    · trivial
  · trivial

theorem yields_getFrom {value key : Value} (within : value.Within known) :
    Yields known (·.Within known) (getFrom value key) := by
  unfold getFrom
  split
  · simp
  · rw [yields_bind]
    refine (yields_expectEntries within).mono fun entries ofEntries => ?_
    rw [yields_pure]
    cases found : Entries.find? entries key with
    | none => exact Value.within_nil
    | some content => exact Entries.within_find? ofEntries found

theorem yields_assocTo {value : Value} {forms : List Value} (within : value.Within known)
    (ofForms : ∀ form ∈ forms, form.Within known) :
    Yields known (·.Within known) (assocTo value forms) := by
  rw [assocTo, yields_bind]
  refine (yields_expectEntries within).mono fun entries ofEntries => ?_
  rw [yields_bind]
  exact (yields_entriesOf ofForms).mono fun more => Entries.within_insertAll ofEntries

theorem yields_dissocFrom {value : Value} (removed : List Value) (within : value.Within known) :
    Yields known (·.Within known) (dissocFrom value removed) := by
  rw [dissocFrom, yields_bind]
  refine (yields_expectEntries within).mono fun entries ofEntries => ?_
  rw [yields_pure]
  induction removed generalizing entries with
  | nil => exact ofEntries
  | cons key rest ih => exact ih _ (Entries.within_erase ofEntries key)

theorem yields_cons {item sequence : Value} (ofItem : item.Within known)
    (within : sequence.Within known) :
    Yields known (·.Within known) (run .cons [item, sequence]) := by
  rw [run, yields_bind]
  refine (yields_expectItems within).mono fun items ofItems => ?_
  rw [yields_pure, Value.within_seq]
  intro other mem
  rcases List.mem_cons.mp mem with rfl | mem
  · exact ofItem
  · exact ofItems other mem

theorem yields_mapM_expectItems {sequences : List Value}
    (within : ∀ sequence ∈ sequences, sequence.Within known) :
    Yields known (fun lists => ∀ items ∈ lists, ∀ item ∈ items, item.Within known)
      (sequences.mapM Value.expectItems) := by
  induction sequences with
  | nil => simp
  | cons sequence rest ih =>
    rw [List.mapM_cons, yields_bind]
    refine (yields_expectItems (within sequence List.mem_cons_self)).mono fun items ofItems => ?_
    rw [yields_bind]
    refine (ih fun other mem => within other (List.mem_cons_of_mem sequence mem)).mono
      fun lists ofLists => ?_
    rw [yields_pure]
    intro others mem
    rcases List.mem_cons.mp mem with rfl | mem
    · exact ofItems
    · exact ofLists others mem

theorem yields_concat {sequences : List Value}
    (within : ∀ sequence ∈ sequences, sequence.Within known) :
    Yields known (·.Within known) (run .concat sequences) := by
  rw [run, yields_bind]
  refine (yields_mapM_expectItems within).mono fun lists ofLists => ?_
  rw [yields_pure, Value.within_seq]
  intro item mem
  obtain ⟨items, isList, mem⟩ := List.mem_flatten.mp mem
  exact ofLists items isList item mem

theorem yields_keys {value : Value} (within : value.Within known) :
    Yields known (·.Within known) (run .keys [value]) := by
  rw [run, yields_bind]
  refine (yields_expectEntries within).mono fun entries ofEntries => ?_
  rw [yields_pure, Value.within_seq]
  intro key mem
  obtain ⟨entry, isEntry, rfl⟩ := List.mem_map.mp mem
  exact ((Value.within_map entries).mp ofEntries entry isEntry).1

theorem yields_vals {value : Value} (within : value.Within known) :
    Yields known (·.Within known) (run .vals [value]) := by
  rw [run, yields_bind]
  refine (yields_expectEntries within).mono fun entries ofEntries => ?_
  rw [yields_pure, Value.within_seq]
  intro content mem
  obtain ⟨entry, isEntry, rfl⟩ := List.mem_map.mp mem
  exact ((Value.within_map entries).mp ofEntries entry isEntry).2

theorem yields_keywordOf (value : Value) : Yields known (·.Within known) (keywordOf value) := by
  unfold keywordOf
  split
  · exact Value.within_keyword _
  · simp [Value.expectString]

theorem within_docOf (value : Value) : (docOf value).Within known := by
  unfold docOf
  split
  · exact Value.within_string _
  · exact Value.within_nil

/-- What an operation gives mentions only what its arguments mention. -/
theorem yields_run (operation : Operation) {arguments : List Value}
    (within : ∀ argument ∈ arguments, argument.Within known) :
    Yields known (·.Within known) (operation.run arguments) := by
  by_cases admitted : operation.signature.arity.admits arguments.length = true
  case neg =>
    rw [run_eq_wrongCount_of_arity operation arguments (by simpa using admitted)]
    trivial
  cases operation with
  | add | subtract | multiply | divide =>
    obtain ⟨left, right, rfl⟩ := Arity.exists_of_exactly_two admitted
    exact yields_onNumbers left right fun x y => Value.within_number _
  | less | lessOrEqual | greater | greaterOrEqual =>
    obtain ⟨left, right, rfl⟩ := Arity.exists_of_exactly_two admitted
    exact yields_onNumbers left right fun x y => Value.within_bool _
  | equal =>
    obtain ⟨left, right, rfl⟩ := Arity.exists_of_exactly_two admitted
    exact Value.within_bool _
  | list | vector => exact (Value.within_seq _ _).mpr within
  | cons =>
    obtain ⟨item, sequence, rfl⟩ := Arity.exists_of_exactly_two admitted
    exact yields_cons (within item (by simp)) (within sequence (by simp))
  | concat => exact yields_concat within
  | first =>
    obtain ⟨sequence, rfl⟩ := Arity.exists_of_exactly_one admitted
    exact yields_firstOf (within sequence (by simp))
  | rest =>
    obtain ⟨sequence, rfl⟩ := Arity.exists_of_exactly_one admitted
    exact yields_restOf (within sequence (by simp))
  | nth =>
    obtain ⟨sequence, index, rfl⟩ := Arity.exists_of_exactly_two admitted
    exact yields_nthOf (within sequence (by simp))
  | count =>
    obtain ⟨value, rfl⟩ := Arity.exists_of_exactly_one admitted
    rw [run, yields_bind]
    exact (yields_sizeOf value).mono fun size _ => Value.within_number _
  | isEmpty =>
    obtain ⟨value, rfl⟩ := Arity.exists_of_exactly_one admitted
    rw [run, yields_bind]
    exact (yields_sizeOf value).mono fun size _ => Value.within_bool _
  | hashMap =>
    rw [run, yields_bind]
    exact (yields_entriesOf within).mono fun entries ofEntries => ofEntries
  | assoc =>
    obtain ⟨value, forms, rfl⟩ := Arity.exists_of_atLeast_one admitted
    exact yields_assocTo (within value List.mem_cons_self)
      fun form mem => within form (List.mem_cons_of_mem value mem)
  | dissoc =>
    obtain ⟨value, removed, rfl⟩ := Arity.exists_of_atLeast_one admitted
    exact yields_dissocFrom removed (within value List.mem_cons_self)
  | get =>
    obtain ⟨value, key, rfl⟩ := Arity.exists_of_exactly_two admitted
    exact yields_getFrom (within value (by simp))
  | contains =>
    obtain ⟨value, key, rfl⟩ := Arity.exists_of_exactly_two admitted
    simp [run, Value.expectEntries]
  | keys =>
    obtain ⟨value, rfl⟩ := Arity.exists_of_exactly_one admitted
    exact yields_keys (within value (by simp))
  | vals =>
    obtain ⟨value, rfl⟩ := Arity.exists_of_exactly_one admitted
    exact yields_vals (within value (by simp))
  | isSequential | isNil | isTrue | isFalse | isSymbol | isKeyword | isList | isVector | isMap
  | isAtom | isFunction =>
    obtain ⟨value, rfl⟩ := Arity.exists_of_exactly_one admitted
    exact Value.within_bool _
  | symbol =>
    obtain ⟨value, rfl⟩ := Arity.exists_of_exactly_one admitted
    simp [run, Value.expectString]
  | keyword =>
    obtain ⟨value, rfl⟩ := Arity.exists_of_exactly_one admitted
    exact yields_keywordOf value
  | readString =>
    obtain ⟨value, rfl⟩ := Arity.exists_of_exactly_one admitted
    rw [run, yields_bind, Value.expectString, yields_expect]
    exact fun text _ => Form.yields_ofText text
  | throw =>
    obtain ⟨value, rfl⟩ := Arity.exists_of_exactly_one admitted
    exact within value (by simp)
  | doc =>
    obtain ⟨value, rfl⟩ := Arity.exists_of_exactly_one admitted
    exact within_docOf value

end Operation

/-! ### Templates and parameters -/

namespace Template

theorem yields_operand (mark : TemplateMark) {operands : List Value}
    (within : ∀ operand ∈ operands, operand.Within known) :
    Yields known (·.Within known) (operand mark operands) := by
  unfold operand
  split
  · exact within _ List.mem_cons_self
  · trivial

theorem within_splice? {item : Value} {operands : List Value} (within : item.Within known)
    (spliced : splice? item = some operands) : ∀ operand ∈ operands, operand.Within known := by
  unfold splice? at spliced
  split at spliced
  · rename_i head rest isSeq
    split at spliced
    · cases spliced
      -- Only a list or a vector has items.
      cases item <;> cases isSeq
      exact fun operand mem => (Value.within_seq _ _).mp within operand (List.mem_cons_of_mem _ mem)
    · cases spliced
  · cases spliced

theorem within_quoted {form : Value} (within : form.Within known) :
    (Form.call "quote" [form]).Within known :=
  Form.within_call "quote" (by simpa using within)

mutual

/-- The form that builds what a template describes mentions only what the template mentions. -/
theorem yields_expand (template : Value) (within : template.Within known) :
    Yields known (·.Within known) (expand template) := by
  match template, within with
  | .seq kind [], within => exact within_quoted within
  | .seq kind (item :: rest), within =>
    exact yields_expandItems (item :: rest) ((Value.within_seq _ _).mp within)
  | .nil, within | .bool _, within | .number _, within | .string _, within | .symbol _, within
  | .keyword _, within | .map _, within | .atom _, within | .native _, within
  | .procedure .., within => exact within_quoted within

theorem yields_expandItems (items : List Value) (within : ∀ item ∈ items, item.Within known) :
    Yields known (·.Within known) (expandItems items) := by
  match items, within with
  | [], _ => exact within_quoted (by simp)
  | item :: rest, within =>
    have ofItem := within item List.mem_cons_self
    have ofRest := fun other mem => within other (List.mem_cons_of_mem item mem)
    unfold expandItems
    split
    · exact yields_operand .unquote ofRest
    · split
      · rename_i operands spliced
        rw [yields_bind]
        refine (yields_operand .spliceUnquote (within_splice? ofItem spliced)).mono
          fun form ofForm => ?_
        rw [yields_bind]
        refine (yields_expandItems rest ofRest).mono fun tail ofTail => ?_
        exact Form.within_call "concat" (by simpa using ⟨ofForm, ofTail⟩)
      · rw [yields_bind]
        refine (yields_expand item ofItem).mono fun form ofForm => ?_
        rw [yields_bind]
        refine (yields_expandItems rest ofRest).mono fun tail ofTail => ?_
        exact Form.within_call "cons" (by simpa using ⟨ofForm, ofTail⟩)

end

end Template

namespace Bindings

theorem within_insert {bindings : Bindings} {name : String} {value : Value}
    (within : ∀ binding ∈ bindings, binding.2.Within known) (ofValue : value.Within known) :
    ∀ binding ∈ bindings.insert name value, binding.2.Within known := by
  induction bindings with
  | nil => simpa [insert] using ofValue
  | cons first rest ih =>
    have ofFirst := within first List.mem_cons_self
    have ofRest := fun binding mem => within binding (List.mem_cons_of_mem first mem)
    rw [insert]
    split
    · exact List.forall_mem_cons.mpr ⟨ofValue, ofRest⟩
    · exact List.forall_mem_cons.mpr ⟨ofFirst, ih ofRest⟩

theorem within_find? {bindings : Bindings} {name : String} {value : Value}
    (within : ∀ binding ∈ bindings, binding.2.Within known)
    (found : bindings.find? name = some value) : value.Within known := by
  obtain ⟨before, after, rfl, _⟩ := List.lookup_eq_some_iff.mp found
  exact within (name, value) (by simp)

end Bindings

namespace Binder

theorem yields_nameOf (parameter : Value) : Yields known (fun _ => True) (nameOf parameter) := by
  unfold nameOf
  split <;> trivial

theorem yields_bindEach {bindings : Bindings} {arguments : List Value} (parameters : List Value)
    (ofBindings : ∀ binding ∈ bindings, binding.2.Within known)
    (within : ∀ argument ∈ arguments, argument.Within known) :
    Yields known (fun made => ∀ binding ∈ made, binding.2.Within known)
      (bindEach bindings parameters arguments) := by
  induction parameters generalizing bindings arguments with
  | nil => exact ofBindings
  | cons parameter parameters ih =>
    cases arguments with
    | nil => exact ofBindings
    | cons argument arguments =>
      have ofArgument := within argument List.mem_cons_self
      rw [bindEach, yields_bind]
      exact (yields_nameOf parameter).mono fun name _ =>
        ih (Bindings.within_insert ofBindings ofArgument)
          fun other mem => within other (List.mem_cons_of_mem argument mem)

theorem yields_split (parameters : List Value) :
    Yields known (fun _ => True) (split parameters) := by
  unfold split
  dsimp only
  split <;> trivial

/-- What parameters are bound to mentions only what the arguments mention. -/
theorem yields_bind (parameters : List Value) {arguments : List Value}
    (within : ∀ argument ∈ arguments, argument.Within known) :
    Yields known (fun made => ∀ binding ∈ made, binding.2.Within known)
      (bind parameters arguments) := by
  rw [bind, SmallLisp.yields_bind]
  refine (yields_split parameters).mono fun (positional, rest) _ => ?_
  dsimp only
  split
  · trivial
  · rw [SmallLisp.yields_bind]
    refine (yields_bindEach positional (by simp) within).mono fun made ofMade => ?_
    cases rest with
    | none => exact ofMade
    | some parameter =>
      dsimp only
      rw [SmallLisp.yields_bind]
      refine (yields_nameOf parameter).mono fun name _ => ?_
      refine Bindings.within_insert ofMade ((Value.within_seq _ _).mpr fun argument mem => ?_)
      exact within argument (List.mem_of_mem_drop mem)

end Binder

end SmallLisp
