import SmallLisp.Proofs.Evaluation.Outcome

/-!
# Lists taken by position

The functions of the evaluator take their lists apart by patterns, so that there is always an item
where they look. Here a list is asked for the item at a position, or for the items between two
positions, and what asks for something that the list does not have gives up. The parts of the
evaluator that compute from lists alone are written anew in this way: each asks for what it needs
without a look at what there is, and none gives up.

## Main definitions

* `Taking`: a computation that gives up where a list has no such item
* `Positional.item`, `Positional.itemsFrom`, `Positional.itemsBetween`: taking items by position
* `Positional.chunks`: a list in pairs
* `Positional.bind`, `Positional.entriesOf`, `Positional.expand`: parts of the evaluator, with the
  items of their lists taken by position

## Main results

* `Positional.bind_eq`, `Positional.entriesOf_eq`, `Positional.expand_eq`: they do the same
-/

namespace SmallLisp

/-- A computation over the store that takes items of lists by position, and gives up where a list
has no such item. -/
abbrev Taking : Type → Type := OptionT Eval

namespace Taking

variable {α β : Type}

/-- A computation that takes nothing by position. -/
def of (action : Eval α) : Taking α := liftM action

@[simp] theorem of_pure (value : α) : of (pure value) = pure value := rfl

@[simp] theorem of_bind (first : Eval α) (second : α → Eval β) :
    of (first >>= second) = of first >>= fun value => of (second value) :=
  liftM_bind first second

/-- A computation, begun in a store, gives up. -/
def GivesUp (taking : Taking α) (s : Store) : Prop := ∃ t, taking.run s = .ok none t

/-- A computation that takes nothing by position does not give up. -/
theorem not_givesUp_of (action : Eval α) (s : Store) : ¬ (of action).GivesUp s := by
  rintro ⟨t, gaveUp⟩
  have lifted : (of action).run = some <$> action := rfl
  rw [lifted, Eval.map_eq_ok_iff] at gaveUp
  obtain ⟨_, _, impossible⟩ := gaveUp
  cases impossible

end Taking

namespace Positional

section Access

variable {α : Type}

/-- Asks for something that is not there. -/
def giveUp : Taking α := OptionT.fail

/-- The item at a position. -/
def item (items : List α) (position : Nat) : Taking α := OptionT.mk (pure items[position]?)

/-- The items from one position up to another. -/
def itemsBetween (items : List α) (start stop : Nat) : Taking (List α) :=
  if start ≤ stop ∧ stop ≤ items.length then return (items.take stop).drop start else giveUp

/-- The items from a position on. -/
def itemsFrom (items : List α) (start : Nat) : Taking (List α) :=
  itemsBetween items start items.length

/-- The last position. -/
def lastPosition (items : List α) : Taking Nat :=
  if 1 ≤ items.length then return items.length - 1 else giveUp

/-- A list in pairs. The last item of an odd number is left alone. -/
def chunks : List α → List (List α)
  | [] => []
  | [last] => [[last]]
  | first :: second :: rest => [first, second] :: chunks rest

theorem item_of_getElem? {items : List α} {position : Nat} {value : α}
    (isItem : items[position]? = some value) : item items position = pure value := by
  rw [item, isItem]
  rfl

@[simp] theorem item_zero (first : α) (rest : List α) : item (first :: rest) 0 = pure first := rfl

@[simp] theorem item_one (first second : α) (rest : List α) :
    item (first :: second :: rest) 1 = pure second := rfl

theorem itemsFrom_length_append (before after : List α) :
    itemsFrom (before ++ after) before.length = pure after := by
  rw [itemsFrom, itemsBetween, if_pos ⟨by simp, Nat.le_refl _⟩, List.take_length, List.drop_left]

@[simp] theorem itemsFrom_one (first : α) (rest : List α) :
    itemsFrom (first :: rest) 1 = pure rest :=
  itemsFrom_length_append [first] rest

@[simp] theorem itemsFrom_two (first second : α) (rest : List α) :
    itemsFrom (first :: second :: rest) 2 = pure rest :=
  itemsFrom_length_append [first, second] rest

section Last

variable (first last : α) (middle : List α)

@[simp] theorem lastPosition_concat :
    lastPosition (first :: (middle ++ [last])) = pure (middle.length + 1) := by
  rw [lastPosition, if_pos (by simp)]
  simp

@[simp] theorem item_concat :
    item (first :: (middle ++ [last])) (middle.length + 1) = pure last :=
  item_of_getElem? (by simp)

@[simp] theorem itemsBetween_concat :
    itemsBetween (first :: (middle ++ [last])) 1 (middle.length + 1) = pure middle := by
  rw [itemsBetween, if_pos ⟨Nat.le_add_left 1 _, by simp⟩]
  simp

end Last

end Access

theorem ofExcept_bind {α β : Type} (first : Except Error α) (second : α → Except Error β) :
    Eval.ofExcept (first >>= second) =
      Eval.ofExcept first >>= fun value => Eval.ofExcept (second value) := by
  cases first with
  | ok value => rfl
  | error error => rfl

/-! ### Parameters -/

/-- The positional parameters and the rest parameter, on either side of the first marker. -/
def split (parameters : List Value) : Taking (List Value × Option Value) :=
  match parameters.findIdx? fun parameter => parameter.isSymbol Binder.restMarker with
  | none => return (parameters, none)
  | some marker =>
    if marker + 2 = parameters.length then do
      let positional ← itemsBetween parameters 0 marker
      return (positional, some (← item parameters (marker + 1)))
    else .of (Eval.fail (.binder .restMarker))

/-- The bindings of parameters to arguments. -/
def bind (parameters arguments : List Value) : Taking Bindings := do
  let (positional, rest) ← split parameters
  if arguments.length < positional.length then
    .of (Eval.fail (.tooFewArguments positional.length arguments.length))
  else
    let bindings ← .of (Eval.ofExcept (Binder.bindEach [] positional arguments))
    match rest with
    | none => return bindings
    | some parameter =>
      let remaining ← itemsFrom arguments positional.length
      return bindings.insert (← .of (Eval.ofExcept (Binder.nameOf parameter))) (.list remaining)

theorem split_eq (parameters : List Value) :
    split parameters = .of (Eval.ofExcept (Binder.split parameters)) := by
  have unmarked : parameters.takeWhile (fun parameter => !parameter.isSymbol Binder.restMarker) =
      parameters.take
        (parameters.findIdx fun parameter => parameter.isSymbol Binder.restMarker) := by
    simp only [List.takeWhile_eq_take_findIdx_not, Bool.not_not]
  rw [split, Binder.split, unmarked]
  cases found : parameters.findIdx? fun parameter => parameter.isSymbol Binder.restMarker with
  | none =>
    rw [List.findIdx?_eq_none_iff_findIdx_eq.mp found, List.take_length, List.drop_length]
    rfl
  | some marker =>
    obtain ⟨bound, first⟩ := List.findIdx?_eq_some_iff_findIdx_eq.mp found
    rw [first, List.length_take_of_le (Nat.le_of_lt bound), List.drop_eq_getElem_cons bound]
    -- Behind the marker there must be one parameter, which is asked for by its position.
    by_cases last : marker + 2 = parameters.length
    · have isNext : marker + 1 < parameters.length := by omega
      have isLast : parameters.drop (marker + 1) = [parameters[marker + 1]] := by
        rw [List.drop_eq_getElem_cons isNext, List.drop_of_length_le (by omega)]
      rw [isLast]
      simp only [if_pos last]
      rw [itemsBetween, if_pos ⟨Nat.zero_le _, Nat.le_of_lt bound⟩,
        item_of_getElem? (List.getElem?_eq_getElem isNext)]
      rfl
    · simp only [if_neg last]
      split
      · rename_i nothing
        cases nothing
      · rename_i next isPair
        have length_eq := congrArg List.length isPair
        simp only [List.length_cons, List.length_drop, List.length_nil] at length_eq
        omega
      · rfl

theorem binderBind_of_split {parameters positional : List Value} {rest : Option Value}
    (divided : Binder.split parameters = .ok (positional, rest)) (arguments : List Value) :
    Binder.bind parameters arguments =
      if arguments.length < positional.length then
        .error (.tooFewArguments positional.length arguments.length)
      else do
        let bindings ← Binder.bindEach [] positional arguments
        match rest with
        | none => return bindings
        | some parameter =>
          return bindings.insert (← Binder.nameOf parameter)
            (.list (arguments.drop positional.length)) := by
  rw [Binder.bind, divided]
  rfl

theorem bind_eq (parameters arguments : List Value) :
    bind parameters arguments = .of (Eval.ofExcept (Binder.bind parameters arguments)) := by
  rw [bind, split_eq]
  cases divided : Binder.split parameters with
  | error error =>
    rw [Binder.bind, divided]
    rfl
  | ok parts =>
    obtain ⟨positional, rest⟩ := parts
    have taken : (.of (Eval.ofExcept (.ok (positional, rest))) : Taking _) =
        pure (positional, rest) := rfl
    rw [taken, pure_bind, binderBind_of_split divided]
    by_cases tooFew : arguments.length < positional.length
    · simp only [if_pos tooFew]
      rfl
    · simp only [if_neg tooFew]
      cases Binder.bindEach [] positional arguments with
      | error error => rfl
      | ok bindings =>
        cases rest with
        | none => rfl
        | some parameter =>
          have enough : positional.length ≤ arguments.length ∧
              arguments.length ≤ arguments.length := by omega
          simp only [itemsFrom, itemsBetween, if_pos enough, List.take_length]
          cases Binder.nameOf parameter with
          | error error => rfl
          | ok name => rfl

/-! ### Keys and values -/

/-- A map from alternating keys and values. -/
def entriesOf (forms : List Value) : Taking Entries :=
  if forms.length % 2 = 1 then .of (Eval.fail (.keyWithoutValue forms.length))
  else
    (chunks forms).foldlM (fun made pair => do
      let key ← item pair 0
      return Entries.insert made key (← item pair 1)) []

theorem exists_pairs_of_even {forms : List Value} (even : forms.length % 2 = 0) :
    ∃ pairs, Entries.pairs? forms = some pairs := by
  induction forms using chunks.induct with
  | case1 => exact ⟨[], rfl⟩
  | case2 last => cases even
  | case3 key value rest ih =>
    have even : rest.length % 2 = 0 := by
      simp only [List.length_cons] at even
      omega
    obtain ⟨pairs, paired⟩ := ih even
    exact ⟨(key, value) :: pairs, by rw [Entries.pairs?, paired]; rfl⟩

/-- Inserting one pair after the other, however the items of a pair are taken. -/
theorem foldlM_chunks {m : Type → Type} [Monad m] [LawfulMonad m]
    {insert : Entries → List Value → m Entries}
    (inserts : ∀ made key value, insert made [key, value] = pure (Entries.insert made key value))
    {forms : List Value} {pairs : Entries}
    (paired : Entries.pairs? forms = some pairs) (made : Entries) :
    (chunks forms).foldlM insert made = pure (Entries.insertAll made pairs) := by
  induction forms using chunks.induct generalizing made pairs with
  | case1 =>
    cases paired
    rfl
  | case2 last => cases paired
  | case3 key value rest ih =>
    obtain ⟨others, pairedRest, rfl⟩ := Option.map_eq_some_iff.mp paired
    rw [chunks, List.foldlM_cons, inserts, pure_bind, ih pairedRest]
    rfl

theorem pairs?_of_odd {forms : List Value} (odd : forms.length % 2 = 1) :
    Entries.pairs? forms = none := by
  induction forms using chunks.induct with
  | case1 => cases odd
  | case2 last => rfl
  | case3 key value rest ih =>
    have odd : rest.length % 2 = 1 := by
      simp only [List.length_cons] at odd
      omega
    rw [Entries.pairs?, ih odd]
    rfl

theorem entriesOf_eq (forms : List Value) :
    entriesOf forms = Taking.of (Eval.ofExcept (Operation.entriesOf forms)) := by
  rw [entriesOf, Operation.entriesOf, Entries.ofForms?]
  split
  · rename_i odd
    rw [pairs?_of_odd odd]
    rfl
  · rename_i even
    obtain ⟨pairs, paired⟩ := exists_pairs_of_even (by omega : forms.length % 2 = 0)
    rw [foldlM_chunks (fun _ _ _ => rfl) paired, paired]
    rfl

/-! ### Templates -/

/-- The items of an item that is to be spliced. -/
def spliced? (form : Value) : Option (List Value) :=
  form.items?.filter fun items =>
    items.head?.any (·.isSymbol TemplateMark.spliceUnquote.keyword)

theorem sizeOf_rest_lt {items : List Value} (kind : SeqKind) (nonempty : 1 ≤ items.length) :
    sizeOf (Value.list (items.drop 1)) < sizeOf (Value.seq kind items) := by
  obtain ⟨first, rest, rfl⟩ := List.exists_cons_of_length_pos nonempty
  have sameSize : sizeOf SeqKind.list = sizeOf kind := by cases kind <;> rfl
  rw [List.drop_one, List.tail_cons, Value.seq.sizeOf_spec, Value.seq.sizeOf_spec,
    List.cons.sizeOf_spec]
  omega

/-- The form that builds what a template describes. -/
def expand : Value → Taking Value
  | .seq kind items =>
    if items.isEmpty then return Form.call "quote" [.seq kind items]
    else
      match _isHead : items[0]? with
      | none => giveUp
      | some head => do
        if head.isSymbol TemplateMark.unquote.keyword then
          .of (Eval.ofExcept (Template.operand .unquote (← itemsFrom items 1)))
        else if _shorter : 1 ≤ items.length then
          match spliced? head with
          | some inner =>
            let operands ← itemsFrom inner 1
            let spliced ← .of (Eval.ofExcept (Template.operand .spliceUnquote operands))
            return Form.call "concat" [spliced, ← expand (.list (items.drop 1))]
          | none =>
            let built ← expand head
            return Form.call "cons" [built, ← expand (.list (items.drop 1))]
        else giveUp
  | other => return Form.call "quote" [other]
termination_by template => sizeOf template
decreasing_by
  · exact sizeOf_rest_lt kind _shorter
  · exact Value.sizeOf_lt_of_mem_items kind (List.mem_of_getElem? _isHead)
  · exact sizeOf_rest_lt kind _shorter

theorem expand_cons (kind : SeqKind) (head : Value) (rest : List Value) :
    expand (.seq kind (head :: rest)) =
      if head.isSymbol TemplateMark.unquote.keyword then
        .of (Eval.ofExcept (Template.operand .unquote rest))
      else
        match spliced? head with
        | some inner => do
          let operands ← itemsFrom inner 1
          let spliced ← .of (Eval.ofExcept (Template.operand .spliceUnquote operands))
          return Form.call "concat" [spliced, ← expand (.list rest)]
        | none => do
          let built ← expand head
          return Form.call "cons" [built, ← expand (.list rest)] := by
  rw [expand]
  simp only [List.isEmpty_cons, Bool.false_eq_true, if_false, itemsFrom_one, pure_bind,
    List.drop_one, List.tail_cons, List.length_cons, Nat.le_add_left, dif_pos]
  rfl

theorem expandItems_eq (items : List Value) :
    Template.expandItems items = Template.expand (.list items) := by
  cases items with
  | nil => rfl
  | cons head rest => rfl

theorem spliced?_eq (form : Value) :
    (spliced? form = none ∧ Template.splice? form = none) ∨
      ∃ mark operands, spliced? form = some (mark :: operands) ∧
        Template.splice? form = some operands := by
  rw [spliced?, Template.splice?]
  cases form.items? with
  | none => exact .inl ⟨rfl, rfl⟩
  | some items =>
    cases items with
    | nil => exact .inl ⟨rfl, rfl⟩
    | cons mark operands =>
      cases isMark : mark.isSymbol TemplateMark.spliceUnquote.keyword with
      | false => exact .inl ⟨by simp [isMark], by simp [isMark]⟩
      | true => exact .inr ⟨mark, operands, by simp [isMark], by simp [isMark]⟩

theorem expand_eq (template : Value) :
    expand template = .of (Eval.ofExcept (Template.expand template)) := by
  cases template with
  | seq kind items =>
    cases items with
    | nil =>
      rw [expand]
      rfl
    | cons head rest =>
      have ofHead := expand_eq head
      have ofRest := expand_eq (.list rest)
      rw [expand_cons, Template.expand, Template.expandItems, expandItems_eq, ofRest, ofHead]
      split
      · rfl
      · obtain ⟨whole, whole'⟩ | ⟨mark, operands, splices, splices'⟩ := spliced?_eq head
        · simp only [whole, whole', ofExcept_bind, Taking.of_bind]
          rfl
        · simp only [splices, splices', itemsFrom_one, pure_bind, ofExcept_bind, Taking.of_bind]
          rfl
  | _ =>
    simp only [expand]
    rfl
termination_by sizeOf template
decreasing_by
  · exact Value.sizeOf_lt_of_mem_items kind List.mem_cons_self
  · have nonempty : 1 ≤ (head :: rest).length := Nat.le_add_left 1 rest.length
    exact sizeOf_rest_lt kind nonempty

end Positional

end SmallLisp
