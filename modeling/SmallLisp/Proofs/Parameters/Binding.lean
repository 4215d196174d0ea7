import SmallLisp.Proofs.Evaluation.Steps
import SmallLisp.Proofs.Positional.Access
import SmallLisp.Proofs.Scope.Frames

/-!
# What parameters are bound to

The first marker among the parameters divides them: what stands in front of it takes one argument
each, and the one parameter behind it takes the list of those that remain. A marker with another
number of parameters behind it is misplaced. How many arguments there are is looked at before any
parameter is, and a parameter that is no symbol is an error even when others have been bound by
then, for the scope that they are bound in is not seen by anyone.

Of a name that occurs twice the last place counts, and the rest parameter stands behind all others.

## Main definitions

* `Binder.LastAt`: the last place of a name among parameters
* `Extends`: the world after parameters have been bound in a new scope
* `BindingEnds`: how the binding of parameters ends, once they are divided

## Main results

* `Binder.bindEach_of_symbols`: what symbols are bound to, one by one
* `extend_ends`: what the binding of parameters comes to
-/

namespace SmallLisp

namespace Binder

/-- The last place of a name among parameters. -/
def LastAt (parameters : List Value) (name : String) (place : Nat) : Prop :=
  parameters[place]? = some (.symbol name) ∧
    ∀ later, place < later → parameters[later]? ≠ some (.symbol name)

/-! ### Parameters one by one -/

section Each

variable {positional arguments : List Value}

theorem nameOf_of_notSymbol {parameter : Value} (notSymbol : parameter.symbol? = none) :
    nameOf parameter = .error (.binder (.parameter parameter.type)) := by
  rw [nameOf, notSymbol]

theorem lastAt_cons_succ {parameter : Value} {name : String} {place : Nat}
    (last : LastAt positional name place) : LastAt (parameter :: positional) name (place + 1) := by
  refine ⟨last.1, fun later behind => ?_⟩
  obtain ⟨later, rfl⟩ := Nat.exists_eq_succ_of_ne_zero (Nat.ne_zero_of_lt behind)
  exact last.2 later (Nat.lt_of_succ_lt_succ behind)

theorem lastAt_cons_zero {name : String} (single : Value.symbol name ∉ positional) :
    LastAt (.symbol name :: positional) name 0 := by
  refine ⟨rfl, fun later behind found => ?_⟩
  obtain ⟨later, rfl⟩ := Nat.exists_eq_succ_of_ne_zero (Nat.ne_zero_of_lt behind)
  exact single (List.mem_of_getElem? found)

/-- Symbols are bound one by one: each name to the argument at its last place, and other names to
what they were bound to before. -/
theorem bindEach_of_symbols (symbols : ∀ parameter ∈ positional, parameter.symbol?.isSome)
    (enough : positional.length ≤ arguments.length) (bindings : Bindings) :
    ∃ made, bindEach bindings positional arguments = .ok made ∧
      (∀ name, .symbol name ∈ positional → ∃ place argument, LastAt positional name place ∧
        arguments[place]? = some argument ∧ made.find? name = some argument) ∧
      ∀ name, .symbol name ∉ positional → made.find? name = bindings.find? name := by
  induction positional generalizing arguments bindings with
  | nil => exact ⟨bindings, rfl, by simp, fun _ _ => rfl⟩
  | cons parameter rest ih =>
    cases arguments with
    | nil => exact absurd enough (Nat.not_succ_le_zero _)
    | cons argument others =>
      rw [List.forall_mem_cons] at symbols
      obtain ⟨bound, named⟩ := Option.isSome_iff_exists.mp symbols.1
      obtain rfl := eq_symbol_of_symbol? named
      obtain ⟨made, binds, inside, outside⟩ :=
        ih symbols.2 (Nat.le_of_succ_le_succ enough) (bindings.insert bound argument)
      refine ⟨made, binds, fun name mem => ?_, fun name free => ?_⟩
      · -- The name has a place further on, or else its only place is the first one.
        by_cases again : .symbol name ∈ rest
        · obtain ⟨place, value, last, isArgument, found⟩ := inside name again
          exact ⟨place + 1, value, lastAt_cons_succ last, isArgument, found⟩
        · obtain same : Value.symbol name = .symbol bound :=
            (List.mem_cons.mp mem).resolve_right again
          obtain rfl := Value.symbol.inj same
          refine ⟨0, argument, lastAt_cons_zero again, rfl, ?_⟩
          rw [outside name again, Bindings.find?_insert, if_pos rfl]
      · rw [List.mem_cons, not_or] at free
        have different : name ≠ bound := fun same => free.1 (congrArg Value.symbol same)
        rw [outside name free.2, Bindings.find?_insert, if_neg different]

/-- The first parameter that is no symbol is an error, whatever has been bound before. -/
theorem bindEach_of_notSymbol {before after : List Value} {parameter : Value}
    (symbols : ∀ other ∈ before, other.symbol?.isSome) (notSymbol : parameter.symbol? = none)
    (enough : (before ++ parameter :: after).length ≤ arguments.length) (bindings : Bindings) :
    bindEach bindings (before ++ parameter :: after) arguments =
      .error (.binder (.parameter parameter.type)) := by
  induction before generalizing arguments bindings with
  | nil =>
    cases arguments with
    | nil => exact absurd enough (Nat.not_succ_le_zero _)
    | cons argument others =>
      rw [List.nil_append, bindEach, nameOf_of_notSymbol notSymbol]
      rfl
  | cons first rest ih =>
    cases arguments with
    | nil => exact absurd enough (Nat.not_succ_le_zero _)
    | cons argument others =>
      rw [List.forall_mem_cons] at symbols
      obtain ⟨bound, named⟩ := Option.isSome_iff_exists.mp symbols.1
      obtain rfl := eq_symbol_of_symbol? named
      exact ih symbols.2 (Nat.le_of_succ_le_succ enough) (bindings.insert bound argument)

end Each

/-! ### All parameters -/

section Divide

variable {parameters : List Value} {place : Nat}

theorem takeWhile_eq_take :
    parameters.takeWhile (fun parameter => !parameter.isSymbol restMarker) =
      parameters.take (parameters.findIdx (·.isSymbol restMarker)) := by
  rw [List.takeWhile_eq_take_findIdx_not]
  simp only [Bool.not_not]

theorem split_of_none (unmarked : parameters.findIdx? (·.isSymbol restMarker) = none) :
    split parameters = .ok (parameters, none) := by
  have whole : parameters.findIdx (·.isSymbol restMarker) = parameters.length :=
    List.findIdx_eq_length.mpr (List.findIdx?_eq_none_iff.mp unmarked)
  rw [split, takeWhile_eq_take, whole]
  simp

theorem split_of_some (marked : parameters.findIdx? (·.isSymbol restMarker) = some place) :
    split parameters =
      if place + 2 = parameters.length then .ok (parameters.take place, parameters[place + 1]?)
      else .error (.binder .restMarker) := by
  obtain ⟨bound, atPlace⟩ := List.findIdx?_eq_some_iff_findIdx_eq.mp marked
  rw [split, takeWhile_eq_take, atPlace, List.length_take_of_le (Nat.le_of_lt bound),
    List.drop_eq_getElem_cons bound]
  -- What counts is how many parameters there are behind the marker.
  split
  · rename_i nothing
    cases nothing
  · rename_i rest isPair
    have behind := List.tail_eq_of_cons_eq isPair
    have isLast : place + 2 = parameters.length := by
      have count := congrArg List.length behind
      simp only [List.length_drop, List.length_singleton] at count
      omega
    have isRest : parameters[place + 1]? = some rest := by
      have head := congrArg (·[0]?) behind
      simpa using head
    rw [if_pos isLast, isRest]
  · rename_i noPair
    rw [if_neg]
    intro isLast
    have bound' : place + 1 < parameters.length := by omega
    refine noPair parameters[place] parameters[place + 1] ?_
    rw [List.drop_eq_getElem_cons bound', List.drop_of_length_le (by omega)]

end Divide

end Binder

/-- The world after the parameters in front of a marker, and the one behind it if there is one, have
been bound to arguments in a new scope inside another one. -/
structure Extends (env : Env) (positional : List Value) (rest : Option Value)
    (arguments : List Value) (before after : Store) : Prop where
  /-- The rest parameter resolves to the list of the arguments behind those of the others. -/
  ofRest : ∀ name, rest = some (.symbol name) →
    after.lookup? (env.nest before.frames.size) name =
      some (.list (arguments.drop positional.length))
  /-- Any other name resolves to the argument at its last place. -/
  ofPositional : ∀ name, rest ≠ some (.symbol name) → .symbol name ∈ positional →
    ∃ place argument, Binder.LastAt positional name place ∧ arguments[place]? = some argument ∧
      after.lookup? (env.nest before.frames.size) name = some argument
  /-- What is no parameter resolves as in the scope outside. -/
  ofOthers : ∀ name, rest ≠ some (.symbol name) → .symbol name ∉ positional →
    after.lookup? (env.nest before.frames.size) name = after.lookup? env name
  isNew : after.frames.size = before.frames.size + 1
  /-- The frames that there were are as they were. -/
  bindings : ∀ frame < before.frames.size, after.bindings frame = before.bindings frame
  /-- Nothing else changes. -/
  elsewhere : after = { before with frames := after.frames }

/-- How the binding of parameters ends, once they are divided. -/
inductive BindingEnds (env : Env) (positional : List Value) (rest : Option Value)
    (arguments : List Value) (before : Store) : Ending Env → Prop where
  /-- There are fewer arguments than parameters in front of the marker. -/
  | tooFew (short : arguments.length < positional.length) :
      BindingEnds env positional rest arguments before
        (.error (.failure (.tooFewArguments positional.length arguments.length)) before)
  /-- A parameter is no symbol. The first one that is none is named. -/
  | notSymbol {named others : List Value} {parameter : Value}
      (enough : positional.length ≤ arguments.length)
      (first : positional ++ rest.toList = named ++ parameter :: others)
      (symbols : ∀ other ∈ named, other.symbol?.isSome) (isOther : parameter.symbol? = none) :
      BindingEnds env positional rest arguments before
        (.error (.failure (.binder (.parameter parameter.type))) before)
  /-- The parameters are bound. -/
  | bound {after : Store} (enough : positional.length ≤ arguments.length)
      (symbols : ∀ parameter ∈ positional ++ rest.toList, parameter.symbol?.isSome)
      (extended : Extends env positional rest arguments before after) :
      BindingEnds env positional rest arguments before
        (.ok (env.nest before.frames.size) after)

section Bind

variable {parameters positional arguments : List Value} {rest : Option Value} {s : Store}

/-- The first parameter that is no symbol, if not all are. -/
theorem exists_first_notSymbol (parameters : List Value) :
    (∀ parameter ∈ parameters, parameter.symbol?.isSome) ∨
      ∃ named parameter others, parameters = named ++ parameter :: others ∧
        (∀ other ∈ named, other.symbol?.isSome) ∧ parameter.symbol? = none := by
  cases found : parameters.find? (·.symbol?.isNone) with
  | none =>
    refine .inl fun parameter mem => ?_
    simpa [Option.isSome_iff_ne_none] using List.find?_eq_none.mp found parameter mem
  | some parameter =>
    obtain ⟨isOther, named, others, rfl, symbols⟩ := List.find?_eq_some_iff_append.mp found
    exact .inr ⟨named, parameter, others, rfl, by simpa using symbols, by simpa using isOther⟩

/-- The world that a new scope is opened in, with names bound as they are to be. -/
theorem extends_opened {env : Env} {made : Bindings}
    (ofRest : ∀ name, rest = some (.symbol name) →
      made.find? name = some (.list (arguments.drop positional.length)))
    (ofPositional : ∀ name, rest ≠ some (.symbol name) → .symbol name ∈ positional →
      ∃ place argument, Binder.LastAt positional name place ∧ arguments[place]? = some argument ∧
        made.find? name = some argument)
    (ofOthers : ∀ name, rest ≠ some (.symbol name) → .symbol name ∉ positional →
      made.find? name = none) :
    Extends env positional rest arguments s (s.opened made) where
  ofRest name isRest := by rw [Store.lookup?_nest_opened, ofRest name isRest, Option.some_or]
  ofPositional name notRest mem := by
    obtain ⟨place, argument, last, isArgument, found⟩ := ofPositional name notRest mem
    refine ⟨place, argument, last, isArgument, ?_⟩
    rw [Store.lookup?_nest_opened, found, Option.some_or]
  ofOthers name notRest notMem := by
    rw [Store.lookup?_nest_opened, ofOthers name notRest notMem, Option.none_or]
  isNew := Array.size_push _
  bindings frame older := by rw [Store.bindings_opened, if_neg (Nat.ne_of_lt older)]
  elsewhere := rfl

/-- The parameters in front of the marker are bound, and the rest parameter is still to be. -/
theorem bindingEnds_of_bindEach {made : Bindings} (enough : positional.length ≤ arguments.length)
    (symbols : ∀ parameter ∈ positional, parameter.symbol?.isSome)
    (binds : Binder.bind parameters arguments =
      match rest with
      | none => .ok made
      | some parameter => do
        return made.insert (← Binder.nameOf parameter) (.list (arguments.drop positional.length)))
    (inside : ∀ name, .symbol name ∈ positional → ∃ place argument,
      Binder.LastAt positional name place ∧ arguments[place]? = some argument ∧
        made.find? name = some argument)
    (outside : ∀ name, .symbol name ∉ positional → made.find? name = none) (env : Env) :
    BindingEnds env positional rest arguments s (env.extend parameters arguments s) := by
  cases rest with
  | none =>
    rw [Env.extend_of_ok binds]
    exact .bound enough (by simpa using symbols)
      (extends_opened (by simp) (fun name _ => inside name) fun name _ => outside name)
  | some parameter =>
    cases named : parameter.symbol? with
    | none =>
      simp only [Binder.nameOf_of_notSymbol named] at binds
      rw [Env.extend_of_error binds]
      exact .notSymbol enough rfl symbols named
    | some last =>
      obtain rfl := eq_symbol_of_symbol? named
      have others {name : String} (notRest : some (Value.symbol last) ≠ some (.symbol name)) :
          name ≠ last := fun same => notRest (by rw [same])
      -- The rest parameter is bound last, so it takes a name from the parameters in front of it.
      rw [Env.extend_of_ok binds]
      refine .bound enough ?_ (extends_opened ?_ ?_ ?_)
      · intro parameter mem
        rcases List.mem_append.mp mem with front | isRest
        · exact symbols parameter front
        · rw [List.mem_singleton.mp isRest]
          rfl
      · rintro name ⟨⟩
        rw [Bindings.find?_insert, if_pos rfl]
      · intro name notRest mem
        rw [Bindings.find?_insert, if_neg (others notRest)]
        exact inside name mem
      · intro name notRest notMem
        rw [Bindings.find?_insert, if_neg (others notRest)]
        exact outside name notMem

/-- What the binding of parameters comes to, once they are divided. -/
theorem bindingEnds_of_split (divided : Binder.split parameters = .ok (positional, rest))
    (env : Env) :
    BindingEnds env positional rest arguments s (env.extend parameters arguments s) := by
  have binds := Positional.binderBind_of_split divided arguments
  by_cases short : arguments.length < positional.length
  · rw [if_pos short] at binds
    rw [Env.extend_of_error binds]
    exact .tooFew short
  rw [if_neg short] at binds
  have enough : positional.length ≤ arguments.length := Nat.le_of_not_lt short
  obtain symbols | ⟨named, parameter, others, rfl, symbols, isOther⟩ :=
    exists_first_notSymbol positional
  · obtain ⟨made, bindsEach, inside, outside⟩ := Binder.bindEach_of_symbols symbols enough []
    rw [bindsEach] at binds
    exact bindingEnds_of_bindEach enough symbols binds inside outside env
  · rw [Binder.bindEach_of_notSymbol symbols isOther enough] at binds
    rw [Env.extend_of_error binds]
    exact .notSymbol enough (List.append_assoc named _ _) symbols isOther

/-- What the binding of parameters to arguments comes to, in any scope and any world. The first
marker must be the last parameter but one. The parameters in front of it, or all where there is
none, are to have an argument each, and all parameters are to be symbols. An error leaves the world
as it is; otherwise the parameters are bound in a scope that is new. -/
theorem extend_ends (env : Env) (parameters arguments : List Value) (s : Store) :
    match parameters.findIdx? (·.isSymbol Binder.restMarker) with
    | none => BindingEnds env parameters none arguments s (env.extend parameters arguments s)
    | some place =>
      if place + 2 = parameters.length then
        BindingEnds env (parameters.take place) parameters[place + 1]? arguments s
          (env.extend parameters arguments s)
      else env.extend parameters arguments s = .error (.failure (.binder .restMarker)) s := by
  cases marker : parameters.findIdx? (·.isSymbol Binder.restMarker) with
  | none => exact bindingEnds_of_split (Binder.split_of_none marker) env
  | some place =>
    have divided := Binder.split_of_some marker
    by_cases isLast : place + 2 = parameters.length
    · rw [if_pos isLast] at divided
      simp only [if_pos isLast]
      exact bindingEnds_of_split divided env
    · rw [if_neg isLast] at divided
      simp only [if_neg isLast]
      refine Env.extend_of_error ?_ env
      rw [Binder.bind, divided]
      rfl

/-- The rest parameter takes the name of one in front of the marker. -/
example : Binder.bind [.symbol "a", .symbol "&", .symbol "a"] [.nil, .bool true] =
    .ok [("a", .list [.bool true])] := rfl

end Bind

end SmallLisp
