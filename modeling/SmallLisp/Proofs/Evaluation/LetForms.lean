import SmallLisp.Proofs.Evaluation.Sequel

/-!
# How a `let*` form fails

The names of a `let*` form are bound one after the other in a frame that is opened for them, each to
the value of a form that sees the names before it, and then the body is evaluated. Such a form fails
before anything is evaluated, if it is not well formed, or at a name, with one of the forms, or with
its body; the store is then what the forms before have made of it.

## Main definitions

* `Binds`, `BindingStops`: how names are bound in a scope, and how that stops
* `BindingsFail`: how a `let*` form fails

## Main results

* `ends_bindings_error_iff`: binding names in a scope stops as is said
* `finishes_letForm_error_iff`: so does a `let*` form
-/

namespace SmallLisp

/-! ### Names bound in a scope -/

/-- Names are bound in a scope, one after the other, to the values of forms that are evaluated in
it. -/
inductive Binds (scope : Env) : List Value → Store → Store → Prop
  | nil {s} : Binds scope [] s s
  | cons {text form rest s value t u}
      (returns : (Task.evaluate form scope).Finishes s (.ok value t))
      (others : Binds scope rest (t.defined scope.frame text value) u) :
      Binds scope (.symbol text :: form :: rest) s u

/-- How binding names in a scope stops: at a name that is no symbol, or with a form that fails. -/
inductive BindingStops (scope : Env) : List Value → Store → Halt → Store → Prop
  | notSymbol {before name form after s t} (binds : Binds scope before s t)
      (notSymbol : name.symbol? = none) :
      BindingStops scope (before ++ name :: form :: after) s
        (.failure (.binder (.bindingName name.type))) t
  | stops {before text form after s t halt u} (binds : Binds scope before s t)
      (stops : (Task.evaluate form scope).Finishes t (.error halt u)) :
      BindingStops scope (before ++ .symbol text :: form :: after) s halt u

/-- How a `let*` form fails, in a scope and a store. -/
inductive BindingsFail (env : Env) (s : Store) : List Value → Halt → Store → Prop
  | missingPart {parts} (tooFew : parts.length < 2) :
      BindingsFail env s parts (.failure (.missingPart .bindings)) s
  | notSeq {bindings body more} (notSeq : bindings.items? = none) :
      BindingsFail env s (bindings :: body :: more)
        (.failure (.binder (.bindingList bindings.type))) s
  | odd {bindings items body more} (isSeq : bindings.items? = some items)
      (odd : items.length % 2 = 1) :
      BindingsFail env s (bindings :: body :: more) (.failure (.binder .oddBindings)) s
  /-- The scope is opened, and not all names are bound in it. -/
  | stops {bindings items body more halt t} (isSeq : bindings.items? = some items)
      (paired : items.length % 2 = 0)
      (stops : BindingStops (env.nest s.frames.size) items (s.opened []) halt t) :
      BindingsFail env s (bindings :: body :: more) halt t
  /-- All names are bound, and the body fails. -/
  | body {bindings items body more t halt u} (isSeq : bindings.items? = some items)
      (paired : items.length % 2 = 0)
      (binds : Binds (env.nest s.frames.size) items (s.opened []) t)
      (stops : (Task.evaluate body (env.nest s.frames.size)).Finishes t (.error halt u)) :
      BindingsFail env s (bindings :: body :: more) halt u

section Scopes

variable {scope env : Env} {items rest before : List Value} {s t : Store} {ending : Ending Value}
  {halt : Halt} {value : Value}

namespace Binds

theorem ends_append (binds : Binds scope before s t)
    (ends : Ends (.bindings rest scope) t ending) :
    Ends (.bindings (before ++ rest) scope) s ending := by
  induction binds with
  | nil => exact ends
  | cons returns _ ih => exact .bindings_cons (finishes_iff_ends.mp returns) (ih ends)

theorem ends (binds : Binds scope items s t) : Ends (.bindings items scope) s (.ok .nil t) := by
  have whole := binds.ends_append .bindings_nil
  rwa [List.append_nil] at whole

theorem of_ends (ends : Ends (.bindings items scope) s (.ok value t)) : Binds scope items s t := by
  induction items using bindEach.induct generalizing s with
  | case1 name form rest text named ih =>
    cases ends with
    | bindings_cons first others => exact .cons (finishes_iff_ends.mpr first) (ih others)
  | case2 name form rest notSymbol =>
    cases ends with
    | bindings_cons => cases notSymbol
  | case3 items short =>
    cases ends with
    | bindings_nil => exact .nil
    | bindings_cons => exact absurd rfl (short _ _ _)

end Binds

theorem BindingStops.cons {text : String} {form : Value}
    (returns : (Task.evaluate form scope).Finishes s (.ok value t)) {u : Store}
    (fails : BindingStops scope rest (t.defined scope.frame text value) halt u) :
    BindingStops scope (.symbol text :: form :: rest) s halt u := by
  cases fails with
  | notSymbol binds notSymbol => exact .notSymbol (.cons returns binds) notSymbol
  | stops binds stops => exact .stops (.cons returns binds) stops

/-- Binding names stops as is said. -/
theorem ends_bindings_error_iff :
    Ends (.bindings items scope) s (.error halt t) ↔ BindingStops scope items s halt t := by
  -- The first pair that does not go through decides, and all pairs before it have been bound.
  constructor
  · intro ends
    induction items using bindEach.induct generalizing s with
    | case1 name form rest text named ih =>
      cases ends with
      | bindings_cons first others => exact .cons (finishes_iff_ends.mpr first) (ih others)
      | bindings_form_stops stops => exact .stops .nil (finishes_iff_ends.mpr stops)
      | bindings_notSymbol notSymbol => exact .notSymbol .nil notSymbol
    | case2 name form rest notSymbol =>
      cases ends with
      | bindings_cons | bindings_form_stops => cases notSymbol
      | bindings_notSymbol notSymbol => exact .notSymbol .nil notSymbol
    | case3 items short =>
      cases ends with
      | bindings_cons | bindings_form_stops | bindings_notSymbol => exact absurd rfl (short _ _ _)
  · intro stops
    cases stops with
    | notSymbol binds notSymbol => exact binds.ends_append (.bindings_notSymbol notSymbol)
    | stops binds stops =>
      exact binds.ends_append (.bindings_form_stops (finishes_iff_ends.mp stops))

/-! ### Forms with a scope -/

variable {bindings body : Value} {more parts : List Value}

namespace BindingsFail

theorem short_iff (tooFew : parts.length < 2) :
    BindingsFail env s parts halt t ↔
      (.error halt t : Ending Value) = .error (.failure (.missingPart .bindings)) s := by
  constructor
  · intro fails
    cases fails with
    | missingPart => rfl
    | notSeq | odd | stops | body => exact absurd tooFew (by simp)
  · rintro ⟨⟩
    exact .missingPart tooFew

theorem notSeq_iff (isNone : bindings.items? = none) :
    BindingsFail env s (bindings :: body :: more) halt t ↔
      (.error halt t : Ending Value) =
        .error (.failure (.binder (.bindingList bindings.type))) s := by
  constructor
  · intro fails
    cases fails with
    | missingPart tooFew => exact absurd tooFew (by simp)
    | notSeq => rfl
    | odd isSeq | stops isSeq | body isSeq => cases isNone.symm.trans isSeq
  · rintro ⟨⟩
    exact .notSeq isNone

theorem odd_iff (isSeq : bindings.items? = some items) (odd : items.length % 2 = 1) :
    BindingsFail env s (bindings :: body :: more) halt t ↔
      (.error halt t : Ending Value) = .error (.failure (.binder .oddBindings)) s := by
  constructor
  · intro fails
    cases fails with
    | missingPart tooFew => exact absurd tooFew (by simp)
    | notSeq isNone => cases isNone.symm.trans isSeq
    | odd => rfl
    | stops isSeq' paired | body isSeq' paired =>
      cases isSeq.symm.trans isSeq'
      omega
  · rintro ⟨⟩
    exact .odd isSeq odd

theorem paired_iff (isSeq : bindings.items? = some items) (paired : items.length % 2 = 0) :
    BindingsFail env s (bindings :: body :: more) halt t ↔
      Sequel (Ends (.bindings items (env.nest s.frames.size)) (s.opened []))
        (fun _ t => (Task.evaluate body (env.nest s.frames.size)).Finishes t) (.error halt t) := by
  constructor
  · intro fails
    cases fails with
    | missingPart tooFew => exact absurd tooFew (by simp)
    | notSeq isNone => cases isNone.symm.trans isSeq
    | odd isSeq' odd =>
      cases isSeq.symm.trans isSeq'
      omega
    | stops isSeq' _ stops =>
      cases isSeq.symm.trans isSeq'
      exact .stops (ends_bindings_error_iff.mpr stops)
    | body isSeq' _ binds stops =>
      cases isSeq.symm.trans isSeq'
      exact .goesOn binds.ends stops
  · intro h
    cases h with
    | goesOn binds stops => exact .body isSeq paired (.of_ends binds) stops
    | stops stops => exact .stops isSeq paired (ends_bindings_error_iff.mp stops)

end BindingsFail

/-- A `let*` form fails as is said. -/
theorem finishes_letForm_error_iff (plain : ¬ s.Expands env "let*") :
    (Task.evaluate (SpecialForm.bindings.form parts) env).Finishes s (.error halt t) ↔
      BindingsFail env s parts halt t := by
  have noExpander (parts : List Value) := expansion?_of_not_expands plain parts
  -- Three things are looked at before the scope is opened, in this order.
  by_cases tooFew : parts.length < 2
  · rw [finishes_iff_eq (.missingPart (noExpander parts) tooFew), BindingsFail.short_iff tooFew]
  rcases parts with _ | ⟨bindings, _ | ⟨body, more⟩⟩
  · exact absurd (by simp) tooFew
  · exact absurd (by simp) tooFew
  cases isSeq : bindings.items? with
  | none =>
    rw [finishes_iff_eq (.bindings_notSeq (noExpander _) isSeq), BindingsFail.notSeq_iff isSeq]
  | some items =>
    rcases Nat.mod_two_eq_zero_or_one items.length with paired | odd
    · rw [finishes_letForm_iff plain isSeq paired, BindingsFail.paired_iff isSeq paired]
    · rw [finishes_iff_eq (.bindings_odd (noExpander _) isSeq odd),
        BindingsFail.odd_iff isSeq odd]

end Scopes

end SmallLisp
