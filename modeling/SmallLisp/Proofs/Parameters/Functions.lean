import SmallLisp.Proofs.Parameters.Binding

/-!
# The parameters of functions

Parameters are looked at twice: when a function is made, and when its parameters are bound. A
function is made of any list or vector of symbols. So when it is called its parameters are all
symbols, and what is still to be found out is whether there are enough arguments and whether the
first marker is where it must be. A misplaced marker is not noticed before the first call; then
every call fails.

## Main definitions

* `Binder.Misplaced`: the first marker is not the last parameter but one

## Main results

* `run_function`: what the evaluation of an `fn*` form comes to
* `Binder.bind_eq_error_of_symbols`: how the binding of symbols can fail
* `function_parameters`: what is known of the parameters of a function that has been made
* `function_misplaced_marker`: a function that no call can enter
-/

namespace SmallLisp

namespace Binder

/-- The first marker is not the last parameter but one. -/
def Misplaced (parameters : List Value) : Prop :=
  ∃ place, parameters.findIdx? (·.isSymbol restMarker) = some place ∧
    place + 2 ≠ parameters.length

section Bind

variable {parameters arguments : List Value} {error : Error}

/-- Where the first marker is misplaced the binding fails, whatever the arguments are. -/
theorem Misplaced.bind_eq_error (misplaced : Misplaced parameters) (arguments : List Value) :
    bind parameters arguments = .error (.binder .restMarker) := by
  obtain ⟨place, marked, notLast⟩ := misplaced
  rw [bind, split_of_some marked, if_neg notLast]
  rfl

/-- Parameters with no misplaced marker are divided, and remain the same parameters. -/
theorem exists_split_of_not_misplaced (wellPlaced : ¬ Misplaced parameters) :
    ∃ positional rest, split parameters = .ok (positional, rest) ∧
      positional ++ rest.toList ⊆ parameters := by
  cases marker : parameters.findIdx? (·.isSymbol restMarker) with
  | none => exact ⟨_, _, split_of_none marker, by simp⟩
  | some place =>
    have isLast : place + 2 = parameters.length := by
      by_contra notLast
      exact wellPlaced ⟨place, marker, notLast⟩
    refine ⟨_, _, (split_of_some marker).trans (if_pos isLast), fun parameter mem => ?_⟩
    rcases List.mem_append.mp mem with front | behind
    · exact List.mem_of_mem_take front
    · exact List.mem_of_getElem? (Option.mem_toList.mp behind)

/-- The binding of symbols fails for too few arguments, or for a misplaced marker. -/
theorem bind_eq_error_of_symbols (symbols : ∀ parameter ∈ parameters, parameter.symbol?.isSome)
    (fails : bind parameters arguments = .error error) :
    (∃ expected, arguments.length < expected ∧
      error = .tooFewArguments expected arguments.length) ∨
    (Misplaced parameters ∧ error = .binder .restMarker) := by
  by_cases misplaced : Misplaced parameters
  · rw [misplaced.bind_eq_error, Except.error.injEq] at fails
    exact .inr ⟨misplaced, fails.symm⟩
  obtain ⟨positional, rest, divided, among⟩ := exists_split_of_not_misplaced misplaced
  have ends : BindingEnds TopLevel.root positional rest arguments (Store.initial fun _ => none) _ :=
    bindingEnds_of_split divided TopLevel.root
  rw [Env.extend_of_error fails] at ends
  cases ends with
  | tooFew short => exact .inl ⟨_, short, rfl⟩
  | notSymbol enough first _ isOther =>
    have mem := among (first ▸ List.mem_append_right _ List.mem_cons_self)
    have isSymbol := symbols _ mem
    rw [isOther] at isSymbol
    cases isSymbol

end Bind

end Binder

section Function

variable {s : Store} {env : Env} {parameters body : Value}

/-- What the evaluation of an `fn*` form comes to. -/
theorem run_function (ordinary : ¬ s.Expands env SpecialForm.function.keyword) (fuel : Nat)
    (parameters body : Value) (more : List Value) :
    run (fuel + 1) (.evaluate (SpecialForm.function.form (parameters :: body :: more)) env) s =
      makeFunction env parameters body s := by
  have performs : _ = performSpecial (run fuel) env .function (parameters :: body :: more) s :=
    perform_special (expansion?_of_not_expands ordinary (parameters :: body :: more))
  cases makes : makeFunction env parameters body s with
  | ok f t => exact run_of_done (performs.trans (Eval.bind_of_ok makes))
  | error halt t => exact run_of_stop (performs.trans (Eval.bind_of_error makes))

/-- Parameters of which a function can be made are symbols, and others are malformed. -/
theorem makeFunction_cases (env : Env) (parameters body : Value) (s : Store) :
    (∃ items, parameters.items? = some items ∧
      (∀ item ∈ items, item.symbol?.isSome) ∧
      makeFunction env parameters body s =
        .ok (.procedure .function s.procedures items body env) s.numbered) ∨
    ∃ fault, makeFunction env parameters body s = .error (.failure (.binder fault)) s := by
  cases isSeq : parameters.items? with
  | none =>
    refine .inr ⟨.parameterList parameters.type, ?_⟩
    rw [makeFunction, isSeq]
    rfl
  | some items =>
    rcases exists_first_notSymbol items with symbols | ⟨named, item, others, rfl, symbols, isOther⟩
    · exact .inl ⟨items, rfl, symbols, by rw [makeFunction_eq body isSeq symbols]; rfl⟩
    · exact .inr ⟨.parameter item.type, by
        rw [makeFunction_of_notSymbol body isSeq symbols isOther]; rfl⟩

/-- The parameters of a function that has been made are bound to any arguments, unless there are
too few of these or the first marker is misplaced. Parameters that cannot be bound for another
reason than too few arguments are malformed already when the function is to be made, except for
symbols of which the first marker is misplaced: these make a function that no call can enter. -/
theorem function_parameters (ordinary : ¬ s.Expands env SpecialForm.function.keyword)
    (fuel : Nat) (parameters body : Value) (more : List Value) :
    let ending :=
      run (fuel + 1) (.evaluate (SpecialForm.function.form (parameters :: body :: more)) env) s
    (∀ f t, ending = .ok f t → ∃ items id, parameters.items? = some items ∧
      f = .procedure .function id items body env ∧
      (¬ Binder.Misplaced items → ∀ arguments error, Binder.bind items arguments = .error error →
        ∃ expected, arguments.length < expected ∧
          error = .tooFewArguments expected arguments.length) ∧
      (Binder.Misplaced items → ∀ arguments,
        Binder.bind items arguments = .error (.binder .restMarker))) ∧
    ∀ items arguments fault, parameters.items? = some items →
      Binder.bind items arguments = .error (.binder fault) →
      (∃ reported, ending = .error (.failure (.binder reported)) s) ∨
        Binder.Misplaced items ∧ ∃ f t, ending = .ok f t := by
  intro ending
  have made : ending = makeFunction env parameters body s :=
    run_function ordinary fuel parameters body more
  rw [made]
  obtain ⟨items, isSeq, symbols, makes⟩ | ⟨reported, refuses⟩ :=
    makeFunction_cases env parameters body s
  · refine ⟨fun f t ends => ?_, fun items' arguments fault isSeq' fails => ?_⟩
    · rw [makes] at ends
      cases ends
      refine ⟨items, _, isSeq, rfl, fun wellPlaced arguments error fails => ?_,
        Binder.Misplaced.bind_eq_error⟩
      exact (Binder.bind_eq_error_of_symbols symbols fails).resolve_right
        fun malformed => wellPlaced malformed.1
    · obtain rfl : items = items' := Option.some.inj (isSeq.symm.trans isSeq')
      obtain ⟨_, _, tooFew⟩ | ⟨misplaced, _⟩ := Binder.bind_eq_error_of_symbols symbols fails
      · cases tooFew
      · exact .inr ⟨misplaced, _, _, makes⟩
  · refine ⟨fun f t ends => ?_, fun _ _ _ _ _ => .inl ⟨reported, refuses⟩⟩
    rw [refuses] at ends
    cases ends

end Function

/-- A marker in front of the last parameter. -/
theorem function_parameters_rest :
    ¬ (Store.initial fun _ => none).Expands TopLevel.root SpecialForm.function.keyword ∧
    ∃ f t, run 1 (.evaluate (SpecialForm.function.form
        [.list [.symbol "a", .symbol "&", .symbol "b"], .symbol "a"]) TopLevel.root)
        (Store.initial fun _ => none) = .ok f t ∧
      ∃ items id, f = .procedure .function id items (.symbol "a") TopLevel.root ∧
        ∀ arguments error, Binder.bind items arguments = .error error →
          ∃ expected, arguments.length < expected ∧
            error = .tooFewArguments expected arguments.length := by
  have ordinary :
      ¬ (Store.initial fun _ => none).Expands TopLevel.root SpecialForm.function.keyword := by
    rintro ⟨_, _, _, _, bound⟩
    cases bound
  let parameters : List Value := [.symbol "a", .symbol "&", .symbol "b"]
  have wellPlaced : ¬ Binder.Misplaced parameters := by
    rintro ⟨place, marked, notLast⟩
    have isSecond : some 1 = some place := marked
    cases isSecond
    exact notLast rfl
  have makes : run 1 (.evaluate (SpecialForm.function.form [.list parameters, .symbol "a"])
      TopLevel.root) (Store.initial fun _ => none) =
        .ok (.procedure .function 0 parameters (.symbol "a") TopLevel.root)
          (Store.initial fun _ => none).numbered := rfl
  obtain ⟨items, id, isSeq, isFunction, binds, _⟩ :=
    (function_parameters ordinary 0 (.list parameters) (.symbol "a") []).1 _ _ makes
  cases isSeq
  exact ⟨ordinary, _, _, makes, _, id, isFunction, binds wellPlaced⟩

/-- A marker with no parameter behind it: a function is made, and no call can enter it. -/
theorem function_misplaced_marker :
    (∃ id t, run 1 (.evaluate (SpecialForm.function.form
        [.list [.symbol "a", .symbol "&"], .symbol "a"]) TopLevel.root)
        (Store.initial fun _ => none) =
      .ok (.procedure .function id [.symbol "a", .symbol "&"] (.symbol "a") TopLevel.root) t) ∧
    ∀ arguments, Binder.bind [.symbol "a", .symbol "&"] arguments =
      .error (.binder .restMarker) :=
  ⟨⟨0, _, rfl⟩, fun _ => rfl⟩

end SmallLisp
