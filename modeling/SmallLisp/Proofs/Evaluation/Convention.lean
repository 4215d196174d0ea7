import SmallLisp.Proofs.Evaluation.Sequel

/-!
# How functions are called

A function can be called by a list whose items evaluate to the function and its arguments, by
`apply` with the last of the arguments in a sequence, or outright. It makes no difference which: the
call ends alike, with the same store. The native functions that call a function back call it
outright, each call beginning in the store that the one before it leaves.

## Main definitions

* `CallsEach`: calls of a function on some values, one after the other, that all give a result

## Main results

* `calls_agree`: all ways to call a function come to the same
-/

open Filter (atTop)

namespace SmallLisp

/-- A function, called once on each of some values from left to right, gives these results. Each
call begins in the store that the call before it leaves. -/
inductive CallsEach (f : Value) (env : Env) : List Value → Store → List Value → Store → Prop
  | nil {s} : CallsEach f env [] s [] s
  | cons {item items s result t results u}
      (first : (Task.call f [item] env).Finishes s (.ok result t))
      (others : CallsEach f env items t results u) :
      CallsEach f env (item :: items) s (result :: results) u

section Calls

variable {f : Value} {env : Env} {s t : Store} {ending : Ending Value}

/-! ### Calls by a list and by `apply` -/

/-- A list is a call of what its items evaluate to. -/
theorem finishes_application_iff {head : Value} {forms arguments : List Value} {fuel : Nat}
    (plain : expansion? s env (.list (head :: forms)) = none)
    (ordinary : ∀ special : SpecialForm, head ≠ .symbol special.keyword)
    (evaluates : evaluateEach (run fuel) env (head :: forms) s = .ok (f :: arguments) t) :
    (Task.evaluate (.list (head :: forms)) env).Finishes s ending ↔
      (Task.call f arguments env).Finishes t ending := by
  refine finishes_congr ((eventually_evaluateEach evaluates).mono fun fuel ends => ?_)
  refine run_of_next ?_
  rw [perform_application plain ordinary, ← evaluateEach_eq, Eval.bind_of_ok ends]
  rfl

theorem finishes_apply_iff (leading rest : List Value) (kind : SeqKind) :
    (Task.call (.native (.control .apply)) (f :: (leading ++ [.seq kind rest])) env).Finishes s
        ending ↔
      (Task.call f (leading ++ rest) env).Finishes s ending := by
  refine finishes_congr (.of_forall fun fuel => ?_)
  rw [run_call_native, runNative_apply]
  rfl

/-! ### Calls back -/

/-- `swap!` calls the function once, with what the cell holds on entry. -/
theorem finishes_swap_iff (cell : CellId) (more : List Value) :
    (Task.call (.native (.control .swap)) (.atom cell :: f :: more) env).Finishes s ending ↔
      (∃ value t, (Task.call f (s.contents cell :: more) env).Finishes s (.ok value t) ∧
        ending = .ok value (t.written cell value)) ∨
      ∃ halt t, (Task.call f (s.contents cell :: more) env).Finishes s (.error halt t) ∧
        ending = .error halt t := by
  have runs (fuel : Nat) : run (fuel + 1) (.call (.native (.control .swap))
      (.atom cell :: f :: more) env) s = swapAtom (run fuel) (.atom cell) f more env s := by
    rw [run_call_native, runNative_swap]
  rw [finishes_iff_sequel_done (fun value t => .ok value (t.written cell value))
    (fun _ _ => not_false) (fun fuel value t calls => (runs fuel).trans (swapAtom_of_ok calls))
    fun fuel halt t stops => (runs fuel).trans (swapAtom_of_error stops)]
  constructor
  · intro h
    cases h with
    | goesOn returns ends => exact .inl ⟨_, _, returns, ends⟩
    | stops stops => exact .inr ⟨_, _, stops, rfl⟩
  · rintro (⟨value, t, returns, ends⟩ | ⟨halt, t, stops, rfl⟩)
    · exact .goesOn returns ends
    · exact .stops stops

theorem callsEach_of_callEach {fuel : Nat} {items results : List Value}
    (calls : callEach (run fuel) f env items s = .ok results t) :
    CallsEach f env items s results t := by
  -- The later calls begin where the first one ends, so the store varies.
  induction items generalizing s results with
  | nil =>
    cases calls
    exact .nil
  | cons item items ih =>
    rw [callEach, List.mapM_cons] at calls
    cases first : run fuel (.call f [item] env) s with
    | error halt u =>
      rw [Eval.bind_of_error first] at calls
      cases calls
    | ok result u =>
      rw [Eval.bind_of_ok first, bind_pure_comp, Eval.map_eq_ok_iff] at calls
      obtain ⟨others, calls, rfl⟩ := calls
      exact .cons ⟨id, fuel, first⟩ (ih calls)

/-- Calls stop at the first of them that does. -/
theorem exists_of_callEach_stops {fuel : Nat} {items : List Value} {halt : Halt}
    (stops : callEach (run fuel) f env items s = .error halt t) :
    ∃ before item after results u, items = before ++ item :: after ∧
      CallsEach f env before s results u ∧
      run fuel (.call f [item] env) u = .error halt t := by
  induction items generalizing s with
  | nil => cases stops
  | cons item items ih =>
    rw [callEach, List.mapM_cons] at stops
    cases first : run fuel (.call f [item] env) s with
    | error halt u =>
      rw [Eval.bind_of_error first] at stops
      cases stops
      exact ⟨[], item, items, [], s, rfl, .nil, first⟩
    | ok result u =>
      rw [Eval.bind_of_ok first, bind_pure_comp, Eval.map_eq_error_iff] at stops
      obtain ⟨before, last, after, results, v, rfl, earlier, stops⟩ := ih stops
      exact ⟨item :: before, last, after, result :: results, v, rfl,
        .cons ⟨id, fuel, first⟩ earlier, stops⟩

namespace CallsEach

variable {items results : List Value}

theorem eventually_ok (calls : CallsEach f env items s results t) :
    ∀ᶠ fuel in atTop, callEach (run fuel) f env items s = .ok results t := by
  -- There is fuel that is enough for the first call and for all others.
  induction calls with
  | nil => exact .of_forall fun fuel => rfl
  | cons first _ ih =>
    refine ((finishes_iff_eventually.mp first).2.and ih).mono fun fuel both => ?_
    rw [callEach, List.mapM_cons, Eval.bind_of_ok both.1]
    exact Eval.bind_of_ok both.2

theorem eventually_stops {item : Value} {halt : Halt} {u : Store} (after : List Value)
    (calls : CallsEach f env items s results t)
    (stops : (Task.call f [item] env).Finishes t (.error halt u)) :
    ∀ᶠ fuel in atTop,
      callEach (run fuel) f env (items ++ item :: after) s = .error halt u := by
  refine (calls.eventually_ok.and (finishes_iff_eventually.mp stops).2).mono fun fuel both => ?_
  rw [callEach, List.mapM_append, List.mapM_cons]
  refine (Eval.bind_of_ok both.1).trans (Eval.bind_of_error ?_)
  exact Eval.bind_of_error both.2

end CallsEach

/-- `map` calls the function once on each item, until a call stops. -/
theorem finishes_map_iff (kind : SeqKind) (items : List Value) :
    (Task.call (.native (.control .map)) [f, .seq kind items] env).Finishes s ending ↔
      (∃ results t, CallsEach f env items s results t ∧ ending = .ok (.list results) t) ∨
      ∃ before item after results t halt u, items = before ++ item :: after ∧
        CallsEach f env before s results t ∧
        (Task.call f [item] env).Finishes t (.error halt u) ∧ ending = .error halt u := by
  rw [finishes_native_iff]
  have shape (fuel : Nat) : runNative (run fuel) env (.control .map) [f, .seq kind items] =
      Value.list <$> callEach (run fuel) f env items := by
    rw [runNative_map, ← bind_pure_comp]
    rfl
  simp only [shape]
  constructor
  · rintro ⟨notExhausted, fuel, ends⟩
    cases ending with
    | ok value t =>
      obtain ⟨results, calls, rfl⟩ := Eval.map_eq_ok_iff.mp ends
      exact .inl ⟨results, t, callsEach_of_callEach calls, rfl⟩
    | error halt t =>
      obtain ⟨before, item, after, results, u, split, calls, stops⟩ :=
        exists_of_callEach_stops (Eval.map_eq_error_iff.mp ends)
      exact .inr ⟨before, item, after, results, u, halt, t, split, calls,
        ⟨notExhausted, fuel, stops⟩, rfl⟩
  · rintro (⟨results, t, calls, rfl⟩ |
      ⟨before, item, after, results, t, halt, u, rfl, calls, stops, rfl⟩)
    · obtain ⟨fuel, ends⟩ := calls.eventually_ok.exists
      exact ⟨id, fuel, Eval.map_eq_ok_iff.mpr ⟨results, ends, rfl⟩⟩
    · obtain ⟨fuel, ends⟩ := (calls.eventually_stops after stops).exists
      exact ⟨stops.1, fuel, Eval.map_eq_error_iff.mpr ends⟩

end Calls

/-- **All ways to call a function come to the same.** A list whose items have just evaluated to a
function and its arguments, and `apply` of the function to some of the arguments and a sequence of
the rest, end exactly as the call itself: with the same value or for the same reason, and with the
same store. `map` makes one call for each item, from left to right, each in the store that the call
before it leaves; it stops as the first call that stops, and returns the list of the results where
none does. `swap!` makes one call, with what the cell held on entry and the further arguments. -/
theorem calls_agree (f : Value) (arguments : List Value) (env : Env) (s : Store)
    (ending : Ending Value) :
    (∀ s₀ head forms fuel, expansion? s₀ env (.list (head :: forms)) = none →
      (∀ special : SpecialForm, head ≠ .symbol special.keyword) →
      evaluateEach (run fuel) env (head :: forms) s₀ = .ok (f :: arguments) s →
      ((Task.evaluate (.list (head :: forms)) env).Finishes s₀ ending ↔
        (Task.call f arguments env).Finishes s ending)) ∧
    (∀ leading kind rest, leading ++ rest = arguments →
      ((Task.call (.native (.control .apply)) (f :: (leading ++ [.seq kind rest])) env).Finishes s
          ending ↔
        (Task.call f arguments env).Finishes s ending)) ∧
    (∀ kind, (Task.call (.native (.control .map)) [f, .seq kind arguments] env).Finishes s ending ↔
      (∃ results t, CallsEach f env arguments s results t ∧ ending = .ok (.list results) t) ∨
      ∃ before item after results t halt u, arguments = before ++ item :: after ∧
        CallsEach f env before s results t ∧
        (Task.call f [item] env).Finishes t (.error halt u) ∧ ending = .error halt u) ∧
    ∀ cell, (Task.call (.native (.control .swap)) (.atom cell :: f :: arguments) env).Finishes s
        ending ↔
      (∃ value t, (Task.call f (s.contents cell :: arguments) env).Finishes s (.ok value t) ∧
        ending = .ok value (t.written cell value)) ∨
      ∃ halt t, (Task.call f (s.contents cell :: arguments) env).Finishes s (.error halt t) ∧
        ending = .error halt t := by
  refine ⟨fun s₀ head forms fuel => finishes_application_iff, fun leading kind rest split => ?_,
    fun kind => finishes_map_iff kind arguments, fun cell => finishes_swap_iff cell arguments⟩
  rw [← split]
  exact finishes_apply_iff leading rest kind

/-- The function `list`, called by name and by `apply`, with one of its arguments in a vector. -/
theorem calls_agree_list :
    let s := (Store.initial fun _ => none).opened TopLevel.nativeBindings
    let form := Value.list [.symbol "list", .bool true, .bool false]
    let applied := [Value.native (.operation .list), .bool true, .vector [.bool false]]
    let ending : Ending Value := .ok (.list [.bool true, .bool false]) s
    expansion? s TopLevel.root form = none ∧
      (∀ special : SpecialForm, Value.symbol "list" ≠ .symbol special.keyword) ∧
      evaluateEach (run 1) TopLevel.root [.symbol "list", .bool true, .bool false] s =
        .ok [.native (.operation .list), .bool true, .bool false] s ∧
      (Task.evaluate form TopLevel.root).Finishes s ending ∧
      (Task.call (.native (.control .apply)) applied TopLevel.root).Finishes s ending := by
  intro s form applied ending
  have plain : expansion? s TopLevel.root form = none := by rfl
  have ordinary : ∀ special : SpecialForm, Value.symbol "list" ≠ .symbol special.keyword := by
    intro special
    cases special <;> simp [SpecialForm.keyword]
  have evaluates : evaluateEach (run 1) TopLevel.root [.symbol "list", .bool true, .bool false] s =
      .ok [.native (.operation .list), .bool true, .bool false] s := by rfl
  have outright : (Task.call (.native (.operation .list)) [.bool true, .bool false]
      TopLevel.root).Finishes s ending := ⟨id, 1, by rfl⟩
  obtain ⟨byList, byApply, _⟩ := calls_agree (.native (.operation .list)) [.bool true, .bool false]
    TopLevel.root s ending
  exact ⟨plain, ordinary, evaluates, (byList s _ _ 1 plain ordinary evaluates).mpr outright,
    (byApply [.bool true] .vector [.bool false] rfl).mpr outright⟩

end SmallLisp
