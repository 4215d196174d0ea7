import SmallLisp.Proofs.Equality.FiniteMap
import SmallLisp.Proofs.Evaluation.Steps

/-!
# Maps that are made again

A map that is taken apart and put together, and a map that is evaluated, are both made again entry
by entry, and each key is compared with those that are there by then. Nothing is lost, for the keys
of a map differ, and whether they do is a matter of the keys alone. No evaluation of a value can
change it, whatever it does to the contents of the atoms that a key may hold. So a map form
evaluates its values like the items of a vector, and the keys are only handed on.

## Main results

* `Entries.evaluateEntries_eq`: evaluating entries is evaluating their values
* `Entries.map_rebuilds`: a map that is made again has the same keys in the same order
-/

namespace SmallLisp.Entries

variable {entries made : Entries} {env : Env}

@[simp] theorem keys_cons (entry : Value × Value) (entries : Entries) :
    keys (entry :: entries) = entry.1 :: keys entries := rfl

@[simp] theorem values_cons (entry : Value × Value) (entries : Entries) :
    values (entry :: entries) = entry.2 :: values entries := rfl

/-- The entries with other values. -/
def withValues (entries : Entries) (values : List Value) : Entries := (keys entries).zip values

theorem keys_withValues {values : List Value} (asMany : values.length = entries.length) :
    keys (withValues entries values) = keys entries := by
  have enough : (keys entries).length ≤ values.length := by
    rw [keys, List.length_map, asMany]
  exact List.map_fst_zip enough

theorem values_withValues {results : List Value} (asMany : results.length = entries.length) :
    values (withValues entries results) = results := by
  have enough : results.length ≤ (keys entries).length := by
    rw [keys, List.length_map, asMany]
  exact List.map_snd_zip enough

theorem zip_keys_values (entries : Entries) : (keys entries).zip (values entries) = entries := by
  simp [keys, values, List.zip_map']

/-- Evaluating entries with keys of their own is evaluating their values. This holds of any way to
evaluate a form, so whatever evaluating a value does makes no difference to the keys. -/
theorem evaluateEntries_eq (self : Task → Eval Value)
    (distinct : (keys made ++ keys entries).Pairwise fun earlier later =>
      (earlier == later) = false) :
    evaluateEntries self env made entries =
      (made ++ withValues entries ·) <$> evaluateEach self env (values entries) := by
  induction entries generalizing made with
  | nil =>
    have nothing : made ++ withValues [] [] = made := List.append_nil made
    rw [evaluateEntries, values, List.map_nil, evaluateEach, List.mapM_nil, map_pure, nothing]
  | cons entry rest ih =>
    obtain ⟨key, form⟩ := entry
    have absent : find? made key = none := by
      refine find?_eq_none_iff.mpr fun earlier isKey => ?_
      exact (List.pairwise_append.mp distinct).2.2 earlier isKey key List.mem_cons_self
    -- The key is new, so it comes last, and the same is to be shown of the others.
    have goesOn (value : Value) : evaluateEntries self env (insert made key value) rest =
        (made ++ (key, value) :: withValues rest ·) <$> evaluateEach self env (values rest) := by
      have distinct' : (keys (made ++ [(key, value)]) ++ keys rest).Pairwise fun earlier later =>
          (earlier == later) = false := by
        simpa [keys] using distinct
      rw [insert_of_find?_eq_none absent, ih distinct']
      simp only [List.append_assoc, List.singleton_append]
    have each : evaluateEach self env (values ((key, form) :: rest)) = (do
        let value ← self (.evaluate form env)
        let others ← evaluateEach self env (values rest)
        return value :: others) := by
      rw [evaluateEach, values_cons, List.mapM_cons]
      rfl
    rw [evaluateEntries, each]
    simp only [goesOn, ← bind_pure_comp, bind_assoc, pure_bind]
    rfl

end SmallLisp.Entries

namespace SmallLisp

section Rows

variable {forms values : List Value} {env : Env} {s t : Store} {halt : Halt}

/-- A row of evaluations gives values as a run with some fuel does. -/
theorem ends_evaluateEach_iff :
    Ends (.each (forms.map (.evaluate · env))) s (.ok (.list values) t) ↔
      ∃ fuel, evaluateEach (run fuel) env forms s = .ok values t := by
  constructor
  · intro ends
    obtain ⟨fuel, evaluates⟩ := (eventually_mapM_ok ends.settles).exists
    exact ⟨fuel, (congrFun (evaluateEach_eq env forms) s).trans evaluates⟩
  · rintro ⟨fuel, evaluates⟩
    exact ends_each_of_evaluateEach evaluates

/-- A row of evaluations stops as a run with some fuel does, unless that is for lack of fuel. -/
theorem ends_evaluateEach_stops_iff :
    Ends (.each (forms.map (.evaluate · env))) s (.error halt t) ↔
      halt ≠ .exhausted ∧ ∃ fuel, evaluateEach (run fuel) env forms s = .error halt t := by
  constructor
  · intro ends
    obtain ⟨fuel, stops⟩ := (eventually_mapM_error ends.settles).exists
    refine ⟨?_, fuel, (congrFun (evaluateEach_eq env forms) s).trans stops⟩
    rintro rfl
    exact ends.not_isExhausted trivial
  · rintro ⟨notExhausted, fuel, stops⟩
    have follows := evaluateEach_follows (run_follows fuel) env forms s
    rw [Eval.leads_error_iff stops] at follows
    exact follows.resolve_left notExhausted

end Rows

namespace Entries

variable {entries : Entries} {env : Env} {s : Store} {ending : Ending Value}

theorem run_mapForm (distinct : entries.Distinct) (fuel : Nat) :
    run (fuel + 1) (.evaluate (.map entries) env) s =
      ((.map <| withValues entries ·) <$> evaluateEach (run fuel) env (values entries)) s := by
  have performs : perform (run fuel) (.evaluate (.map entries) env) s =
      (do return .done (.map (← evaluateEntries (run fuel) env [] entries)) : Eval Progress) s :=
    perform_plain rfl
  have each : evaluateEntries (run fuel) env [] entries =
      (withValues entries ·) <$> evaluateEach (run fuel) env (values entries) :=
    evaluateEntries_eq (run fuel) (distinct_iff.mp distinct)
  rw [run_succ, Eval.bind_congr_left performs, each]
  simp only [← bind_pure_comp, bind_assoc, pure_bind]

/-- A map form evaluates its values in a row. -/
theorem finishes_mapForm_iff (distinct : entries.Distinct) :
    (Task.evaluate (.map entries) env).Finishes s ending ↔
      (∃ results t, Ends (.each ((values entries).map (.evaluate · env))) s
          (.ok (.list results) t) ∧ ending = .ok (.map (withValues entries results)) t) ∨
        ∃ halt t, Ends (.each ((values entries).map (.evaluate · env))) s (.error halt t) ∧
          ending = .error halt t := by
  constructor
  · rintro ⟨notExhausted, _ | fuel, ends⟩
    · exact (notExhausted (ends ▸ trivial)).elim
    rw [run_mapForm distinct] at ends
    cases ending with
    | ok value t =>
      obtain ⟨results, evaluates, rfl⟩ := Eval.map_eq_ok_iff.mp ends
      exact .inl ⟨results, t, ends_evaluateEach_iff.mpr ⟨fuel, evaluates⟩, rfl⟩
    | error halt t =>
      have stops := Eval.map_eq_error_iff.mp ends
      refine .inr ⟨halt, t, ends_evaluateEach_stops_iff.mpr ⟨?_, fuel, stops⟩, rfl⟩
      rintro rfl
      exact notExhausted trivial
  · rintro (⟨results, t, ends, rfl⟩ | ⟨halt, t, ends, rfl⟩)
    · obtain ⟨fuel, evaluates⟩ := ends_evaluateEach_iff.mp ends
      refine ⟨id, fuel + 1, ?_⟩
      rw [run_mapForm distinct]
      exact Eval.map_eq_ok_iff.mpr ⟨results, evaluates, rfl⟩
    · obtain ⟨_, fuel, stops⟩ := ends_evaluateEach_stops_iff.mp ends
      refine ⟨ends.not_isExhausted, fuel + 1, ?_⟩
      rw [run_mapForm distinct]
      exact Eval.map_eq_error_iff.mpr stops

/-- **A map that is made again is the same map.** A map that has come about by the operations on
maps, whatever its keys are, is made again from its alternating keys and values with the same
entries in the same order. Evaluated as a form, in any scope and any world, it evaluates its values
in the order of the entries, once each, every one in the world that the one before it leaves. It
stops with the first of them that stops. Where none does, the map that comes out has the same keys
in the same order, and under each key the value of the form that was there. -/
theorem map_rebuilds {entries : Entries} (made : entries.Made) :
    ofForms? (toForms entries) = some entries ∧
    ∀ env s ending, (Task.evaluate (.map entries) env).Finishes s ending ↔
      (∃ result t, keys result = keys entries ∧
        Ends (.each ((values entries).map (.evaluate · env))) s (.ok (.list (values result)) t) ∧
        ending = .ok (.map result) t) ∨
      ∃ halt t, Ends (.each ((values entries).map (.evaluate · env))) s (.error halt t) ∧
        ending = .error halt t := by
  refine ⟨made.isFiniteMap.ofForms?_toForms, fun env s ending => ?_⟩
  rw [finishes_mapForm_iff made.distinct]
  refine or_congr_left ⟨?_, ?_⟩
  · rintro ⟨results, t, ends, rfl⟩
    have asMany : results.length = entries.length := by
      rw [length_eq_of_ends_each ends, List.length_map, values, List.length_map]
    refine ⟨withValues entries results, t, keys_withValues asMany, ?_, rfl⟩
    rwa [values_withValues asMany]
  · -- A map is known by its keys and its values.
    rintro ⟨result, t, sameKeys, ends, rfl⟩
    refine ⟨values result, t, ends, ?_⟩
    have whole : withValues entries (values result) = result := by
      rw [withValues, ← sameKeys]
      exact zip_keys_values result
    rw [whole]

/-- A value that changes what an atom holds, under that atom, and another key that holds the
atom. -/
theorem map_rebuilds_atom :
    let entries := insert (insert [] (.atom 0) (Form.call "reset!" [.atom 0, .bool true]))
      (.list [.atom 0]) .nil
    let s := { (Store.initial fun _ => none).opened TopLevel.nativeBindings with cells := #[.nil] }
    Made entries ∧ ofForms? (toForms entries) = some entries ∧
      (Task.evaluate (.map entries) TopLevel.root).Finishes s
        (.ok (.map [(.atom 0, .bool true), (.list [.atom 0], .nil)])
          (s.written 0 (.bool true))) := by
  intro entries s
  have ofAtom : (Value.atom 0).Built := .scalar rfl rfl
  have ofList : (Value.list [.atom 0]).Built := .seq (by simpa using ofAtom)
  have made : Made entries := (Made.empty.insert _ ofAtom).insert _ ofList
  obtain ⟨again, evaluates⟩ := map_rebuilds made
  refine ⟨made, again, (evaluates _ _ _).mpr (.inl ?_)⟩
  refine ⟨[(.atom 0, .bool true), (.list [.atom 0], .nil)], s.written 0 (.bool true), rfl, ?_, rfl⟩
  exact ends_evaluateEach_iff.mpr ⟨4, by rfl⟩

end Entries

end SmallLisp
