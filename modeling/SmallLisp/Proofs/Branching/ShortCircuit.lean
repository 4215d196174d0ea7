import SmallLisp.Proofs.Branching.FirstTruth

/-!
# The expanders of the prelude stop at the first true condition

What the two expanders do for any number of operands, in one statement: which operands are
evaluated, in which scopes and stores, and what comes out. The scopes in which the operands of `or`
are evaluated see, besides the frames that the caller sees, one frame for each operand that has
turned out false, and its value is kept there.

## Main results

* `Tries.exists_frames`: the frames that the operands of `or` see
* `branching_short_circuits`: what `cond` and `or` do
-/

namespace SmallLisp

section Frames

variable {env scope : Env} {operands rest : List Value} {s u : Store}

theorem Store.becomes_trial (s : Store) (operands : List Value) : s.Becomes (s.trial operands) :=
  (Change.opened _).becomes.trans (Change.opened _).becomes

theorem Store.becomes_kept {t : Store} {task : Task} {value : Value}
    (finishes : task.Finishes (s.trial operands) (.ok value t)) :
    s.Becomes (t.kept (s.trialScope env) value) :=
  (s.becomes_trial operands).trans
    ((becomes_of_finishes finishes).trans (Change.defined _ _ _).becomes)

theorem Tries.becomes (tries : Tries env operands s scope rest u) : s.Becomes u := by
  induction tries with
  | none => exact .refl _
  | next evaluates _ _ ih => exact (Store.becomes_kept evaluates).trans ih

/-- The scope that the operands are evaluated in after some others sees the frames that the caller
sees and, for each of the others, a new one that holds its value. -/
theorem Tries.exists_frames (tries : Tries env operands s scope rest u) :
    ∃ made, scope.frames = made ++ env.frames ∧ made.length + rest.length = operands.length ∧
      ∀ frame ∈ made, s.frames.size ≤ frame ∧
        ((u.bindings frame).find? Prelude.keptName).isSome := by
  induction tries with
  | none => exact ⟨[], rfl, Nat.zero_add _, by simp⟩
  | @next env first second more s value t scope rest u evaluates _ later ih =>
    obtain ⟨made, frames, length, new⟩ := ih
    refine ⟨made ++ [s.frames.size + 1], ?_, ?_, ?_⟩
    · rw [frames, List.append_assoc]
      rfl
    · simp only [List.length_append, List.length_cons, List.length_nil] at length ⊢
      omega
    · intro frame mem
      rcases List.mem_append.mp mem with mem | mem
      · -- The frames of later operands are newer still.
        obtain ⟨newer, bound⟩ := new frame mem
        exact ⟨Nat.le_trans (Store.size_le_of_becomes (Store.becomes_kept evaluates)) newer, bound⟩
      · have isFrame : (s.trialScope env).frame < t.frames.size :=
          Store.trialScope_frame_lt evaluates
        rw [List.mem_singleton.mp mem]
        refine ⟨Nat.le_succ _, later.becomes.isSome_find? ?_⟩
        rw [Store.kept, Store.bindings_defined, if_pos ⟨rfl, isFrame⟩, Bindings.find?_insert,
          if_pos rfl]
        rfl

end Frames

/-- **The expanders of the prelude stop at the first true condition.** In a world in which they, the
native functions that they call and the special forms mean what they mean from the start, also
between the operands:

A call of `cond` evaluates the conditions one after the other, where it is made, until one is true
or stops early. If one is true it evaluates the form behind it, and ends as that does. Otherwise it
gives `nil` where all conditions have a form behind them, and throws where the last has none, which
is not evaluated then.

A call of `or` evaluates its operands one after the other, until one is true or stops early, in
scopes that see the caller's frames and one for each value that is kept. It gives the first true
value, or ends as the last operand does, or gives `nil` where there are no operands. -/
theorem branching_short_circuits (env : Env) (forms : List Value) (s : Store)
    (holds : s.Holds env) :
    ((∀ rest u, Passes env forms s rest u → u.Serves Prelude.branch env) →
      (∀ ending, (Task.evaluate (Form.call "cond" forms) env).Finishes s ending ↔
        ∃ rest u, Passes env forms s rest u ∧ BranchEnds env rest u ending) ∧
      ∀ rest u, Passes env forms s rest u → rest.length % 2 = forms.length % 2) ∧
    (TruthServed env forms s →
      (∀ ending, (Task.evaluate (Form.call "or" forms) env).Finishes s ending ↔
        ∃ scope rest u, Tries env forms s scope rest u ∧ TruthEnds scope rest u ending) ∧
      ∀ scope rest u, Tries env forms s scope rest u →
        ∃ made, scope.frames = made ++ env.frames ∧ made.length + rest.length = forms.length ∧
          ∀ frame ∈ made, s.frames.size ≤ frame ∧
            ((u.bindings frame).find? Prelude.keptName).isSome) := by
  constructor
  · intro ready
    refine ⟨fun ending => finishes_branch_iff holds ready, ?_⟩
    intro rest u passes
    exact passes.length_mod_two
  · intro served
    refine ⟨fun ending => finishes_truth_iff holds served, ?_⟩
    intro scope rest u tries
    exact tries.exists_frames

/-! ### A world in which they do -/

section Kept

variable {s : Store} {env seen : Env} {operands : List Value} {value : Value} {name : String}

/-- What is kept of an operand does not reach scopes that were there before. -/
theorem Store.Holds.lookup?_kept (holds : s.Holds seen) :
    ((s.trial operands).kept (s.trialScope env) value).lookup? seen name =
      s.lookup? seen name := by
  apply Store.lookup?_congr
  intro frame mem
  have older : frame < s.frames.size := holds frame mem
  have notKept : frame ≠ (s.trialScope env).frame := Nat.ne_of_lt (Nat.lt_succ_of_lt older)
  have notOpened : frame ≠ (s.given operands).frames.size := by
    rw [Store.size_frames_given]
    exact Nat.ne_of_lt (Nat.lt_succ_of_lt older)
  rw [Store.kept, Store.bindings_defined, if_neg fun same => notKept same.1, Store.trial,
    Store.bindings_opened, if_neg notOpened, Store.given, Store.bindings_opened,
    if_neg (Nat.ne_of_lt older)]

/-- Inside, only the name that it is kept under means something else. -/
theorem Store.Holds.lookup?_kept_inside (holds : s.Holds env) (other : name ≠ Prelude.keptName) :
    ((s.trial operands).kept (s.trialScope env) value).lookup? (s.trialScope env) name =
      s.lookup? env name := by
  have isFrame : (s.trialScope env).frame = s.frames.size + 1 := rfl
  -- The frame of the scope holds the kept value and nothing else.
  have fresh : (s.trial operands).bindings (s.frames.size + 1) = [] := by
    rw [Store.trial, Store.bindings_opened, Store.size_frames_given, if_pos rfl]
  have notHere : (((s.trial operands).kept (s.trialScope env) value).bindings
      (s.frames.size + 1)).find? name = none := by
    rw [Store.kept, Store.bindings_defined, isFrame, Store.size_frames_trial,
      if_pos ⟨rfl, Nat.lt_succ_self _⟩, fresh, Bindings.find?_insert, if_neg other]
    rfl
  rw [Store.lookup?, Env.frames, List.findSome?_cons, isFrame, notHere]
  exact holds.lookup?_kept

/-- Where the value of an operand is kept, the expander works as before. -/
theorem Store.Serves.kept (serves : s.Serves Prelude.truth env) (holds : s.Holds env) :
    ((s.trial operands).kept (s.trialScope env) value).Serves Prelude.truth
      (s.trialScope env) where
  expander := by
    rw [holds.lookup?_kept_inside (by decide)]
    exact serves.expander
  natives operation mem := by
    rw [serves.holds_root.lookup?_kept]
    exact serves.natives operation mem
  here special mem := by
    rw [Store.Expands, holds.lookup?_kept_inside (by cases special <;> decide)]
    exact serves.here special mem
  inside special mem := by
    rw [Store.Expands, serves.holds_root.lookup?_kept]
    exact serves.inside special mem

end Kept

/-- Two conditions of which the second is true, one with nothing behind it, and two operands of
which the second is true, in the world that is set up with the prelude. -/
theorem branching_short_circuits_start :
    ∃ s, TopLevel.start 2 true (Store.initial fun _ => none) = .ok () s ∧
      (∃ t, (Task.evaluate (Form.call "cond" [.nil, .symbol "x", .bool true, .string "y"])
        TopLevel.root).Finishes s (.ok (.string "y") t)) ∧
      (∃ t, (Task.evaluate (Form.call "cond" [.nil, .symbol "x", .symbol "y"])
        TopLevel.root).Finishes s (.error (.failure (.thrown (.string Prelude.oddForms))) t)) ∧
      ∃ t, (Task.evaluate (Form.call "or" [.nil, .bool true])
        TopLevel.root).Finishes s (.ok (.bool true) t) := by
  obtain ⟨s, ready, branch, truth⟩ := exists_serves_start 0 fun _ => none
  have holds : s.Holds TopLevel.root := branch.holds_root
  have ofNil {env : Env} {t : Store} {ending : Ending Value} :
      (Task.evaluate .nil env).Finishes t ending ↔ ending = .ok .nil t :=
    finishes_constant_iff trivial
  have ofTrue {env : Env} {t : Store} {ending : Ending Value} :
      (Task.evaluate (.bool true) env).Finishes t ending ↔ ending = .ok (.bool true) t :=
    finishes_constant_iff trivial
  have ofText {env : Env} {t : Store} : (Task.evaluate (.string "y") env).Finishes t
      (.ok (.string "y") t) :=
    finishes_iff_ends.mpr (.constant trivial)
  -- Constants change nothing, so the world serves the expander at each clause that is reached.
  have readyEven : ∀ rest u, Passes TopLevel.root [.nil, .symbol "x", .bool true, .string "y"] s
      rest u → u.Serves Prelude.branch TopLevel.root := by
    intro rest u passes
    cases passes with
    | none => exact branch
    | next evaluates _ later =>
      cases ofNil.mp evaluates
      cases later with
      | none => exact branch.opened holds _
      | next evaluates isFalse =>
        cases ofTrue.mp evaluates
        cases isFalse
  have readyOdd : ∀ rest u, Passes TopLevel.root [.nil, .symbol "x", .symbol "y"] s rest u →
      u.Serves Prelude.branch TopLevel.root := by
    intro rest u passes
    cases passes with
    | none => exact branch
    | next evaluates _ later =>
      cases ofNil.mp evaluates
      cases later
      exact branch.opened holds _
  have served : TruthServed TopLevel.root [.nil, .bool true] s := by
    refine ⟨truth, ?_⟩
    intro scope first second more u value t tries evaluates
    cases tries with
    | none =>
      cases ofNil.mp evaluates
      exact truth.kept holds
    | next _ _ later => cases later
  obtain ⟨onEven, _⟩ := branching_short_circuits TopLevel.root _ s holds
  obtain ⟨onOdd, _⟩ := branching_short_circuits TopLevel.root _ s holds
  obtain ⟨_, onOperands⟩ := branching_short_circuits TopLevel.root _ s holds
  refine ⟨s, ready, ⟨_, ((onEven readyEven).1 _).mpr ⟨_, _, .next (ofNil.mpr rfl) rfl .none,
      .taken (ofTrue.mpr rfl) rfl ofText⟩⟩,
    ⟨_, ((onOdd readyOdd).1 _).mpr ⟨_, _, .next (ofNil.mpr rfl) rfl .none, .odd⟩⟩,
    ⟨_, ((onOperands served).1 _).mpr ⟨_, _, _, .next (ofNil.mpr rfl) rfl .none,
      .last (ofTrue.mpr rfl)⟩⟩⟩

end SmallLisp
