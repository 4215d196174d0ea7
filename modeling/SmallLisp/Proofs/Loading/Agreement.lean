import SmallLisp.Proofs.Loading.Faults
import SmallLisp.Proofs.Scope.MirroredRun
import SmallLisp.Proofs.Scope.Reachable

/-!
# Loading a file that can be read

When all of a file can be read, its text between the parentheses of a `do` form is read as the form
of all its forms, whatever it ends with, and so a program that loads the file evaluates the form
that the host evaluates. It does so in a world with one more frame, that of the path; the frames
that open from then on have other names, which is all the difference there is.

## Main definitions

* `skipping`: the names of frames where one more frame has opened before them

## Main results

* `Store.Within.mirrors_opened`: a world with one more frame is the same but for the names of frames
* `load_agrees`: a program and the host load a file alike
-/

namespace SmallLisp

/-- The name of a frame where there is one more frame, which took the name `opened`. -/
def skipping (opened : FrameId) (frame : FrameId) : FrameId :=
  if frame < opened then frame else frame + 1

theorem skipping_of_lt {opened frame : FrameId} (older : frame < opened) :
    skipping opened frame = frame := if_pos older

theorem skipping_add (opened more : FrameId) :
    skipping opened (opened + more) = opened + 1 + more := by
  rw [skipping, if_neg (Nat.not_lt.mpr (Nat.le_add_right opened more)), Nat.add_right_comm]

theorem skipping_injective (opened : FrameId) : Function.Injective (skipping opened) := by
  intro frame other same
  simp only [skipping] at same
  split at same <;> split at same <;> simp only [FrameId] at * <;> omega

theorem Env.rename_eq_self {ρ : FrameId → FrameId} {env : Env}
    (kept : ∀ frame ∈ env.frames, ρ frame = frame) : env.rename ρ = env := by
  obtain ⟨frame, outer⟩ := env
  have ofOuter : outer.map ρ = outer.map fun frame => frame :=
    List.map_congr_left fun other mem => kept other (List.mem_cons_of_mem frame mem)
  rw [rename, kept frame List.mem_cons_self, ofOuter, List.map_id']

namespace Store.Within

variable {scopes : List Env} {s : Store} (within : s.Within scopes)
include within

/-- Where one more frame opens, the scopes that are known keep their names. -/
theorem rename_skipping {env : Env} (mem : env ∈ scopes) :
    env.rename (skipping s.frames.size) = env := by
  refine Env.rename_eq_self fun frame sees => skipping_of_lt ?_
  rw [within.size_eq]
  exact within.opened.lt_length mem sees

theorem value_rename_skipping {value : Value} (known : value.Within (· ∈ scopes)) :
    value.rename (skipping s.frames.size) = value :=
  Value.rename_eq_self _ value (known.mono fun _ mem => within.rename_skipping mem)

theorem bindings_rename_skipping (frame : FrameId) :
    Bindings.rename (skipping s.frames.size) (s.bindings frame) = s.bindings frame := by
  have same : Bindings.rename (skipping s.frames.size) (s.bindings frame) =
      (s.bindings frame).map fun binding => binding :=
    List.map_congr_left fun binding mem =>
      Prod.ext rfl (within.value_rename_skipping (within.bindings frame binding mem))
  rw [same, List.map_id']

theorem cells_rename_skipping : s.cells.map (Value.rename (skipping s.frames.size)) = s.cells := by
  refine Array.ext (Array.size_map ..) fun cell isCell _ => ?_
  rw [Array.size_map] at isCell
  have known := within.cells cell
  rw [Store.contents, Array.getElem?_eq_getElem isCell] at known
  rw [Array.getElem_map]
  exact within.value_rename_skipping known

/-- A world with one more frame is the same but for the names of frames. -/
theorem mirrors_opened (made : Bindings) :
    s.Mirrors (skipping s.frames.size) (s.opened made) where
  injective := skipping_injective _
  fresh more := by
    rw [skipping_add, Store.opened, Array.size_push]
  bindings frame := by
    rw [Store.bindings_opened, within.bindings_rename_skipping]
    by_cases older : frame < s.frames.size
    · rw [skipping_of_lt older, if_neg (Nat.ne_of_lt older)]
    · -- Neither world has bindings behind its last frame.
      have later : s.frames.size ≤ frame := Nat.le_of_not_lt older
      have behind : s.frames.size < skipping s.frames.size frame := by
        rw [skipping, if_neg older]
        exact Nat.lt_succ_of_le later
      rw [if_neg (Nat.ne_of_gt behind), Store.bindings_of_size_le later,
        Store.bindings_of_size_le (Nat.le_of_lt behind)]
  cells := within.cells_rename_skipping.symm
  procedures := rfl
  output := rfl
  files := rfl

end Store.Within

section Load

variable {path content : String} {forms : List Value}

/-- A text that can be read is read between the parentheses of a `do` form as the form of all its
forms. -/
theorem Form.ofText_enclosed_of_allOfText (reads : Form.allOfText content = .ok forms) :
    Form.ofText (Form.enclosed content) = .ok (Form.call SpecialForm.sequence.keyword forms) :=
  Form.ofText_enclosed_eq_ok_iff.mpr ⟨forms, rfl, .inl reads⟩

theorem evaluateFile_eq {store : Store} (holds : store.files path = some (.ok content))
    (reads : Form.allOfText content = .ok forms) (nonempty : forms ≠ []) (fuel : Nat) :
    TopLevel.evaluateFile fuel path store =
      run fuel (.evaluate (Form.call SpecialForm.sequence.keyword forms) TopLevel.root) store := by
  rw [TopLevel.evaluateFile, Eval.bind_of_ok (Eval.readFile_of_holds holds),
    evaluateAll_of_ne_nil reads nonempty, TopLevel.evaluate]

/-- A text that can be read is read between the parentheses of a `do` form as the form of all its
forms. So where files are loaded as the prelude has it, a program that loads such a file, unless it
holds no form, and the host that loads it end alike: with the same value or error, the same output,
and the same bindings in all frames and contents of all cells, but for the names of the frames that
have opened meanwhile. -/
theorem load_agrees :
    (∀ content forms, Form.allOfText content = .ok forms →
      Form.ofText (Form.enclosed content) = .ok (Form.call SpecialForm.sequence.keyword forms)) ∧
    ∀ (s : Store) (held : Env → Prop), Reachable s held → s.LoadsFiles →
      ∀ path content forms, s.files path = some (.ok content) →
        Form.allOfText content = .ok forms → forms ≠ [] → ∀ fuel,
          Ending.Mirrors (skipping s.frames.size) (Value.rename (skipping s.frames.size))
            (TopLevel.evaluateFile (fuel + 3) path s)
            (run (fuel + 7) (.evaluate (Prelude.loadCall path) TopLevel.root) s) := by
  refine ⟨fun _ _ => Form.ofText_enclosed_of_allOfText, ?_⟩
  intro s held reachable loads path content forms holds reads nonempty fuel
  obtain ⟨scopes, within, _⟩ := reachable.within
  have asForm := Form.ofText_enclosed_of_allOfText reads
  rw [evaluateFile_eq holds reads nonempty, run_loadCall loads holds, asForm]
  -- Neither the form nor the outermost scope mentions a frame with another name.
  have sameForm := Form.rename_of_ofText (skipping s.frames.size) asForm
  have sameRoot := within.rename_skipping within.opened.root_mem
  have alike := mirrored_run (fuel + 3)
    (.evaluate (Form.call SpecialForm.sequence.keyword forms) TopLevel.root) s _
    (within.mirrors_opened [("f", .string path)])
  rw [Task.rename, sameForm, sameRoot] at alike
  exact alike

end Load

/-- A file that ends in a comment. -/
theorem load_agrees_comment :
    ∃ store, TopLevel.start 2 true (Store.initial fun _ => some (.ok "1 ; one")) = .ok () store ∧
      Form.allOfText "1 ; one" = .ok [.number (Binary64.ofNat 1)] ∧
      Ending.Mirrors (skipping store.frames.size) (Value.rename (skipping store.frames.size))
        (TopLevel.evaluateFile 3 "a.wisp" store)
        (run 7 (.evaluate (Prelude.loadCall "a.wisp") TopLevel.root) store) := by
  obtain ⟨store, ready, loads, _, files⟩ := exists_start 0 fun _ => some (.ok "1 ; one")
  have holds : store.files "a.wisp" = some (.ok "1 ; one") := by rw [files]
  have scanned : Token.scan "1 ; one" = [⟨.atom, "1", ⟨1, 1⟩⟩] := rfl
  have reads : Form.allOfText "1 ; one" = .ok [.number (Binary64.ofNat 1)] := by
    have first : Form.read [⟨.atom, "1", ⟨1, 1⟩⟩] = ⟨.ok (.number (Binary64.ofNat 1)), []⟩ := rfl
    rw [Form.allOfText, scanned, Form.readAll_eq_of_ne_nil (List.cons_ne_nil _ _), first]
    simp only [Form.readAll_nil]
    rfl
  exact ⟨store, ready, reads, load_agrees.2 store _ (.start ready) loads "a.wisp" "1 ; one" _ holds
    reads (List.cons_ne_nil _ _) 0⟩

end SmallLisp
