import SmallLisp.Proofs.Evaluation.Steps
import SmallLisp.Proofs.Reading.Enclosed
import SmallLisp.Proofs.Scope.Frames

/-!
# Loading a file from within a program

The prelude's function that loads files takes the text of a file, puts it between the parentheses of
a `do` form, reads that and evaluates it at top level. What a call of it does is said here without
its body, for any world in which the function and the native functions that it calls are bound as
they are from the start.

## Main definitions

* `Store.LoadsFiles`: a world in which files are loaded as the prelude has it
* `Prelude.loadCall`: the form that loads a file

## Main results

* `run_loadCall`: what the form that loads a file comes to
-/

namespace SmallLisp

/-- The body of the function that loads files. -/
def Prelude.loaderBody : Value :=
  Form.call "eval" [Form.call "read-string" [Form.call "str"
    [.string "(do ", Form.call "slurp" [.symbol "f"], .string "\n)"]]]

/-- The native functions that loading a file calls. -/
def Prelude.loaderNatives : List Native :=
  [.control .eval, .operation .readString, .effect .str, .effect .slurp]

/-- A world in which files are loaded as the prelude has it. -/
structure Store.LoadsFiles (store : Store) : Prop where
  loader : ∃ id, store.lookup? TopLevel.root "load-file" =
    some (.procedure .function id [.symbol "f"] Prelude.loaderBody TopLevel.root)
  natives : ∀ f ∈ Prelude.loaderNatives, store.lookup? TopLevel.root f.name = some (.native f)

/-! ### Loading a file -/

namespace Store

/-- The world in which the body of the function that loads files is evaluated: the path is bound
in a frame of its own. -/
def loading (store : Store) (path : String) : Store := store.opened [("f", .string path)]

/-- The scope in which that body is evaluated. -/
def loadingScope (store : Store) : Env := TopLevel.root.nest store.frames.size

theorem lookup?_loading_path (store : Store) (path : String) :
    (store.loading path).lookup? store.loadingScope "f" = some (.string path) := by
  rw [loading, lookup?, loadingScope, Env.frames, Env.nest, List.findSome?_cons, bindings_opened,
    if_pos rfl]
  rfl

variable {store : Store} {path content : String}

theorem LoadsFiles.size_pos (loads : store.LoadsFiles) : 0 < store.frames.size := by
  obtain ⟨id, bound⟩ := loads.loader
  exact size_pos_of_lookup? bound

theorem LoadsFiles.lookup?_native (loads : store.LoadsFiles) (f : Native)
    (mem : f ∈ Prelude.loaderNatives) :
    (store.loading path).lookup? store.loadingScope f.name = some (.native f) := by
  have bound := loads.natives f mem
  have differs : ¬ f.name = "f" := by
    simp only [Prelude.loaderNatives, List.mem_cons, List.not_mem_nil, or_false] at mem
    rcases mem with rfl | rfl | rfl | rfl <;> decide
  have older : ¬ (0 : FrameId) = store.frames.size := Nat.ne_of_lt loads.size_pos
  simp only [lookup?, loadingScope, Env.frames, Env.nest, TopLevel.root, List.findSome?_cons,
    List.findSome?_nil, loading, bindings_opened, if_true, if_neg older] at bound ⊢
  rw [Bindings.find?_cons, if_neg differs, Bindings.find?_nil]
  exact bound

end Store

/-- A file is loaded from within a program. -/
def Prelude.loadCall (path : String) : Value := Form.call "load-file" [.string path]

section Load

variable {store : Store} {path content : String}

/-- The text of the file is put between the parentheses of a `do` form. -/
theorem run_enclosed (loads : store.LoadsFiles) (holds : store.files path = some (.ok content))
    (fuel : Nat) :
    run (fuel + 3)
        (.evaluate (Form.call "str"
          [.string "(do ", Form.call "slurp" [.symbol "f"], .string "\n)"]) store.loadingScope)
        (store.loading path) =
      .ok (.string (Form.enclosed content)) (store.loading path) := by
  have slurps : run (fuel + 2) (.evaluate (Form.call "slurp" [.symbol "f"]) store.loadingScope)
      (store.loading path) = .ok (.string content) (store.loading path) := by
    have bound : (store.loading path).lookup? store.loadingScope "slurp" =
        some (.native (.effect .slurp)) := loads.lookup?_native (.effect .slurp) (by decide)
    have isPath : run (fuel + 1) (.evaluate (.symbol "f") store.loadingScope) (store.loading path) =
        .ok (.string path) (store.loading path) := run_symbol (store.lookup?_loading_path path)
    rw [run_native_application bound rfl (evaluateEach_cons isPath (evaluateEach_nil _))]
    have reads : Eval.readFile path (store.loading path) = .ok content (store.loading path) := by
      have holds : (store.loading path).files path = some (.ok content) := holds
      rw [Eval.readFile, Eval.bind_of_ok (Eval.get_eq _), holds]
      rfl
    exact Eval.bind_of_ok reads
  have bound : (store.loading path).lookup? store.loadingScope "str" =
      some (.native (.effect .str)) := loads.lookup?_native (.effect .str) (by decide)
  have texts : evaluateEach (run (fuel + 2)) store.loadingScope
      [.string "(do ", Form.call "slurp" [.symbol "f"], .string "\n)"] (store.loading path) =
        .ok [.string "(do ", .string content, .string "\n)"] (store.loading path) :=
    evaluateEach_cons (run_constant trivial) (evaluateEach_cons slurps
      (evaluateEach_cons (run_constant trivial) (evaluateEach_nil _)))
  have joined : "".intercalate ["(do ", content, "\n)"] = Form.enclosed content := by
    simp [Form.enclosed, String.append_assoc]
  have asText : Effect.textOf .plain "" [.string "(do ", .string content, .string "\n)"]
      (store.loading path) = .ok (Form.enclosed content) (store.loading path) := by
    rw [← joined]
    rfl
  rw [run_native_application bound rfl texts]
  exact Eval.bind_of_ok asText

/-- Loading a file evaluates at top level the form that its text is read as between parentheses. -/
theorem run_loadCall (loads : store.LoadsFiles) (holds : store.files path = some (.ok content))
    (fuel : Nat) :
    run (fuel + 7) (.evaluate (Prelude.loadCall path) TopLevel.root) store =
      (do run (fuel + 3) (.evaluate (← Eval.ofExcept (Form.ofText (Form.enclosed content)))
        TopLevel.root) : Eval Value) (store.loading path) := by
  obtain ⟨id, isLoader⟩ := loads.loader
  have isPath : evaluateEach (run (fuel + 6)) TopLevel.root [.string path] store =
      .ok [.string path] store := evaluateEach_cons (run_constant trivial) (evaluateEach_nil _)
  rw [Prelude.loadCall, run_application isLoader rfl (by simp) isPath]
  have enters : perform (run (fuel + 5)) (.call (.procedure .function id [.symbol "f"]
      Prelude.loaderBody TopLevel.root) [.string path] TopLevel.root) store =
        .ok (.next (.evaluate Prelude.loaderBody store.loadingScope)) (store.loading path) := rfl
  rw [run_of_next enters]
  have reads : run (fuel + 4) (.evaluate (Form.call "read-string" [Form.call "str"
      [.string "(do ", Form.call "slurp" [.symbol "f"], .string "\n)"]]) store.loadingScope)
        (store.loading path) =
      Eval.ofExcept (Form.ofText (Form.enclosed content)) (store.loading path) := by
    have bound : (store.loading path).lookup? store.loadingScope "read-string" =
        some (.native (.operation .readString)) :=
      loads.lookup?_native (.operation .readString) (by decide)
    have text := evaluateEach_cons (run_enclosed loads holds fuel) (evaluateEach_nil _)
    rw [run_native_application bound rfl text]
    rfl
  have bound : (store.loading path).lookup? store.loadingScope "eval" =
      some (.native (.control .eval)) := loads.lookup?_native (.control .eval) (by decide)
  cases ofText : Form.ofText (Form.enclosed content) with
  | ok form =>
    rw [ofText] at reads
    rw [Prelude.loaderBody,
      run_native_application bound rfl (evaluateEach_cons reads (evaluateEach_nil _))]
    rfl
  | error error =>
    rw [ofText] at reads
    rw [Prelude.loaderBody, run_application_stops bound rfl (by simp) (evaluateEach_stops reads)]
    rfl

end Load

end SmallLisp
