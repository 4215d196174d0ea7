import SmallLisp.Proofs.Evaluation.Outcome
import SmallLisp.Proofs.Scope.Frames
import SmallLisp.Proofs.Scope.RenamedComputing

/-!
# Worlds that differ in the names of frames

A world mirrors another one when it is the same but for the names of frames: each frame there has a
frame here with the same bindings, but for the names of frames in them, and a frame that is new
there is new here. There may be further frames here, which nothing there corresponds to. A
computation mirrors another one when, begun in such worlds, the two end alike, in such worlds again.
The primitive effects do, and so do sequences of computations that do.

## Main definitions

* `Store.Mirrors`: a world that is the same but for the names of frames
* `Ending.Mirrors`, `Eval.Mirrors`: endings and computations that are
* `Task.rename`, `Halt.rename`: tasks and reasons to stop with renamed frames

## Main results

* `Store.Mirrors.lookup?`: names are bound to the same values
* `Eval.Mirrors.bind`, `Eval.Mirrors.mapM`: sequences of computations that mirror each other
* `Eval.Mirrors.openScope`, …: the primitive effects mirror each other
-/

namespace SmallLisp

variable {ρ : FrameId → FrameId}

/-- A world that is the same but for the names of frames, with further frames perhaps. -/
structure Store.Mirrors (ρ : FrameId → FrameId) (store mirror : Store) : Prop where
  injective : Function.Injective ρ
  fresh : ∀ more, ρ (store.frames.size + more) = mirror.frames.size + more
  bindings : ∀ frame, mirror.bindings (ρ frame) = Bindings.rename ρ (store.bindings frame)
  cells : mirror.cells = store.cells.map (Value.rename ρ)
  procedures : mirror.procedures = store.procedures
  output : mirror.output = store.output
  files : mirror.files = store.files

/-- A task with renamed frames. -/
def Task.rename (ρ : FrameId → FrameId) : Task → Task
  | .evaluate form env => .evaluate (form.rename ρ) (env.rename ρ)
  | .expand form env => .expand (form.rename ρ) (env.rename ρ)
  | .call callee arguments env =>
    .call (callee.rename ρ) (arguments.map (Value.rename ρ)) (env.rename ρ)

/-- A value with renamed frames, or a task. -/
def Progress.rename (ρ : FrameId → FrameId) : Progress → Progress
  | .done value => .done (value.rename ρ)
  | .next task => .next (task.rename ρ)

/-- A reason to stop early, with renamed frames. -/
def Halt.rename (ρ : FrameId → FrameId) : Halt → Halt
  | .failure error => .failure (error.rename ρ)
  | halt => halt

/-- Endings that are the same but for the names of frames, given how those are renamed in what is
returned. -/
def Ending.Mirrors {α β : Type} (ρ : FrameId → FrameId) (f : α → β) : Ending α → Ending β → Prop
  | .ok value store, .ok value' mirror => value' = f value ∧ store.Mirrors ρ mirror
  | .error halt store, .error halt' mirror => halt' = halt.rename ρ ∧ store.Mirrors ρ mirror
  | _, _ => False

/-- Computations that end alike in worlds that are the same but for the names of frames. -/
def Eval.Mirrors {α β : Type} (ρ : FrameId → FrameId) (f : α → β) (action : Eval α)
    (mirror : Eval β) : Prop :=
  ∀ s t, Store.Mirrors ρ s t → Ending.Mirrors ρ f (action s) (mirror t)

namespace Store.Mirrors

variable {s t : Store} (mirrors : s.Mirrors ρ t)
include mirrors

theorem size_eq : ρ s.frames.size = t.frames.size := mirrors.fresh 0

/-- The frames there are the frames of frames. -/
theorem lt_size_iff (frame : FrameId) : ρ frame < t.frames.size ↔ frame < s.frames.size := by
  constructor
  · intro isFrame
    by_contra notFrame
    have place := mirrors.fresh (frame - s.frames.size)
    rw [Nat.add_sub_cancel' (Nat.le_of_not_lt notFrame)] at place
    exact absurd isFrame (Nat.not_lt.mpr (place ▸ Nat.le_add_right _ _))
  · intro isFrame
    by_contra notFrame
    -- Otherwise a frame and one that is still to come would have the same name.
    have place := mirrors.fresh (ρ frame - t.frames.size)
    rw [Nat.add_sub_cancel' (Nat.le_of_not_lt notFrame)] at place
    have same := mirrors.injective place
    exact absurd isFrame (Nat.not_lt.mpr (same ▸ Nat.le_add_right _ _))

theorem lookup? (env : Env) (name : String) :
    t.lookup? (env.rename ρ) name = (s.lookup? env name).map (Value.rename ρ) := by
  rw [Store.lookup?, Store.lookup?, Env.frames_rename, List.findSome?_map, List.map_findSome?]
  congr 1
  funext frame
  exact (congrArg (·.find? name) (mirrors.bindings frame)).trans (Bindings.find?_rename ρ _ name)

theorem contents (cell : CellId) : t.contents cell = (s.contents cell).rename ρ := by
  rw [Store.contents, mirrors.cells, Array.getElem?_map, Store.contents]
  cases s.cells[cell]? <;> rfl

theorem render (style : Style) (value : Value) :
    t.render style (value.rename ρ) = s.render style value := by
  have contents := funext mirrors.contents
  have size : t.cells.size = s.cells.size := by rw [mirrors.cells, Array.size_map]
  rw [Store.render, contents, size, Value.render_rename, Store.render]

theorem opened (made : Bindings) : (s.opened made).Mirrors ρ (t.opened (made.rename ρ)) where
  injective := mirrors.injective
  fresh more := by
    have later := mirrors.fresh (more + 1)
    simp only [Store.opened, Array.size_push]
    rwa [Nat.add_assoc, Nat.add_comm 1, Nat.add_assoc, Nat.add_comm 1]
  bindings frame := by
    rw [Store.bindings_opened, Store.bindings_opened, ← mirrors.size_eq]
    simp only [mirrors.injective.eq_iff]
    split
    · rfl
    · exact mirrors.bindings frame
  cells := mirrors.cells
  procedures := mirrors.procedures
  output := mirrors.output
  files := mirrors.files

theorem defined (changed : FrameId) (name : String) (value : Value) :
    (s.defined changed name value).Mirrors ρ (t.defined (ρ changed) name (value.rename ρ)) where
  injective := mirrors.injective
  fresh more := by
    simp only [Store.defined, Array.size_modify]
    exact mirrors.fresh more
  bindings frame := by
    rw [Store.bindings_defined, Store.bindings_defined, mirrors.bindings]
    simp only [mirrors.injective.eq_iff, mirrors.lt_size_iff]
    split
    · exact Bindings.insert_rename ρ _ name value
    · rfl
  cells := mirrors.cells
  procedures := mirrors.procedures
  output := mirrors.output
  files := mirrors.files

/-- What happens to cells, procedures and output alone happens alike. -/
theorem of_frames_eq {s' t' : Store} (frames : s'.frames = s.frames)
    (frames' : t'.frames = t.frames) (cells : t'.cells = s'.cells.map (Value.rename ρ))
    (procedures : t'.procedures = s'.procedures) (output : t'.output = s'.output)
    (files : t'.files = s'.files) : s'.Mirrors ρ t' where
  injective := mirrors.injective
  fresh := by
    rw [frames, frames']
    exact mirrors.fresh
  bindings frame := by
    rw [Store.bindings, frames', Store.bindings, frames]
    exact mirrors.bindings frame
  cells := cells
  procedures := procedures
  output := output
  files := files

end Store.Mirrors

namespace Eval.Mirrors

variable {α α' β β' : Type} {f : α → α'} {g : β → β'}

theorem pure (value : α) : Eval.Mirrors ρ f (pure value) (pure (f value)) :=
  fun _ _ mirrors => ⟨rfl, mirrors⟩

theorem pure_of_eq {value : α} {value' : α'} (same : value' = f value) :
    Eval.Mirrors ρ f (Pure.pure value) (Pure.pure value') :=
  fun _ _ mirrors => ⟨same, mirrors⟩

theorem fail (error : Error) :
    Eval.Mirrors ρ f (Eval.fail error) (Eval.fail (error.rename ρ)) :=
  fun _ _ mirrors => ⟨rfl, mirrors⟩

theorem ofExcept {result : Except Error α} {result' : Except Error α'}
    (same : result' = renamed ρ f result) :
    Eval.Mirrors ρ f (Eval.ofExcept result) (Eval.ofExcept result') := by
  subst same
  cases result with
  | ok value => exact pure value
  | error error => exact fail error

/-- Sequences of computations mirror each other when their parts do. -/
theorem bind {first : Eval α} {first' : Eval α'} {second : α → Eval β} {second' : α' → Eval β'}
    (start : Eval.Mirrors ρ f first first')
    (rest : ∀ value, Eval.Mirrors ρ g (second value) (second' (f value))) :
    Eval.Mirrors ρ g (first >>= second) (first' >>= second') := by
  intro s t mirrors
  have alike := start s t mirrors
  cases ends : first s with
  | ok value u =>
    cases ends' : first' t with
    | ok value' u' =>
      rw [ends, ends'] at alike
      obtain ⟨rfl, mirrors'⟩ := alike
      rw [Eval.bind_of_ok ends, Eval.bind_of_ok ends']
      exact rest value u u' mirrors'
    | error halt u' =>
      rw [ends, ends'] at alike
      exact alike.elim
  | error halt u =>
    cases ends' : first' t with
    | ok value' u' =>
      rw [ends, ends'] at alike
      exact alike.elim
    | error halt u' =>
      rw [ends, ends'] at alike
      rw [Eval.bind_of_error ends, Eval.bind_of_error ends']
      exact alike

/-- A computation may look at the world that it begins in. -/
theorem get_bind {second : Store → Eval β} {second' : Store → Eval β'}
    (rest : ∀ s t, s.Mirrors ρ t → Eval.Mirrors ρ g (second s) (second' t)) :
    Eval.Mirrors ρ g (get >>= second) (get >>= second') := by
  intro s t mirrors
  rw [Eval.bind_of_ok (Eval.get_eq s), Eval.bind_of_ok (Eval.get_eq t)]
  exact rest s t mirrors s t mirrors

theorem mapM {action : α → Eval β} {action' : α' → Eval β'}
    (each : ∀ item, Eval.Mirrors ρ g (action item) (action' (f item))) (items : List α) :
    Eval.Mirrors ρ (List.map g) (items.mapM action) ((items.map f).mapM action') := by
  induction items with
  | nil => exact pure []
  | cons item rest ih =>
    rw [List.map_cons, List.mapM_cons, List.mapM_cons]
    exact (each item).bind fun value => ih.bind fun values => pure (value :: values)

/-! ### Primitive effects -/

theorem openScope (env : Env) (made : Bindings) :
    Eval.Mirrors ρ (Env.rename ρ) (Eval.openScope env made)
      (Eval.openScope (env.rename ρ) (made.rename ρ)) := by
  intro s t mirrors
  refine ⟨?_, mirrors.opened made⟩
  rw [Env.nest_rename, mirrors.size_eq]

theorem define (env : Env) (name : String) (value : Value) :
    Eval.Mirrors ρ id (Eval.define env name value)
      (Eval.define (env.rename ρ) name (value.rename ρ)) :=
  fun _ _ mirrors => ⟨rfl, mirrors.defined env.frame name value⟩

theorem lookup (env : Env) (name : String) :
    Eval.Mirrors ρ (Value.rename ρ) (Eval.lookup env name)
      (Eval.lookup (env.rename ρ) name) := by
  refine get_bind fun s t mirrors => ?_
  rw [mirrors.lookup? env name]
  cases s.lookup? env name with
  | some value => exact pure value
  | none => exact fail (.unbound name)

theorem newCell (value : Value) :
    Eval.Mirrors ρ (Value.rename ρ) (Eval.newCell value) (Eval.newCell (value.rename ρ)) := by
  intro s t mirrors
  -- Cells have the same names in both worlds: as many have been made.
  have size : t.cells.size = s.cells.size := by rw [mirrors.cells, Array.size_map]
  refine ⟨congrArg Value.atom size, mirrors.of_frames_eq rfl rfl ?_ mirrors.procedures
    mirrors.output mirrors.files⟩
  simp only [mirrors.cells, Array.map_push]

theorem readCell (cell : CellId) :
    Eval.Mirrors ρ (Value.rename ρ) (Eval.readCell cell) (Eval.readCell cell) :=
  fun _ _ mirrors => ⟨mirrors.contents cell, mirrors⟩

theorem writeCell (cell : CellId) (value : Value) :
    Eval.Mirrors ρ id (Eval.writeCell cell value) (Eval.writeCell cell (value.rename ρ)) := by
  intro s t mirrors
  refine ⟨rfl, mirrors.of_frames_eq rfl rfl ?_ mirrors.procedures mirrors.output mirrors.files⟩
  simp only [mirrors.cells, Array.map_setIfInBounds]

theorem newFunction (parameters : List Value) (body : Value) (env : Env) :
    Eval.Mirrors ρ (Value.rename ρ) (Eval.newFunction parameters body env)
      (Eval.newFunction (parameters.map (Value.rename ρ)) (body.rename ρ) (env.rename ρ)) := by
  intro s t mirrors
  refine ⟨?_, mirrors.of_frames_eq rfl rfl mirrors.cells (congrArg (· + 1) mirrors.procedures)
    mirrors.output mirrors.files⟩
  rw [Value.rename_procedure, mirrors.procedures]

theorem print (text : String) : Eval.Mirrors ρ id (Eval.print text) (Eval.print text) :=
  fun _ _ mirrors => ⟨rfl, mirrors.of_frames_eq rfl rfl mirrors.cells mirrors.procedures
    (congrArg (· ++ text) mirrors.output) mirrors.files⟩

theorem readFile (path : String) : Eval.Mirrors ρ id (Eval.readFile path) (Eval.readFile path) := by
  refine get_bind fun s t mirrors => ?_
  rw [mirrors.files]
  match s.files path with
  | some (.ok text) => exact pure text
  | some (.error fault) => exact fail (.file path fault)
  | none => exact fun _ _ mirrors => ⟨rfl, mirrors⟩

theorem render (style : Style) (value : Value) :
    Eval.Mirrors ρ id (Eval.render style value) (Eval.render style (value.rename ρ)) :=
  fun _ _ mirrors => ⟨mirrors.render style value, mirrors⟩

end Eval.Mirrors

end SmallLisp
