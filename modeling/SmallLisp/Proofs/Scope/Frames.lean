import SmallLisp.Proofs.Evaluation.Outcome
import SmallLisp.Proofs.Scope.Computing

/-!
# The frames of a world

A scope is a chain of frames. When scopes open one inside another, each with a frame of its own,
a frame says which scope it belongs to, and so which frame it lies in. A store keeps to the
scopes that have been opened when its frames are theirs and nothing it holds mentions another.
A computation that begins in such a store is to end in one, with further scopes perhaps, and with
the bindings of some frames, the guarded ones, as they were.

## Main definitions

* `Scopes`: the scopes opened so far, in the order of their frames
* `Store.Within`: a store that holds nothing but mentions of these scopes
* `Store.Holds`: a store that has all frames of a scope
* `Evolves`: what may become of a store
* `Eval.Keeps`: a computation that leaves guarded frames alone

## Main results

* `Scopes.eq_of_frame_eq`: a frame belongs to one scope
* `Store.lookup?_nest_opened`, `Store.Holds.lookup?_opened`: what names mean once a scope is opened
* `Eval.Keeps.bind`: sequences of computations that leave guarded frames alone do so, too
-/

namespace SmallLisp

/-- The scopes opened so far, in the order of their frames: the outermost one, and others that
each lie inside one opened earlier. -/
inductive Scopes : List Env → Prop where
  | root : Scopes [TopLevel.root]
  | nest {scopes : List Env} {parent : Env} :
      Scopes scopes → parent ∈ scopes → Scopes (scopes ++ [parent.nest scopes.length])

namespace Scopes

variable {scopes : List Env} (opened : Scopes scopes)
include opened

theorem root_mem : TopLevel.root ∈ scopes := by
  induction opened with
  | root => exact List.mem_singleton_self _
  | nest _ _ ih => exact List.mem_append_left _ ih

/-- All scopes lie inside the same outermost one. -/
theorem root_eq {env : Env} (mem : env ∈ scopes) : env.root = TopLevel.root := by
  induction opened generalizing env with
  | root =>
    obtain rfl := List.mem_singleton.mp mem
    rfl
  | nest _ inside ih =>
    rcases List.mem_append.mp mem with earlier | last
    · exact ih earlier
    · obtain rfl := List.mem_singleton.mp last
      rw [Env.root_nest, ih inside]

/-- A scope stands where its frame says. -/
theorem getElem?_frame {env : Env} (mem : env ∈ scopes) : scopes[env.frame]? = some env := by
  induction opened generalizing env with
  | root =>
    obtain rfl := List.mem_singleton.mp mem
    rfl
  | nest _ inside ih =>
    -- A new scope has the number of scopes as its frame, and stands behind all others.
    rcases List.mem_append.mp mem with earlier | last
    · obtain ⟨bound, at_frame⟩ := List.getElem?_eq_some_iff.mp (ih earlier)
      rw [List.getElem?_append_left bound, ih earlier]
    · obtain rfl := List.mem_singleton.mp last
      exact List.getElem?_concat_length

/-- A frame belongs to one scope. -/
theorem eq_of_frame_eq {env other : Env} (mem : env ∈ scopes) (otherMem : other ∈ scopes)
    (same : env.frame = other.frame) : env = other := by
  have stands := opened.getElem?_frame mem
  rw [same, opened.getElem?_frame otherMem] at stands
  exact (Option.some.inj stands).symm

/-- The frames of a scope are among those opened so far. -/
theorem lt_length {env : Env} (mem : env ∈ scopes) {frame : FrameId} (sees : frame ∈ env.frames) :
    frame < scopes.length := by
  induction opened generalizing env with
  | root =>
    obtain rfl := List.mem_singleton.mp mem
    obtain rfl := List.mem_singleton.mp sees
    exact Nat.zero_lt_one
  | nest _ inside ih =>
    rw [List.length_append, List.length_singleton]
    rcases List.mem_append.mp mem with earlier | last
    · exact Nat.lt_succ_of_lt (ih earlier sees)
    · obtain rfl := List.mem_singleton.mp last
      rcases List.mem_cons.mp sees with rfl | outer
      · exact Nat.lt_succ_self _
      · exact Nat.lt_succ_of_lt (ih inside outer)

end Scopes

namespace Store

/-- A store whose frames are those of some scopes, and that mentions no others. -/
structure Within (scopes : List Env) (store : Store) : Prop where
  opened : Scopes scopes
  size_eq : store.frames.size = scopes.length
  bindings : ∀ frame, ∀ binding ∈ store.bindings frame, binding.2.Within (· ∈ scopes)
  cells : ∀ cell, (store.contents cell).Within (· ∈ scopes)

theorem bindings_opened (store : Store) (made : Bindings) (frame : FrameId) :
    (store.opened made).bindings frame =
      if frame = store.frames.size then made else store.bindings frame := by
  simp only [bindings, opened, Array.getElem?_push]
  split <;> rfl

theorem bindings_of_size_le {store : Store} {frame : FrameId}
    (behind : store.frames.size ≤ frame) : store.bindings frame = [] := by
  rw [bindings, Array.getElem?_eq_none behind]
  rfl

/-- Where a name has a value there is a frame. -/
theorem size_pos_of_lookup? {store : Store} {env : Env} {name : String} {value : Value}
    (bound : store.lookup? env name = some value) : 0 < store.frames.size := by
  obtain ⟨frame, _, found⟩ := List.exists_of_findSome?_eq_some bound
  refine Nat.pos_of_ne_zero fun noFrames => ?_
  have behind : store.frames.size ≤ frame := noFrames ▸ Nat.zero_le frame
  rw [bindings_of_size_le behind] at found
  cases found

theorem bindings_defined (store : Store) (changed : FrameId) (name : String) (value : Value)
    (frame : FrameId) :
    (store.defined changed name value).bindings frame =
      if frame = changed ∧ frame < store.frames.size then
        (store.bindings frame).insert name value
      else store.bindings frame := by
  simp only [bindings, defined, Array.getElem?_modify]
  by_cases same : changed = frame
  · subst same
    by_cases bound : changed < store.frames.size
    · simp [bound]
    · simp [bound]
  · rw [if_neg same, if_neg fun h => same h.1.symm]

theorem contents_written (store : Store) (changed : CellId) (value : Value) (cell : CellId) :
    (store.written changed value).contents cell =
      if cell = changed ∧ cell < store.cells.size then value else store.contents cell := by
  simp only [contents, written, Array.getElem?_setIfInBounds]
  by_cases same : changed = cell
  · subst same
    by_cases bound : changed < store.cells.size
    · simp [bound]
    · simp [bound]
  · rw [if_neg same, if_neg fun h => same h.1.symm]

/-- All frames of a scope are there. -/
def Holds (store : Store) (env : Env) : Prop := ∀ frame ∈ env.frames, frame < store.frames.size

section Names

variable {s : Store} {env : Env} {name : String}

/-- A name means the same where the frames that a scope sees bind it alike. -/
theorem lookup?_congr {t : Store}
    (alike : ∀ frame ∈ env.frames, (t.bindings frame).find? name = (s.bindings frame).find? name) :
    t.lookup? env name = s.lookup? env name := by
  rw [lookup?, lookup?]
  generalize env.frames = frames at alike
  induction frames with
  | nil => rfl
  | cons frame rest ih =>
    -- The nearest frame decides, or else the frames behind it do.
    rw [List.findSome?_cons, List.findSome?_cons, alike frame List.mem_cons_self,
      ih fun frame mem => alike frame (List.mem_cons_of_mem _ mem)]

/-- In a new scope its own frame decides, or else the scope outside. -/
theorem lookup?_nest_opened (env : Env) (made : Bindings) (name : String) :
    (s.opened made).lookup? (env.nest s.frames.size) name =
      (made.find? name).or ((s.opened made).lookup? env name) := by
  rw [lookup?, Env.nest, Env.frames, List.findSome?_cons, bindings_opened, if_pos rfl]
  cases made.find? name <;> rfl

/-- A new frame is not seen from scopes that were there before. -/
theorem Holds.lookup?_opened (holds : s.Holds env) (made : Bindings) :
    (s.opened made).lookup? env name = s.lookup? env name := by
  apply lookup?_congr
  intro frame mem
  rw [bindings_opened, if_neg (Nat.ne_of_lt (holds frame mem))]

theorem Holds.opened (holds : s.Holds env) (made : Bindings) : (s.opened made).Holds env := by
  intro frame mem
  rw [Store.opened, Array.size_push]
  exact Nat.lt_succ_of_lt (holds frame mem)

end Names

namespace Within

variable {scopes : List Env} {store : Store} (within : store.Within scopes)
include within

theorem nested {parent : Env} {made : Bindings} (inside : parent ∈ scopes)
    (ofMade : ∀ binding ∈ made, binding.2.Within (· ∈ scopes)) :
    (store.opened made).Within (scopes ++ [parent.nest store.frames.size]) := by
  have grows (env : Env) (mem : env ∈ scopes) : env ∈ scopes ++ [parent.nest store.frames.size] :=
    List.mem_append_left _ mem
  refine ⟨?_, ?_, fun frame binding mem => ?_, fun cell => (within.cells cell).mono grows⟩
  · rw [within.size_eq]
    exact .nest within.opened inside
  · simp [Store.opened, within.size_eq]
  · rw [bindings_opened] at mem
    split at mem
    · exact (ofMade binding mem).mono grows
    · exact (within.bindings frame binding mem).mono grows

theorem define {value : Value} (ofValue : value.Within (· ∈ scopes)) (changed : FrameId)
    (name : String) : (store.defined changed name value).Within scopes := by
  refine ⟨within.opened, ?_, fun frame binding mem => ?_, within.cells⟩
  · rw [defined, Array.size_modify, within.size_eq]
  · rw [bindings_defined] at mem
    split at mem
    · exact Bindings.within_insert (within.bindings frame) ofValue binding mem
    · exact within.bindings frame binding mem

theorem write {value : Value} (ofValue : value.Within (· ∈ scopes)) (changed : CellId) :
    (store.written changed value).Within scopes := by
  refine ⟨within.opened, within.size_eq, within.bindings, fun cell => ?_⟩
  rw [contents_written]
  split
  · exact ofValue
  · exact within.cells cell

theorem addCell {value : Value} (ofValue : value.Within (· ∈ scopes)) :
    { store with cells := store.cells.push value }.Within scopes := by
  refine ⟨within.opened, within.size_eq, within.bindings, fun cell => ?_⟩
  simp only [contents, Array.getElem?_push]
  split
  · exact ofValue
  · exact within.cells cell

theorem lookup {env : Env} {name : String} {value : Value}
    (bound : store.lookup? env name = some value) : value.Within (· ∈ scopes) := by
  obtain ⟨frame, _, found⟩ := List.exists_of_findSome?_eq_some bound
  exact Bindings.within_find? (within.bindings frame) found

end Within

end Store

/-- Whom a reason to stop early mentions. -/
def Halt.Within (known : Env → Prop) : Halt → Prop
  | .failure error => error.Within known
  | .exhausted | .awaiting _ => True

/-- A store in which a computation that is to leave guarded frames alone may begin. The frame of
a scope that opens later is not guarded, nor is the outermost frame. -/
structure Stage (guarded : FrameId → Prop) (scopes : List Env) (store : Store) : Prop where
  within : store.Within scopes
  isFrame : ∀ frame, guarded frame → frame < store.frames.size
  notRoot : ¬ guarded TopLevel.root.frame

/-- What may become of a store: more scopes may have been opened, and the bindings of guarded
frames are as they were. -/
structure Evolves (guarded : FrameId → Prop) (scopes : List Env) (before : Store)
    (scopes' : List Env) (after : Store) : Prop where
  grows : scopes ⊆ scopes'
  within : after.Within scopes'
  size_le : before.frames.size ≤ after.frames.size
  kept : ∀ frame, guarded frame → after.bindings frame = before.bindings frame

section Guarded

variable {guarded : FrameId → Prop} {scopes scopes' : List Env} {s t : Store}

theorem Value.Within.grow {value : Value} (within : value.Within (· ∈ scopes))
    (grows : scopes ⊆ scopes') : value.Within (· ∈ scopes') :=
  within.mono fun _ mem => grows mem

/-- The frame that a new scope gets is not guarded. -/
theorem Stage.not_guarded_fresh (stage : Stage guarded scopes s) : ¬ guarded s.frames.size :=
  fun isGuarded => Nat.lt_irrefl _ (stage.isFrame _ isGuarded)

theorem Evolves.refl (within : s.Within scopes) : Evolves guarded scopes s scopes s :=
  ⟨List.Subset.refl _, within, Nat.le_refl _, fun _ _ => rfl⟩

theorem Evolves.trans {scopes'' : List Env} {u : Store}
    (first : Evolves guarded scopes s scopes' t) (second : Evolves guarded scopes' t scopes'' u) :
    Evolves guarded scopes s scopes'' u where
  grows := List.Subset.trans first.grows second.grows
  within := second.within
  size_le := Nat.le_trans first.size_le second.size_le
  kept frame isGuarded := (second.kept frame isGuarded).trans (first.kept frame isGuarded)

theorem Evolves.stage (evolves : Evolves guarded scopes s scopes' t)
    (stage : Stage guarded scopes s) : Stage guarded scopes' t where
  within := evolves.within
  isFrame frame isGuarded := Nat.lt_of_lt_of_le (stage.isFrame frame isGuarded) evolves.size_le
  notRoot := stage.notRoot

/-- Opening a scope inside another one. -/
theorem Stage.evolves_opened (stage : Stage guarded scopes s) {parent : Env} {made : Bindings}
    (inside : parent ∈ scopes) (ofMade : ∀ binding ∈ made, binding.2.Within (· ∈ scopes)) :
    Evolves guarded scopes s (scopes ++ [parent.nest s.frames.size]) (s.opened made) where
  grows := List.subset_append_left _ _
  within := stage.within.nested inside ofMade
  size_le := by simp [Store.opened]
  kept frame isGuarded := by
    rw [Store.bindings_opened, if_neg (Nat.ne_of_lt (stage.isFrame frame isGuarded))]

/-- Binding a name in a frame that is not guarded. -/
theorem Stage.evolves_defined (stage : Stage guarded scopes s) {value : Value} {changed : FrameId}
    (free : ¬ guarded changed) (name : String) (ofValue : value.Within (· ∈ scopes)) :
    Evolves guarded scopes s scopes (s.defined changed name value) where
  grows := List.Subset.refl _
  within := stage.within.define ofValue changed name
  size_le := by simp [Store.defined]
  kept frame isGuarded := by
    rw [Store.bindings_defined, if_neg]
    rintro ⟨rfl, _⟩
    exact free isGuarded

/-- Changes that leave all frames as they are. -/
theorem Evolves.of_frames_eq (within : t.Within scopes) (same : t.frames = s.frames) :
    Evolves guarded scopes s scopes t where
  grows := List.Subset.refl _
  within := within
  size_le := Nat.le_of_eq (congrArg Array.size same.symm)
  kept frame _ := by rw [Store.bindings, Store.bindings, same]

namespace Eval

variable {α β : Type}

/-- A computation that leaves guarded frames alone and mentions opened scopes only: `returns`
speaks of its value and the scopes that have been opened then. -/
def Keeps (guarded : FrameId → Prop) (scopes : List Env) (action : Eval α) (store : Store)
    (returns : List Env → α → Prop) : Prop :=
  action.Leads store
    (fun value after => ∃ scopes', Evolves guarded scopes store scopes' after ∧
      returns scopes' value)
    fun halt after => ∃ scopes', Evolves guarded scopes store scopes' after ∧
      halt.Within (· ∈ scopes')

theorem Keeps.mono {action : Eval α} {returns returns' : List Env → α → Prop}
    (keeps : action.Keeps guarded scopes s returns)
    (weaker : ∀ scopes' value, returns scopes' value → returns' scopes' value) :
    action.Keeps guarded scopes s returns' :=
  Leads.mono keeps
    (fun value _ ⟨scopes', evolves, holds⟩ => ⟨scopes', evolves, weaker scopes' value holds⟩)
    fun _ _ stop => stop

/-- What follows a computation begins where that ends, with the scopes that have been opened
then. -/
theorem Keeps.bind {first : Eval α} {second : α → Eval β} {returns : List Env → α → Prop}
    {returns' : List Env → β → Prop} (stage : Stage guarded scopes s)
    (keeps : first.Keeps guarded scopes s returns)
    (follows : ∀ value scopes' t, scopes ⊆ scopes' → Stage guarded scopes' t →
      returns scopes' value → (second value).Keeps guarded scopes' t returns') :
    (first >>= second).Keeps guarded scopes s returns' := by
  rw [Keeps, leads_bind]
  refine Leads.mono keeps (fun value t ⟨scopes', evolves, holds⟩ => ?_) fun _ _ stop => stop
  -- What evolves twice evolves; the guarded frames are the same all along.
  have rest := follows value scopes' t evolves.grows (evolves.stage stage) holds
  exact Leads.mono rest
    (fun _ _ ⟨scopes'', later, holds⟩ => ⟨scopes'', evolves.trans later, holds⟩)
    fun _ _ ⟨scopes'', later, holds⟩ => ⟨scopes'', evolves.trans later, holds⟩

theorem Keeps.pure {value : α} {returns : List Env → α → Prop} (stage : Stage guarded scopes s)
    (holds : returns scopes value) : (pure value : Eval α).Keeps guarded scopes s returns :=
  ⟨scopes, .refl stage.within, holds⟩

theorem Keeps.fail {error : Error} {returns : List Env → α → Prop}
    (stage : Stage guarded scopes s) (within : error.Within (· ∈ scopes)) :
    (fail error : Eval α).Keeps guarded scopes s returns :=
  ⟨scopes, .refl stage.within, within⟩

theorem Keeps.ofExcept {result : Except Error α} {returns : List Env → α → Prop}
    (stage : Stage guarded scopes s) (yields : Yields (· ∈ scopes) (returns scopes) result) :
    (ofExcept result).Keeps guarded scopes s returns := by
  cases result with
  | ok value => exact .pure stage yields
  | error error => exact .fail stage yields

/-- A computation made for each item of a list. -/
theorem Keeps.mapM {items : List α} {action : α → Eval Value} (known : List Env → α → Prop)
    (grow : ∀ item scopes scopes', scopes ⊆ scopes' → known scopes item → known scopes' item)
    (each : ∀ item scopes s, Stage guarded scopes s → known scopes item →
      (action item).Keeps guarded scopes s fun scopes' value => value.Within (· ∈ scopes'))
    (stage : Stage guarded scopes s) (ofItems : ∀ item ∈ items, known scopes item) :
    (items.mapM action).Keeps guarded scopes s
      fun scopes' values => ∀ value ∈ values, value.Within (· ∈ scopes') := by
  induction items generalizing scopes s with
  | nil => exact .pure stage (by simp)
  | cons item rest ih =>
    rw [List.mapM_cons]
    refine (each item scopes s stage (ofItems item List.mem_cons_self)).bind stage
      fun value scopes' t grows stage' ofValue => ?_
    have ofRest := fun other mem =>
      grow other scopes scopes' grows (ofItems other (List.mem_cons_of_mem item mem))
    refine (ih stage' ofRest).bind stage' fun values scopes'' u grows' stage'' ofValues => ?_
    exact .pure stage'' (List.forall_mem_cons.mpr ⟨ofValue.grow grows', ofValues⟩)

end Eval

end Guarded

end SmallLisp
