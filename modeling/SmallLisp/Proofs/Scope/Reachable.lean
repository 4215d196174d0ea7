import SmallLisp.Proofs.Scope.FrameLaw

/-!
# Scoping in reachable worlds

A host sets up a world and goes on from there: it has tasks run, opens scopes inside others, binds
names in them, and keeps the scopes it comes by. What it can lay its hands on is a scope it opened
itself, one that the outcome of a run mentions, or one that something in the store mentions. In
every world that comes about in this way a frame belongs to one scope, and a run changes the
bindings of few frames.

## Main definitions

* `Store.Knows`: a scope that a host has, or that something in the store mentions
* `Reachable`: the worlds that a host can bring about, with the scopes it has
* `ChangesOnly`: a run that changes the bindings of some frames at most, and moves no frame
* `KeepsTo`: a world and a host with nothing but mentions of some scopes

## Main results

* `Reachable.within`: a reachable world keeps to the scopes that have been opened in it
* `run_changes_only`: what an evaluation, a call and an expansion may change
-/

namespace SmallLisp

/-- Something in a store mentions a scope. -/
def Store.Mentions (store : Store) (env : Env) : Prop :=
  (∃ frame, ∃ binding ∈ store.bindings frame, binding.2.Mentions env) ∨
    ∃ cell, (store.contents cell).Mentions env

/-- A scope that a host has, or that something in the store mentions. -/
def Store.Knows (store : Store) (held : Env → Prop) (env : Env) : Prop :=
  held env ∨ store.Mentions env

/-- The value that a run returns, or that an error carries, mentions a scope. -/
def Ending.Mentions : Ending Value → Env → Prop
  | .ok value _, env => value.Mentions env
  | .error (.failure (.thrown payload)) _, env => payload.Mentions env
  | .error _ _, _ => False

/-- The worlds that a host can bring about, with the scopes it has then. -/
inductive Reachable : Store → (Env → Prop) → Prop where
  /-- The world is set up. -/
  | start {fuel : Nat} {withPrelude : Bool} {files : String → Option (Except FileFault String)}
      {s : Store} (ready : TopLevel.start fuel withPrelude (Store.initial files) = .ok () s) :
      Reachable s (· = TopLevel.root)
  /-- A task is run to its end, good or bad. -/
  | run {s : Store} {held : Env → Prop} (fuel : Nat) (task : Task) (reachable : Reachable s held)
      (known : task.Within (s.Knows held)) :
      Reachable (Ending.store (run fuel task s))
        fun env => held env ∨ Ending.Mentions (run fuel task s) env
  /-- A scope is opened inside another one. -/
  | openScope {s : Store} {held : Env → Prop} {parent : Env} (reachable : Reachable s held)
      (known : s.Knows held parent) :
      Reachable (s.opened []) fun env => held env ∨ env = parent.nest s.frames.size
  /-- A name is bound in a scope. -/
  | define {s : Store} {held : Env → Prop} {env : Env} {name : String} {value : Value}
      (reachable : Reachable s held) (known : s.Knows held env)
      (ofValue : value.Within (s.Knows held)) : Reachable (s.defined env.frame name value) held
  /-- Something happens that concerns neither frames nor cells. -/
  | elsewhere {s t : Store} {held : Env → Prop} (reachable : Reachable s held)
      (sameFrames : t.frames = s.frames) (sameCells : t.cells = s.cells) : Reachable t held

/-- A run that changes the bindings of some of the frames that there are, at most, and leaves all
frames in the scopes that they belong to. -/
structure ChangesOnly (changed : List FrameId) (held : Env → Prop) (before : Store)
    (ending : Ending Value) : Prop where
  bindings : ∀ frame < before.frames.size, frame ∉ changed →
    (Ending.store ending).bindings frame = before.bindings frame
  scopes : ∀ earlier later, before.Knows held earlier →
    (before.Knows held later ∨ (Ending.store ending).Mentions later ∨
      Ending.Mentions ending later) → later.frame = earlier.frame → later = earlier

/-! ### What is known has been opened -/

theorem Store.Within.mem_of_mentions {scopes : List Env} {store : Store}
    (within : store.Within scopes) {env : Env} (mentions : store.Mentions env) : env ∈ scopes := by
  rcases mentions with ⟨frame, binding, bound, mentions⟩ | ⟨cell, mentions⟩
  · exact within.bindings frame binding bound env mentions
  · exact within.cells cell env mentions

theorem Task.Within.mono {known known' : Env → Prop} {task : Task} (within : task.Within known)
    (grows : ∀ env, known env → known' env) : task.Within known' := by
  cases task with
  | evaluate form env => exact ⟨within.1.mono grows, grows env within.2⟩
  | expand form env => exact ⟨within.1.mono grows, grows env within.2⟩
  | call callee arguments env =>
    exact ⟨within.1.mono grows, fun argument mem => (within.2.1 argument mem).mono grows,
      grows env within.2.2⟩

/-- Where no frame is guarded, any computation may begin. -/
theorem Store.Within.stage {scopes : List Env} {store : Store} (within : store.Within scopes) :
    Stage (fun _ => False) scopes store :=
  ⟨within, fun _ isGuarded => isGuarded.elim, id⟩

theorem Task.avoids_none (task : Task) : task.Avoids fun _ => False := by
  cases task with
  | evaluate form env => exact id
  | expand form env => trivial
  | call callee arguments env => trivial

/-- Where a computation ends that leaves guarded frames alone. -/
theorem Eval.Keeps.exists_evolves {guarded : FrameId → Prop} {scopes : List Env} {s : Store}
    {action : Eval Value} (keeps : action.Keeps guarded scopes s
      fun scopes' value => value.Within (· ∈ scopes')) :
    ∃ scopes', Evolves guarded scopes s scopes' (Ending.store (action s)) ∧
      ∀ env, Ending.Mentions (action s) env → env ∈ scopes' := by
  rw [Eval.Keeps, Eval.Leads] at keeps
  cases ends : action s with
  | ok value t =>
    rw [ends] at keeps
    exact keeps
  | error halt t =>
    rw [ends] at keeps
    obtain ⟨scopes', evolves, ofHalt⟩ := keeps
    refine ⟨scopes', evolves, fun env mentions => ?_⟩
    cases halt with
    | failure error =>
      cases error with
      | thrown payload => exact ofHalt env mentions
      | _ => exact mentions.elim
    | exhausted => exact mentions.elim
    | awaiting path => exact mentions.elim

/-! ### Setting up the world -/

theorem within_opened_nativeBindings (files : String → Option (Except FileFault String)) :
    ((Store.initial files).opened TopLevel.nativeBindings).Within [TopLevel.root] where
  opened := .root
  size_eq := rfl
  bindings := by
    intro frame binding mem
    rw [Store.bindings_opened] at mem
    split at mem
    · obtain ⟨f, _, rfl⟩ := List.mem_map.mp mem
      exact Value.within_native f
    · simp [Store.initial, Store.bindings] at mem
  cells := by
    intro cell
    simp [Store.contents, Store.opened, Store.initial]

section Stage

variable {guarded : FrameId → Prop} {scopes : List Env} {s : Store}

theorem evaluateFirst_keeps (stage : Stage guarded scopes s) (fuel : Nat) (source : String) :
    (TopLevel.evaluateFirst fuel source).Keeps guarded scopes s
      fun scopes' value => value.Within (· ∈ scopes') := by
  have reads : (TopLevel.read source).Keeps guarded scopes s
      fun scopes' form => form.Within (· ∈ scopes') :=
    .ofExcept stage (Form.yields_ofText source)
  exact reads.bind stage fun form scopes' t _ stage' ofForm =>
    run_spares fuel _ scopes' t stage' ⟨ofForm, stage'.within.opened.root_mem⟩ stage'.notRoot

theorem loadPrelude_keeps (stage : Stage guarded scopes s) (fuel : Nat) (sources : List String) :
    (sources.forM fun source => discard (TopLevel.evaluateFirst fuel source)).Keeps guarded scopes s
      fun _ _ => True := by
  induction sources generalizing scopes s with
  | nil => exact .pure stage trivial
  | cons source rest ih =>
    have discarded : (discard (TopLevel.evaluateFirst fuel source)).Keeps guarded scopes s
        fun _ _ => True := by
      change (Function.const Value () <$> TopLevel.evaluateFirst fuel source).Keeps _ _ _ _
      rw [Eval.Keeps, Eval.leads_map]
      exact (evaluateFirst_keeps stage fuel source).mono fun _ _ _ => trivial
    exact discarded.bind stage fun _ scopes' t _ stage' _ => ih stage'

end Stage

theorem within_of_start {fuel : Nat} {withPrelude : Bool}
    {files : String → Option (Except FileFault String)} {s : Store}
    (ready : TopLevel.start fuel withPrelude (Store.initial files) = .ok () s) :
    ∃ scopes, s.Within scopes := by
  have within := within_opened_nativeBindings files
  cases withPrelude with
  | false =>
    cases ready
    exact ⟨_, within⟩
  | true =>
    have keeps := loadPrelude_keeps within.stage fuel Prelude.definitions
    have ended : TopLevel.loadPrelude fuel ((Store.initial files).opened TopLevel.nativeBindings) =
        .ok () s := ready
    obtain ⟨scopes, evolves, _⟩ := (Eval.leads_ok_iff ended).mp keeps
    exact ⟨scopes, evolves.within⟩

/-! ### Reachable worlds -/

/-- A world that holds nothing but mentions of some scopes, and a host that has no others. -/
structure KeepsTo (scopes : List Env) (store : Store) (held : Env → Prop) : Prop where
  within : store.Within scopes
  ofHeld : ∀ env, held env → env ∈ scopes

namespace KeepsTo

variable {scopes : List Env} {s : Store} {held : Env → Prop} (keeps : KeepsTo scopes s held)
include keeps

theorem mem_of_knows {env : Env} (known : s.Knows held env) : env ∈ scopes :=
  known.elim (keeps.ofHeld env) keeps.within.mem_of_mentions

theorem run (fuel : Nat) {task : Task} (known : task.Within (s.Knows held)) :
    ∃ scopes', scopes ⊆ scopes' ∧ KeepsTo scopes' (Ending.store (SmallLisp.run fuel task s))
      fun env => held env ∨ Ending.Mentions (SmallLisp.run fuel task s) env := by
  have ofTask := known.mono fun _ => keeps.mem_of_knows
  have spares := run_spares fuel task scopes s keeps.within.stage ofTask task.avoids_none
  obtain ⟨scopes', evolves, ofEnding⟩ := spares.exists_evolves
  exact ⟨scopes', evolves.grows, evolves.within, fun env reached =>
    reached.elim (fun h => evolves.grows (keeps.ofHeld env h)) (ofEnding env)⟩

theorem openScope {parent : Env} {made : Bindings} (known : s.Knows held parent)
    (ofMade : ∀ binding ∈ made, binding.2.Within (s.Knows held)) :
    KeepsTo (scopes ++ [parent.nest s.frames.size]) (s.opened made)
      fun env => held env ∨ env = parent.nest s.frames.size := by
  have ofMade' : ∀ binding ∈ made, binding.2.Within (· ∈ scopes) :=
    fun binding mem => (ofMade binding mem).mono fun _ => keeps.mem_of_knows
  refine ⟨keeps.within.nested (keeps.mem_of_knows known) ofMade', fun env reached => ?_⟩
  rcases reached with h | rfl
  · exact List.mem_append_left _ (keeps.ofHeld env h)
  · exact List.mem_append_right _ (List.mem_singleton_self _)

theorem define {value : Value} (ofValue : value.Within (s.Knows held)) (frame : FrameId)
    (name : String) : KeepsTo scopes (s.defined frame name value) held :=
  ⟨keeps.within.define (ofValue.mono fun _ => keeps.mem_of_knows) frame name, keeps.ofHeld⟩

theorem elsewhere {t : Store} (sameFrames : t.frames = s.frames) (sameCells : t.cells = s.cells) :
    KeepsTo scopes t held := by
  refine ⟨⟨keeps.within.opened, ?_, ?_, ?_⟩, keeps.ofHeld⟩
  · rw [sameFrames, keeps.within.size_eq]
  · intro frame
    rw [Store.bindings, sameFrames]
    exact keeps.within.bindings frame
  · intro cell
    rw [Store.contents, sameCells]
    exact keeps.within.cells cell

end KeepsTo

/-- The scopes of a world that has just been set up. -/
theorem exists_keepsTo_of_start {fuel : Nat} {withPrelude : Bool}
    {files : String → Option (Except FileFault String)} {s : Store}
    (ready : TopLevel.start fuel withPrelude (Store.initial files) = .ok () s) :
    ∃ scopes, KeepsTo scopes s (· = TopLevel.root) := by
  obtain ⟨scopes, within⟩ := within_of_start ready
  refine ⟨scopes, within, ?_⟩
  rintro env rfl
  exact within.opened.root_mem

/-- A reachable world keeps to the scopes that have been opened in it, and so does its host. -/
theorem Reachable.within {s : Store} {held : Env → Prop} (reachable : Reachable s held) :
    ∃ scopes, s.Within scopes ∧ ∀ env, s.Knows held env → env ∈ scopes := by
  suffices kept : ∃ scopes, KeepsTo scopes s held by
    obtain ⟨scopes, keeps⟩ := kept
    exact ⟨scopes, keeps.within, fun _ => keeps.mem_of_knows⟩
  induction reachable with
  | start ready => exact exists_keepsTo_of_start ready
  | run fuel task _ known ih =>
    obtain ⟨scopes, keeps⟩ := ih
    obtain ⟨scopes', _, keeps'⟩ := keeps.run fuel known
    exact ⟨scopes', keeps'⟩
  | openScope _ known ih =>
    obtain ⟨scopes, keeps⟩ := ih
    exact ⟨_, keeps.openScope known (by simp)⟩
  | define _ _ ofValue ih =>
    obtain ⟨scopes, keeps⟩ := ih
    exact ⟨scopes, keeps.define ofValue _ _⟩
  | elsewhere _ sameFrames sameCells ih =>
    obtain ⟨scopes, keeps⟩ := ih
    exact ⟨scopes, keeps.elsewhere sameFrames sameCells⟩

/-- A computation that leaves alone all frames there are but the outermost one and some others. -/
theorem Eval.Keeps.changesOnly {s : Store} {held : Env → Prop} {scopes : List Env}
    {changed : List FrameId} {action : Eval Value}
    (ofKnown : ∀ env, s.Knows held env → env ∈ scopes)
    (keeps : action.Keeps (fun frame => frame < s.frames.size ∧ frame ∉ changed) scopes s
      fun scopes' value => value.Within (· ∈ scopes')) :
    ChangesOnly changed held s (action s) := by
  obtain ⟨scopes', evolves, ofEnding⟩ := keeps.exists_evolves
  refine ⟨fun frame isFrame unchanged => evolves.kept frame ⟨isFrame, unchanged⟩,
    fun earlier later known reached same => ?_⟩
  have earlierMem := evolves.grows (ofKnown earlier known)
  have laterMem : later ∈ scopes' := by
    rcases reached with known | mentions | mentions
    · exact evolves.grows (ofKnown later known)
    · exact evolves.within.mem_of_mentions mentions
    · exact ofEnding later mentions
  exact evolves.within.opened.eq_of_frame_eq laterMem earlierMem same

/-- In a reachable world, of the frames that there are, an evaluation changes at most the
bindings of its scope's own frame and of the outermost one. A call, an expansion and, where no
expander is bound to the name of the form, the evaluation of a `let*` form change at most those of
the outermost one. No run moves a frame from the scope that it belongs to, so none changes which
frame it lies in. -/
theorem run_changes_only {s : Store} {held : Env → Prop} (reachable : Reachable s held)
    (fuel : Nat) {env : Env} (envKnown : s.Knows held env) :
    (∀ form, form.Within (s.Knows held) →
      ChangesOnly [env.frame, TopLevel.root.frame] held s (run fuel (.evaluate form env) s)) ∧
    (∀ callee arguments, callee.Within (s.Knows held) →
      (∀ argument ∈ arguments, argument.Within (s.Knows held)) →
        ChangesOnly [TopLevel.root.frame] held s (run fuel (.call callee arguments env) s)) ∧
    (∀ form, form.Within (s.Knows held) →
      ChangesOnly [TopLevel.root.frame] held s (run fuel (.expand form env) s)) ∧
    ∀ parts, (∀ part ∈ parts, part.Within (s.Knows held)) →
      (∀ id parameters body scope, s.lookup? env SpecialForm.bindings.keyword ≠
        some (.procedure .expander id parameters body scope)) →
      ChangesOnly [TopLevel.root.frame] held s
        (run fuel (.evaluate (SpecialForm.bindings.form parts) env) s) := by
  obtain ⟨scopes, within, ofKnown⟩ := reachable.within
  have isScope := ofKnown env envKnown
  -- All frames that are not to change are guarded.
  have stage (changed : List FrameId) (root : TopLevel.root.frame ∈ changed) :
      Stage (fun frame => frame < s.frames.size ∧ frame ∉ changed) scopes s :=
    ⟨within, fun frame isGuarded => isGuarded.1, fun isGuarded => isGuarded.2 root⟩
  refine ⟨fun form ofForm => ?_, fun callee arguments ofCallee ofArguments => ?_,
    fun form ofForm => ?_, fun parts ofParts noExpander => ?_⟩
  · refine Eval.Keeps.changesOnly ofKnown ?_
    exact run_spares fuel _ scopes s (stage _ (by simp)) ⟨ofForm.mono ofKnown, isScope⟩
      fun isGuarded => isGuarded.2 List.mem_cons_self
  · refine Eval.Keeps.changesOnly ofKnown ?_
    exact run_spares fuel _ scopes s (stage _ (by simp)) ⟨ofCallee.mono ofKnown,
      fun argument mem => (ofArguments argument mem).mono ofKnown, isScope⟩ trivial
  · refine Eval.Keeps.changesOnly ofKnown ?_
    exact run_spares fuel _ scopes s (stage _ (by simp)) ⟨ofForm.mono ofKnown, isScope⟩ trivial
  · refine Eval.Keeps.changesOnly ofKnown ?_
    have plain : expansion? s env (SpecialForm.bindings.form parts) = none := by
      rw [Option.eq_none_iff_forall_ne_some]
      intro expansion called
      obtain ⟨name, id, same, bound⟩ := expansion?_eq_some_iff.mp called
      cases same
      exact noExpander _ _ _ _ bound
    exact evaluate_bindings_keeps fuel (stage _ (by simp))
      (fun part mem => (ofParts part mem).mono ofKnown) isScope plain

/-- A `let*` form in a scope inside the outermost one, in a world that has just been set up. -/
theorem run_changes_only_fresh :
    let s := ((Store.initial fun _ => none).opened TopLevel.nativeBindings).opened []
    let held := fun env => env = TopLevel.root ∨ env = TopLevel.root.nest 1
    let form := SpecialForm.bindings.form [.list [.symbol "a", .bool true], .symbol "a"]
    Reachable s held ∧ s.Knows held (TopLevel.root.nest 1) ∧
      ChangesOnly [TopLevel.root.frame] held s
        (run 3 (.evaluate form (TopLevel.root.nest 1)) s) := by
  intro s held form
  have ready : TopLevel.start 0 false (Store.initial fun _ => none) =
      .ok () ((Store.initial fun _ => none).opened TopLevel.nativeBindings) := rfl
  have reachable : Reachable s held := .openScope (.start ready) (.inl rfl)
  have known : s.Knows held (TopLevel.root.nest 1) := .inl (.inr rfl)
  refine ⟨reachable, known, (run_changes_only reachable 3 known).2.2.2 _ (by simp) ?_⟩
  -- All that is bound so far are native functions.
  intro id parameters body scope bound
  obtain ⟨frame, _, found⟩ := List.exists_of_findSome?_eq_some bound
  rw [Store.bindings_opened, Store.bindings_opened] at found
  split at found
  · cases found
  · split at found
    · obtain ⟨before, after, split, _⟩ := List.lookup_eq_some_iff.mp found
      have mem : (SpecialForm.bindings.keyword,
          Value.procedure .expander id parameters body scope) ∈ TopLevel.nativeBindings := by
        rw [split]
        simp
      obtain ⟨f, _, same⟩ := List.mem_map.mp mem
      cases (Prod.mk.inj same).2
    · simp [Store.initial, Store.bindings] at found

end SmallLisp
