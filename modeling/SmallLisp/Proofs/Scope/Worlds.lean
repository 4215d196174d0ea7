import SmallLisp.Proofs.Scope.Changes
import SmallLisp.Proofs.Scope.Reachable

/-!
# Worlds in the course of time

A world is a store together with the scopes that somebody has hold of: the host, or an evaluation
that is going on. It passes into another one when the host does something, but also in the middle of
a run, when a task is begun on the way to the value of another one or takes its place. So what holds
of all worlds that a world passes into holds at every moment, and not only between one run and the
next.

A task is begun in the course of another one when to stop there is to stop altogether: whatever
halts the inner one at that moment halts the outer one too, and leaves the store as it is then. The
values that an evaluation has come by until then are had hold of where its parts are run one after
the other.

## Main definitions

* `Begins`: a task is begun, in some store, in the course of performing another one
* `World`, `World.Knows`: a store and the scopes that somebody has hold of
* `World.Passes`, `World.Later`: what a world may pass into
* `World.Arises`: the worlds there are after a world has been set up

## Main results

* `World.Later.exists_keepsTo`: worlds keep to scopes, of which there are only ever more
* `World.Later.isSome_find?`, `World.Later.isSome_lookup?`: names stay bound and visible
* `Reachable.arises`: the worlds that a host can bring about are among them
-/

open Relation (ReflTransGen)

namespace SmallLisp

/-- A scope that a task is to be performed in, or that a value in it mentions. -/
def Task.Mentions : Task → Env → Prop
  | .evaluate form scope, env | .expand form scope, env => form.Mentions env ∨ env = scope
  | .call callee arguments scope, env =>
    callee.Mentions env ∨ (∃ argument ∈ arguments, argument.Mentions env) ∨ env = scope

/-- In the course of performing a task in a store, another one is begun in a store: whatever halts
that one then halts the first one, and leaves the store as it is then. -/
def Begins (self : Task → Eval Value) (task : Task) (s : Store) (inner : Task) (t : Store) : Prop :=
  ∀ (self' : Task → Eval Value) (halt : Halt), self' inner t = .error halt t →
    (∀ other u, ¬ (other = inner ∧ u = t) → self' other u = self other u) →
    perform self' task s = .error halt t

/-- A store, and the scopes that somebody has hold of. -/
structure World where
  store : Store
  held : Env → Prop

namespace World

/-- A scope that somebody has hold of, or that something in the store mentions. -/
abbrev Knows (w : World) : Env → Prop := w.store.Knows w.held

/-- The world with another store, in which somebody has hold of further scopes. -/
def moved (w : World) (store : Store) (further : Env → Prop) : World :=
  ⟨store, fun env => w.held env ∨ further env⟩

/-- What a world may pass into at once. -/
inductive Passes : World → World → Prop where
  /-- A task is run to its end, good or bad, or as far as the fuel goes. -/
  | run {w : World} (fuel : Nat) (task : Task) (known : task.Within w.Knows) :
      Passes w (w.moved (Ending.store (run fuel task w.store))
        (Ending.Mentions (run fuel task w.store)))
  /-- In the course of a task another one is begun. -/
  | begins {w : World} {t : Store} (fuel : Nat) (task inner : Task) (known : task.Within w.Knows)
      (begins : Begins (SmallLisp.run fuel) task w.store inner t) :
      Passes w (w.moved t fun env => task.Mentions env ∨ inner.Mentions env)
  /-- A task has come to another one that takes its place. -/
  | goesOn {w : World} {t : Store} (fuel : Nat) (task next : Task) (known : task.Within w.Knows)
      (performs : perform (SmallLisp.run fuel) task w.store = .ok (.next next) t) :
      Passes w (w.moved t fun env => task.Mentions env ∨ next.Mentions env)
  /-- The host opens a scope inside another one, with some names bound. -/
  | openScope {w : World} (parent : Env) (made : Bindings) (known : w.Knows parent)
      (ofMade : ∀ binding ∈ made, binding.2.Within w.Knows) :
      Passes w (w.moved (w.store.opened made) (· = parent.nest w.store.frames.size))
  /-- The host binds a name in a scope. -/
  | define {w : World} (env : Env) (name : String) (value : Value) (known : w.Knows env)
      (ofValue : value.Within w.Knows) :
      Passes w (w.moved (w.store.defined env.frame name value) fun _ => False)
  /-- Something happens that concerns neither frames nor cells. -/
  | elsewhere {w : World} {t : Store} (sameFrames : t.frames = w.store.frames)
      (sameCells : t.cells = w.store.cells) : Passes w (w.moved t fun _ => False)

/-- What a world may pass into, sooner or later. -/
def Later : World → World → Prop := ReflTransGen Passes

/-- The worlds there are after a world has been set up. -/
def Arises (w : World) : Prop :=
  ∃ (fuel : Nat) (withPrelude : Bool) (files : String → Option (Except FileFault String))
    (s : Store), TopLevel.start fuel withPrelude (Store.initial files) = .ok () s ∧
      Later ⟨s, (· = TopLevel.root)⟩ w

end World

/-! ### Tasks that are begun on the way -/

theorem Task.within_iff {known : Env → Prop} {task : Task} :
    task.Within known ↔ ∀ env, task.Mentions env → known env := by
  cases task with
  | evaluate form scope | expand form scope =>
    constructor
    · rintro ⟨ofForm, isKnown⟩ env (mentions | rfl)
      · exact ofForm env mentions
      · exact isKnown
    · exact fun all => ⟨fun env mentions => all env (.inl mentions), all scope (.inr rfl)⟩
  | call callee arguments scope =>
    constructor
    · rintro ⟨ofCallee, ofArguments, isKnown⟩ env (mentions | ⟨argument, mem, mentions⟩ | rfl)
      · exact ofCallee env mentions
      · exact ofArguments argument mem env mentions
      · exact isKnown
    · exact fun all => ⟨fun env mentions => all env (.inl mentions),
        fun argument mem env mentions => all env (.inr (.inl ⟨argument, mem, mentions⟩)),
        all scope (.inr (.inr rfl))⟩

/-- A value that mentions what a task mentions. -/
def Task.asValue : Task → Value
  | .evaluate form scope | .expand form scope => .procedure .function 0 [] form scope
  | .call callee arguments scope => .procedure .function 0 arguments callee scope

theorem Task.within_asValue {known : Env → Prop} {task : Task} :
    task.asValue.Within known ↔ task.Within known := by
  cases task <;> simp [asValue, Within, and_left_comm]

section Begun

variable {self : Task → Eval Value} {task inner : Task} {s t : Store}

open Classical in
/-- A way to perform tasks that halts one task in one store, and is like another one otherwise. -/
noncomputable def haltingAt (self : Task → Eval Value) (inner : Task) (t : Store) (halt : Halt) :
    Task → Eval Value :=
  fun other u => if other = inner ∧ u = t then .error halt u else self other u

theorem haltingAt_self (halt : Halt) : haltingAt self inner t halt inner t = .error halt t :=
  if_pos ⟨rfl, rfl⟩

theorem haltingAt_of_ne {other : Task} {u : Store} (halt : Halt) (ne : ¬ (other = inner ∧ u = t)) :
    haltingAt self inner t halt other u = self other u :=
  if_neg ne

theorem Begins.perform_haltingAt (begins : Begins self task s inner t) (halt : Halt) :
    perform (haltingAt self inner t halt) task s = .error halt t :=
  begins _ halt (haltingAt_self halt) fun _ _ => haltingAt_of_ne halt

/-- By the time a task is begun the store has made small changes only. -/
theorem Begins.becomes (advances : ∀ task, (self task).Advances)
    (begins : Begins self task s inner t) : s.Becomes t := by
  have halted : ∀ task, (haltingAt self inner t .exhausted task).Advances := by
    intro other u
    by_cases same : other = inner ∧ u = t
    · obtain ⟨rfl, rfl⟩ := same
      rw [haltingAt_self]
      exact .refl _
    · rw [haltingAt_of_ne _ same]
      exact advances other u
  have ends := perform_advances halted task s
  rwa [begins.perform_haltingAt] at ends

/-- A task that is begun mentions only scopes that have been opened by then. -/
theorem Begins.exists_within {scopes : List Env} (spares : Spares (fun _ => False) self)
    (within : s.Within scopes) (known : task.Within (· ∈ scopes))
    (begins : Begins self task s inner t) :
    ∃ scopes', scopes ⊆ scopes' ∧ t.Within scopes' ∧ inner.Within (· ∈ scopes') := by
  -- The inner task is halted with an error that mentions what it mentions itself.
  let halt : Halt := .failure (.thrown inner.asValue)
  have halted : Spares (fun _ => False) (haltingAt self inner t halt) := by
    intro other scopes' u stage ofOther avoids
    by_cases same : other = inner ∧ u = t
    · obtain ⟨rfl, rfl⟩ := same
      exact (Eval.leads_error_iff (haltingAt_self halt)).mpr
        ⟨scopes', .refl stage.within, Task.within_asValue.mpr ofOther⟩
    · have keeps := spares other scopes' u stage ofOther avoids
      rw [Eval.Keeps, Eval.Leads] at keeps ⊢
      rwa [haltingAt_of_ne halt same]
  have keeps := halted.perform task within.stage known task.avoids_none
  obtain ⟨scopes', evolves, ofHalt⟩ :=
    (Eval.leads_error_iff (begins.perform_haltingAt halt)).mp keeps
  exact ⟨scopes', evolves.grows, evolves.within, Task.within_asValue.mp ofHalt⟩

end Begun

/-! ### What worlds keep to -/

namespace World

variable {w w' : World}

/-- A world into which one passes that keeps to some scopes keeps to these and others. -/
theorem Passes.exists_keepsTo (passes : w.Passes w') {scopes : List Env}
    (keeps : KeepsTo scopes w.store w.held) :
    ∃ scopes', scopes ⊆ scopes' ∧ KeepsTo scopes' w'.store w'.held := by
  -- A scope that is mentioned on the way is one of those that have been opened by then.
  have onTheWay {scopes' : List Env} {t : Store} {task inner : Task}
      (known : task.Within w.Knows) (grows : scopes ⊆ scopes') (within : t.Within scopes')
      (ofInner : inner.Within (· ∈ scopes')) :
      ∃ scopes', scopes ⊆ scopes' ∧ KeepsTo scopes' t
        fun env => w.held env ∨ task.Mentions env ∨ inner.Mentions env := by
    refine ⟨scopes', grows, within, ?_⟩
    rintro env (h | h | h)
    · exact grows (keeps.ofHeld env h)
    · exact grows (keeps.mem_of_knows (Task.within_iff.mp known env h))
    · exact Task.within_iff.mp ofInner env h
  cases passes with
  | run fuel task known => exact keeps.run fuel known
  | begins fuel task inner known begins =>
    have ofTask := known.mono fun _ => keeps.mem_of_knows
    obtain ⟨scopes', grows, within, ofInner⟩ :=
      begins.exists_within (run_spares fuel) keeps.within ofTask
    exact onTheWay known grows within ofInner
  | goesOn fuel task next known performs =>
    have ofTask := known.mono fun _ => keeps.mem_of_knows
    have performed := (run_spares fuel).perform task keeps.within.stage ofTask task.avoids_none
    obtain ⟨scopes', evolves, ofNext, _⟩ := (Eval.leads_ok_iff performs).mp performed
    exact onTheWay known evolves.grows evolves.within ofNext
  | openScope parent made known ofMade =>
    exact ⟨_, List.subset_append_left _ _, keeps.openScope known ofMade⟩
  | define env name value _ ofValue =>
    have defined := keeps.define ofValue env.frame name
    exact ⟨scopes, List.Subset.refl _, defined.within, by simpa [moved] using defined.ofHeld⟩
  | elsewhere sameFrames sameCells =>
    have same := keeps.elsewhere sameFrames sameCells
    exact ⟨scopes, List.Subset.refl _, same.within, by simpa [moved] using same.ofHeld⟩

/-- Worlds keep to scopes, of which there are only ever more. -/
theorem Later.exists_keepsTo (later : w.Later w') {scopes : List Env}
    (keeps : KeepsTo scopes w.store w.held) :
    ∃ scopes', scopes ⊆ scopes' ∧ KeepsTo scopes' w'.store w'.held := by
  induction later with
  | refl => exact ⟨scopes, List.Subset.refl _, keeps⟩
  | tail _ passes ih =>
    obtain ⟨scopes', grows, keeps'⟩ := ih
    obtain ⟨scopes'', grows', keeps''⟩ := passes.exists_keepsTo keeps'
    exact ⟨scopes'', List.Subset.trans grows grows', keeps''⟩

theorem Arises.exists_keepsTo (arises : w.Arises) : ∃ scopes, KeepsTo scopes w.store w.held := by
  obtain ⟨fuel, withPrelude, files, s, ready, later⟩ := arises
  obtain ⟨scopes, keeps⟩ := exists_keepsTo_of_start ready
  obtain ⟨scopes', _, keeps'⟩ := later.exists_keepsTo keeps
  exact ⟨scopes', keeps'⟩

/-! ### What stays bound -/

theorem Passes.isSome_find? (passes : w.Passes w') {frame : FrameId} {name : String}
    (bound : ((w.store.bindings frame).find? name).isSome) :
    ((w'.store.bindings frame).find? name).isSome := by
  cases passes with
  | run fuel task _ => exact (run_advances fuel task w.store).isSome_find? bound
  | begins fuel task inner _ begins => exact (begins.becomes (run_advances fuel)).isSome_find? bound
  | goesOn fuel task next _ performs =>
    have becomes := perform_advances (run_advances fuel) task w.store
    rw [performs] at becomes
    exact becomes.isSome_find? bound
  | openScope parent made _ _ => exact (Store.Change.opened made).isSome_find? bound
  | define env other value _ _ =>
    exact (Store.Change.defined env.frame other value).isSome_find? bound
  | elsewhere sameFrames _ =>
    have same (frame : FrameId) : (moved w _ fun _ => False).store.bindings frame =
        w.store.bindings frame := congrArg (fun frames => frames[frame]?.getD []) sameFrames
    rwa [same]

/-- Names that are bound in a frame stay bound in it. -/
theorem Later.isSome_find? (later : w.Later w') {frame : FrameId} {name : String}
    (bound : ((w.store.bindings frame).find? name).isSome) :
    ((w'.store.bindings frame).find? name).isSome := by
  induction later with
  | refl => exact bound
  | tail _ passes ih => exact passes.isSome_find? ih

/-- Names that are visible from a scope stay visible from it. -/
theorem Later.isSome_lookup? (later : w.Later w') {env : Env} {name : String}
    (visible : (w.store.lookup? env name).isSome) : (w'.store.lookup? env name).isSome := by
  obtain ⟨frame, sees, bound⟩ := Store.isSome_lookup?_iff.mp visible
  exact Store.isSome_lookup?_iff.mpr ⟨frame, sees, later.isSome_find? bound⟩

end World

/-! ### Worlds between runs -/

/-- The worlds that a host can bring about are among those that arise. -/
theorem Reachable.arises {s : Store} {held : Env → Prop} (reachable : Reachable s held) :
    (World.mk s held).Arises := by
  have continues {w w' : World} (arises : w.Arises) (passes : w.Passes w') : w'.Arises := by
    obtain ⟨fuel, withPrelude, files, s, ready, later⟩ := arises
    exact ⟨fuel, withPrelude, files, s, ready, later.tail passes⟩
  have unmoved (held : Env → Prop) : (fun env => held env ∨ False) = held := by
    funext env
    exact or_false (held env)
  induction reachable with
  | start ready => exact ⟨_, _, _, _, ready, .refl⟩
  | run fuel task _ known ih => exact continues ih (.run fuel task known)
  | openScope _ known ih => exact continues ih (.openScope _ [] known (by simp))
  | @define s held env name value _ known ofValue ih =>
    have passed := continues ih (.define env name value known ofValue)
    rwa [World.moved, unmoved] at passed
  | @elsewhere s t held _ sameFrames sameCells ih =>
    have passed := continues ih (.elsewhere sameFrames sameCells)
    rwa [World.moved, unmoved] at passed

end SmallLisp
