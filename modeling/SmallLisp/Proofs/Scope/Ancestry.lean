import SmallLisp.Proofs.Evaluation.Adequacy
import SmallLisp.Proofs.Scope.Worlds

/-!
# The scopes around a scope

At every moment the scopes of a world form a tree. Each lies directly inside one other scope, its
parent, which is the same for good, and going from parent to parent one comes to the outermost
scope. Names are looked up on that way: the innermost scope that binds a name owns it. Since frames
lose no names, a name that is visible from a scope is visible from it ever after.

## Main definitions

* `Env.parent?`, `Env.LiesIn`: the scope directly around a scope
* `World.Reaches`: a scope that somebody has hold of or that the store mentions, or one around it
* `Env.IsAnchored`: a scope inside the outermost one
* `Store.Resolves`: how a name is resolved in a scope

## Main results

* `Store.resolves`: a name is resolved where its owner binds it
* `scopes_anchored`: the scopes of a world form a tree, at every moment and for good
-/

open Relation (ReflTransGen)

namespace SmallLisp

namespace Env

/-- The scope directly around a scope. -/
def parent? (env : Env) : Option Env :=
  match env.outer with
  | [] => none
  | next :: outer => some ⟨next, outer⟩

/-- A scope lies directly inside another one. -/
def LiesIn (inner outer : Env) : Prop := inner.parent? = some outer

@[simp] theorem parent?_nest (env : Env) (frame : FrameId) : (env.nest frame).parent? = some env :=
  rfl

theorem LiesIn.eq_nest {inner outer : Env} (lies : inner.LiesIn outer) :
    inner = outer.nest inner.frame := by
  obtain ⟨frame, _ | ⟨next, rest⟩⟩ := inner
  · cases lies
  · cases lies
    rfl

theorem LiesIn.depth_eq {inner outer : Env} (lies : inner.LiesIn outer) :
    inner.depth = outer.depth + 1 := by
  rw [lies.eq_nest, depth_nest]

end Env

/-! ### The scopes that have been opened -/

namespace Scopes

variable {scopes : List Env} (opened : Scopes scopes)
include opened

/-- The scope around an opened one has been opened, too. -/
theorem mem_of_liesIn {inner outer : Env} (mem : inner ∈ scopes) (lies : inner.LiesIn outer) :
    outer ∈ scopes := by
  induction opened generalizing inner with
  | root =>
    obtain rfl := List.mem_singleton.mp mem
    cases lies
  | nest _ inside ih =>
    rcases List.mem_append.mp mem with earlier | last
    · exact List.mem_append_left _ (ih earlier lies)
    · obtain rfl := List.mem_singleton.mp last
      cases lies
      exact List.mem_append_left _ inside

theorem mem_of_reaches {inner outer : Env} (mem : inner ∈ scopes)
    (reaches : ReflTransGen Env.LiesIn inner outer) : outer ∈ scopes := by
  induction reaches with
  | refl => exact mem
  | tail _ lies ih => exact opened.mem_of_liesIn ih lies

/-- From parent to parent one comes to the outermost scope. -/
theorem reaches_root {env : Env} (mem : env ∈ scopes) :
    ReflTransGen Env.LiesIn env TopLevel.root := by
  induction opened generalizing env with
  | root =>
    obtain rfl := List.mem_singleton.mp mem
    exact .refl
  | nest _ inside ih =>
    rcases List.mem_append.mp mem with earlier | last
    · exact ih earlier
    · obtain rfl := List.mem_singleton.mp last
      exact .head (Env.parent?_nest _ _) (ih inside)

/-- A scope sees no frame twice: those further out have opened earlier. -/
theorem nodup_frames {env : Env} (mem : env ∈ scopes) : env.frames.Nodup := by
  induction opened generalizing env with
  | root =>
    obtain rfl := List.mem_singleton.mp mem
    exact List.pairwise_singleton _ _
  | nest opened inside ih =>
    rcases List.mem_append.mp mem with earlier | last
    · exact ih earlier
    · obtain rfl := List.mem_singleton.mp last
      refine List.nodup_cons.mpr ⟨fun sees => ?_, ih inside⟩
      exact Nat.lt_irrefl _ (opened.lt_length inside sees)

theorem eq_root_of_parent? {env : Env} (mem : env ∈ scopes) (parentless : env.parent? = none) :
    env = TopLevel.root := by
  rcases (opened.reaches_root mem).cases_head with same | ⟨outer, lies, _⟩
  · exact same
  · rw [Env.LiesIn, parentless] at lies
    cases lies

end Scopes

/-! ### Names -/

/-- How a name is resolved in a scope: it has a value exactly when it has an owner, and the owner is
the innermost of the scopes around that binds the name, to that value. -/
structure Store.Resolves (store : Store) (env : Env) (name : String) : Prop where
  isSome_owner? : (store.owner? env name).isSome = (store.lookup? env name).isSome
  of_owner? : ∀ owner, store.owner? env name = some owner →
    ∃ nearer, env.frames = nearer ++ owner.frames ∧
      (∀ frame ∈ nearer, (store.bindings frame).find? name = none) ∧
      (store.bindings owner.frame).find? name = store.lookup? env name

namespace Store

variable {store : Store} {name : String}

theorem exists_nearer_of_ownerWithin {frame : FrameId} {outer : List FrameId} {owner : Env}
    (owns : store.ownerWithin name frame outer = some owner) :
    ∃ nearer, frame :: outer = nearer ++ owner.frames ∧
      (∀ other ∈ nearer, (store.bindings other).find? name = none) ∧
      ((store.bindings owner.frame).find? name).isSome := by
  induction outer generalizing frame with
  | nil =>
    rw [ownerWithin] at owns
    split at owns
    · rename_i bound
      cases owns
      exact ⟨[], rfl, by simp, bound⟩
    · cases owns
  | cons next outer ih =>
    rw [ownerWithin] at owns
    split at owns
    · rename_i bound
      cases owns
      exact ⟨[], rfl, by simp, bound⟩
    · rename_i free
      obtain ⟨nearer, split, unbound, bound⟩ := ih owns
      refine ⟨frame :: nearer, by rw [split, List.cons_append], ?_, bound⟩
      exact List.forall_mem_cons.mpr ⟨by simpa using free, unbound⟩

/-- A name is resolved where its owner binds it. -/
theorem resolves (store : Store) (env : Env) (name : String) : store.Resolves env name where
  isSome_owner? := store.isSome_owner? env name
  of_owner? owner owns := by
    obtain ⟨nearer, split, unbound, bound⟩ := exists_nearer_of_ownerWithin owns
    refine ⟨nearer, split, unbound, ?_⟩
    obtain ⟨value, isValue⟩ := Option.isSome_iff_exists.mp bound
    -- The frames nearer than the owner's have nothing to say, and the owner's is the next.
    have noNearer : (nearer.findSome? fun frame => (store.bindings frame).find? name) = none :=
      List.findSome?_eq_none_iff.mpr unbound
    have seen : env.frames = nearer ++ owner.frames := split
    rw [lookup?, seen, List.findSome?_append, noNearer, Option.none_or, Env.frames,
      List.findSome?_cons, isValue]

end Store

/-! ### The tree of scopes -/

/-- A scope that somebody has hold of or that something in the store mentions, or one around such a
scope. -/
def World.Reaches (w : World) (env : Env) : Prop :=
  ∃ inner, w.Knows inner ∧ ReflTransGen Env.LiesIn inner env

/-- A scope inside the outermost one. -/
structure Env.IsAnchored (store : Store) (env : Env) : Prop where
  reachesRoot : ReflTransGen Env.LiesIn env TopLevel.root
  nodup : env.frames.Nodup
  isFrame : ∀ frame ∈ env.frames, frame < store.frames.size
  eq_root : env.parent? = none → env = TopLevel.root
  depth_eq : ∀ parent, env.parent? = some parent → env.depth = parent.depth + 1
  root_eq : env.root = TopLevel.root
  /-- What `eval` is given it evaluates in the outermost scope. -/
  evalsAtRoot : ∀ self form,
    runNative self env (.control .eval) [form] = self (.evaluate form TopLevel.root)

theorem KeepsTo.mem_of_reaches {scopes : List Env} {w : World}
    (keeps : KeepsTo scopes w.store w.held) {env : Env} (reached : w.Reaches env) :
    env ∈ scopes := by
  obtain ⟨inner, known, reaches⟩ := reached
  exact keeps.within.opened.mem_of_reaches (keeps.mem_of_knows known) reaches

theorem KeepsTo.isAnchored {scopes : List Env} {store : Store} {held : Env → Prop}
    (keeps : KeepsTo scopes store held) {env : Env} (mem : env ∈ scopes) :
    env.IsAnchored store where
  reachesRoot := keeps.within.opened.reaches_root mem
  nodup := keeps.within.opened.nodup_frames mem
  isFrame frame sees := by
    rw [keeps.within.size_eq]
    exact keeps.within.opened.lt_length mem sees
  eq_root := keeps.within.opened.eq_root_of_parent? mem
  depth_eq _ lies := Env.LiesIn.depth_eq lies
  root_eq := keeps.within.opened.root_eq mem
  evalsAtRoot self form := by
    rw [← keeps.within.opened.root_eq mem]
    rfl

/-- **The scopes of a world form a tree.** At every moment, in the middle of a run and between runs
alike, each scope that is reached lies inside the outermost one, at the depth that its parents give
it, and a name is resolved in it where the innermost scope that binds the name has it bound. In all
later worlds its frame belongs to no other scope, so that its parents are the same; no frame has
lost a name; and a name that was visible from the scope still is. -/
theorem scopes_anchored {w w' : World} (arises : w.Arises) (later : w.Later w') {env : Env}
    (reached : w.Reaches env) :
    env.IsAnchored w.store ∧
      (∀ other, w'.Reaches other → other.frame = env.frame → other = env) ∧
      ∀ name, w.store.Resolves env name ∧
        ((w.store.lookup? env name).isSome → (w'.store.lookup? env name).isSome) ∧
        ∀ frame, ((w.store.bindings frame).find? name).isSome →
          ((w'.store.bindings frame).find? name).isSome := by
  obtain ⟨scopes, keeps⟩ := arises.exists_keepsTo
  obtain ⟨scopes', grows, keeps'⟩ := later.exists_keepsTo keeps
  have mem := keeps.mem_of_reaches reached
  refine ⟨keeps.isAnchored mem, fun other reached' same => ?_, fun name =>
    ⟨w.store.resolves env name, later.isSome_lookup?, fun frame => later.isSome_find?⟩⟩
  have mem' := keeps'.mem_of_reaches reached'
  exact keeps'.within.opened.eq_of_frame_eq mem' (grows mem) same

/-- The scope of a `let*` form while the second of its forms is evaluated, when nobody else has hold
of the scope, and after that. -/
theorem scopes_anchored_binding :
    let s := (Store.initial fun _ => none).opened TopLevel.nativeBindings
    let bindings := Value.list [.symbol "a", .bool true, .symbol "b", .symbol "a"]
    let task := Task.evaluate (SpecialForm.bindings.form [bindings, .symbol "b"]) TopLevel.root
    let scope := TopLevel.root.nest 1
    let inner := Task.evaluate (.symbol "a") scope
    let t := (s.opened []).defined scope.frame "a" (.bool true)
    let w := (World.mk s (· = TopLevel.root)).moved t fun env =>
      task.Mentions env ∨ inner.Mentions env
    let w' := w.moved (Ending.store (run 1 inner t)) (Ending.Mentions (run 1 inner t))
    w.Arises ∧ w.Later w' ∧ w.Reaches scope ∧ (w.store.lookup? scope "a").isSome ∧
      scope.IsAnchored w.store ∧ (w'.store.lookup? scope "a").isSome := by
  intro s bindings task scope inner t w w'
  have ready : TopLevel.start 0 false (Store.initial fun _ => none) = .ok () s := rfl
  have plain : expansion? s TopLevel.root (SpecialForm.bindings.form [bindings, .symbol "b"]) =
      none := by rfl
  have begins : Begins (run 1) task s inner t := by
    intro self' halt halted same
    have first : self' (.evaluate (.bool true) scope) (s.opened []) =
        .ok (.bool true) (s.opened []) := by
      rw [same _ _ (by simp [inner])]
      rfl
    rw [perform_special plain, performSpecial, evaluateBindings_eq rfl rfl]
    refine Eval.bind_of_error ((Eval.bind_of_ok rfl).trans (Eval.bind_of_error ?_))
    exact (Eval.bind_of_ok first).trans ((Eval.bind_of_ok rfl).trans (Eval.bind_of_error halted))
  have ofTask : task.Within (World.mk s (· = TopLevel.root)).Knows :=
    ⟨by simp [bindings, SpecialForm.form], .inl rfl⟩
  have arises : w.Arises := ⟨0, false, _, s, ready, .single (.begins 1 task inner ofTask begins)⟩
  have held : w.Knows scope := .inl (.inr (.inr (.inr rfl)))
  have later : w.Later w' := .single (.run 1 inner ⟨by simp, held⟩)
  have reached : w.Reaches scope := ⟨scope, held, .refl⟩
  have visible : (w.store.lookup? scope "a").isSome := by rfl
  obtain ⟨anchored, _, names⟩ := scopes_anchored arises later reached
  exact ⟨arises, later, reached, visible, anchored, (names "a").2.1 visible⟩

end SmallLisp
