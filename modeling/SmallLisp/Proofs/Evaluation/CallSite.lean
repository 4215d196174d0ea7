import SmallLisp.Evaluation

/-!
# Calls do not see where they are made

A call is given the scope it is made from, and hands it on to the functions that it calls in
turn. A procedure's body is evaluated in a scope inside the one that the procedure was made in,
and the only native function that evaluates a form does so in the outermost scope. So of the
scope a call is made from nothing counts but the outermost scope around it, at any depth of
calls within calls.

## Main definitions

* `Alike`: a way to perform tasks that treats the calls from two scopes alike

## Main results

* `Alike.performCall_eq`: one call, performed so, comes to the same from both scopes
* `call_eq_of_root_eq`: calls from scopes with the same outermost scope end alike
-/

namespace SmallLisp

/-- Two scopes are alike to a way to perform tasks when calls made from them come to the same. -/
def Alike (self : Task → Eval Value) (here there : Env) : Prop :=
  ∀ callee arguments, self (.call callee arguments here) = self (.call callee arguments there)

namespace Alike

variable {self : Task → Eval Value} {here there : Env} (alike : Alike self here there)
include alike

theorem callEach_eq (callee : Value) (values : List Value) :
    callEach self callee here values = callEach self callee there values := by
  have each : (fun value => self (.call callee [value] here)) =
      fun value => self (.call callee [value] there) := by
    funext value
    exact alike callee [value]
  rw [callEach, callEach, each]

theorem swapAtom_eq (atom callee : Value) (more : List Value) :
    swapAtom self atom callee more here = swapAtom self atom callee more there := by
  unfold swapAtom
  simp only [alike callee]

theorem applyTo_eq (callee first : Value) (more : List Value) :
    applyTo self callee first more here = applyTo self callee first more there := by
  unfold applyTo
  simp only [alike callee]

/-- The one control function that evaluates a form does so in the outermost scope. -/
theorem runControl_eq (sameRoot : here.root = there.root) (control : Control)
    (arguments : List Value) :
    runControl self here control arguments = runControl self there control arguments := by
  unfold runControl
  split
  · exact alike.swapAtom_eq _ _ _
  · exact alike.applyTo_eq _ _ _
  · simp only [alike.callEach_eq]
  · rw [sameRoot]
  · rfl

theorem runNative_eq (sameRoot : here.root = there.root) (f : Native) (arguments : List Value) :
    runNative self here f arguments = runNative self there f arguments := by
  cases f with
  | operation operation => rfl
  | effect effect => rfl
  | control control => simp only [runNative, alike.runControl_eq sameRoot]

theorem performCall_eq (sameRoot : here.root = there.root) (callee : Value)
    (arguments : List Value) :
    performCall self here callee arguments = performCall self there callee arguments := by
  unfold performCall
  split
  · rw [alike.runNative_eq sameRoot]
  · rfl
  · rfl

end Alike

/-- To runs, scopes inside the same outermost scope are alike. -/
theorem alike_run {here there : Env} (sameRoot : here.root = there.root) (fuel : Nat) :
    Alike (run fuel) here there := by
  induction fuel with
  | zero => exact fun _ _ => rfl
  | succ fuel ih =>
    intro callee arguments
    rw [run_succ, run_succ, perform, perform, ih.performCall_eq sameRoot]
    -- What a call leaves to be done is a procedure's body, in a scope of the procedure's own, so
    -- the runs that follow are the same runs.

/-- Calls of any value from two scopes with the same outermost scope end alike: with the same
value or stopped for the same reason, and with the same bindings, contents of cells and output
left behind. So do the runs of any native function that is given the one scope or the other. -/
theorem call_eq_of_root_eq {here there : Env} (sameRoot : here.root = there.root) (fuel : Nat)
    (arguments : List Value) (store : Store) :
    (∀ callee, run fuel (.call callee arguments here) store =
      run fuel (.call callee arguments there) store) ∧
    ∀ f, runNative (run fuel) here f arguments store =
      runNative (run fuel) there f arguments store := by
  have alike := alike_run sameRoot fuel
  constructor
  · intro callee
    rw [alike callee arguments]
  · intro f
    rw [alike.runNative_eq sameRoot f arguments]

/-- A call of `eval` from a scope inside the outermost one and from the outermost one itself. -/
theorem call_eq_of_root_eq_inner :
    (⟨1, [0]⟩ : Env).root = (⟨0, []⟩ : Env).root ∧
      ∀ store, run 3 (.call (.native (.control .eval)) [.symbol "x"] ⟨1, [0]⟩) store =
        run 3 (.call (.native (.control .eval)) [.symbol "x"] ⟨0, []⟩) store :=
  ⟨rfl, fun store => (call_eq_of_root_eq rfl 3 [.symbol "x"] store).1 (.native (.control .eval))⟩

end SmallLisp
