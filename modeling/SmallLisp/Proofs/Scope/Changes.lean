import Mathlib.Logic.Relation
import SmallLisp.Proofs.Evaluation.Steps
import SmallLisp.Proofs.Scope.Frames

/-!
# What a run does to the store

A run changes the store by small changes only: it opens a frame, binds a name in a frame, makes a
cell or replaces what is in one, makes a procedure, or prints. Whatever each of these changes keeps
is therefore kept by all runs, finished or cut short. None of them takes a name out of a frame.

## Main definitions

* `Store.Change`: one small change
* `Store.Becomes`: what a store becomes by small changes
* `Eval.Advances`: a computation that makes small changes only

## Main results

* `perform_advances`, `run_advances`: tasks and runs make small changes only
* `Store.Becomes.isSome_find?`: a name that is bound in a frame stays bound in it
* `Store.Holds.after`: a task takes away no frame
* `Store.isSome_lookup?_iff`: a name is visible from a scope when a frame it sees binds the name
-/

open Relation (ReflTransGen)

namespace SmallLisp

namespace Store

/-- One small change of a store. -/
inductive Change : Store → Store → Prop where
  | opened {s : Store} (made : Bindings) : Change s (s.opened made)
  | defined {s : Store} (frame : FrameId) (name : String) (value : Value) :
      Change s (s.defined frame name value)
  | made {s : Store} (value : Value) : Change s { s with cells := s.cells.push value }
  | written {s : Store} (cell : CellId) (value : Value) : Change s (s.written cell value)
  | numbered {s : Store} : Change s s.numbered
  | printed {s : Store} (text : String) : Change s { s with output := s.output ++ text }

/-- What a store becomes by small changes. -/
def Becomes : Store → Store → Prop := ReflTransGen Change

theorem Becomes.refl (s : Store) : s.Becomes s := ReflTransGen.refl

theorem Becomes.trans {s t u : Store} (first : s.Becomes t) (second : t.Becomes u) : s.Becomes u :=
  ReflTransGen.trans first second

theorem Change.becomes {s t : Store} (change : Change s t) : s.Becomes t :=
  ReflTransGen.single change

/-! ### What small changes keep -/

theorem Change.isSome_find? {s t : Store} (change : Change s t) {frame : FrameId} {name : String}
    (bound : ((s.bindings frame).find? name).isSome) :
    ((t.bindings frame).find? name).isSome := by
  cases change with
  | opened made =>
    rw [bindings_opened]
    split
    · -- The new frame lies behind all others, where nothing was bound.
      rename_i isNew
      rw [isNew, bindings_of_size_le (Nat.le_refl _)] at bound
      cases bound
    · exact bound
  | defined changed other value =>
    rw [bindings_defined]
    split
    · rw [Bindings.find?_insert]
      split
      · rfl
      · exact bound
    · exact bound
  | made | written | numbered | printed => exact bound

/-- A name that is bound in a frame stays bound in it. -/
theorem Becomes.isSome_find? {s t : Store} (becomes : s.Becomes t) {frame : FrameId}
    {name : String} (bound : ((s.bindings frame).find? name).isSome) :
    ((t.bindings frame).find? name).isSome := by
  induction becomes with
  | refl => exact bound
  | tail _ change ih => exact change.isSome_find? ih

theorem size_le_of_becomes {s t : Store} (becomes : s.Becomes t) :
    s.frames.size ≤ t.frames.size := by
  induction becomes with
  | refl => exact Nat.le_refl _
  | tail _ change ih =>
    refine Nat.le_trans ih ?_
    cases change with
    | opened made => simp [Store.opened]
    | defined frame name value => simp [Store.defined]
    | made | written | numbered | printed => exact Nat.le_refl _

theorem isSome_lookup?_iff {s : Store} {env : Env} {name : String} :
    (s.lookup? env name).isSome ↔
      ∃ frame ∈ env.frames, ((s.bindings frame).find? name).isSome := by
  rw [lookup?, List.findSome?_isSome_iff]

end Store

namespace Eval

variable {α β : Type}

/-- A computation that makes small changes only, in whatever store it begins and however it
ends. -/
def Advances (action : Eval α) : Prop := ∀ s : Store, s.Becomes (Ending.store (action s))

namespace Advances

theorem pure (value : α) : (pure value : Eval α).Advances := Store.Becomes.refl

theorem fail (error : Error) : (fail error : Eval α).Advances := Store.Becomes.refl

theorem stop (halt : Halt) : (throw halt : Eval α).Advances := Store.Becomes.refl

theorem get : (get : Eval Store).Advances := Store.Becomes.refl

theorem ofExcept (result : Except Error α) : (ofExcept result).Advances := by
  cases result with
  | ok value => exact .pure value
  | error error => exact .fail error

/-- The second of two computations begins where the first one ends. -/
theorem bind {first : Eval α} {second : α → Eval β} (ofFirst : first.Advances)
    (ofSecond : ∀ value, (second value).Advances) : (first >>= second).Advances := by
  intro s
  have begun := ofFirst s
  cases ends : first s with
  | ok value t =>
    rw [ends] at begun
    rw [bind_of_ok ends]
    exact begun.trans (ofSecond value t)
  | error halt t =>
    rw [ends] at begun
    rw [bind_of_error ends]
    exact begun

theorem mapM {action : α → Eval β} (each : ∀ item, (action item).Advances) (items : List α) :
    (items.mapM action).Advances := by
  induction items with
  | nil => exact .pure []
  | cons item rest ih =>
    rw [List.mapM_cons]
    exact (each item).bind fun value => ih.bind fun values => .pure (value :: values)

theorem openScope (env : Env) (made : Bindings) : (openScope env made).Advances :=
  fun _ => (Store.Change.opened made).becomes

theorem define (env : Env) (name : String) (value : Value) : (define env name value).Advances :=
  fun _ => (Store.Change.defined env.frame name value).becomes

theorem newCell (value : Value) : (newCell value).Advances :=
  fun _ => (Store.Change.made value).becomes

theorem writeCell (cell : CellId) (value : Value) : (writeCell cell value).Advances :=
  fun _ => (Store.Change.written cell value).becomes

theorem newFunction (parameters : List Value) (body : Value) (env : Env) :
    (newFunction parameters body env).Advances :=
  fun _ => Store.Change.numbered.becomes

theorem print (text : String) : (print text).Advances :=
  fun _ => (Store.Change.printed text).becomes

theorem readCell (cell : CellId) : (readCell cell).Advances := Store.Becomes.refl

theorem render (style : Style) (value : Value) : (render style value).Advances :=
  Store.Becomes.refl

theorem lookup (env : Env) (name : String) : (lookup env name).Advances := by
  refine Advances.get.bind fun s => ?_
  split
  · exact .pure _
  · exact .fail _

theorem readFile (path : String) : (readFile path).Advances := by
  refine Advances.get.bind fun s => ?_
  split
  · exact .pure _
  · exact .fail _
  · exact .stop _

end Advances

end Eval

/-! ### Effects -/

namespace Effect

theorem textOf_advances (style : Style) (separator : String) (values : List Value) :
    (textOf style separator values).Advances := Store.Becomes.refl

theorem printAll_advances (style : Style) (values : List Value) :
    (printAll style values).Advances :=
  (textOf_advances style " " values).bind fun text => (Eval.Advances.print (text ++ "\n")).bind
    fun _ => .pure Value.nil

theorem run_advances (effect : Effect) (arguments : List Value) :
    (effect.run arguments).Advances := by
  unfold run
  split
  · exact .newCell _
  · exact (Eval.Advances.ofExcept _).bind fun cell => .readCell cell
  · exact (Eval.Advances.ofExcept _).bind fun cell => (Eval.Advances.writeCell cell _).bind
      fun _ => .pure _
  · exact (textOf_advances _ _ _).bind fun text => .pure _
  · exact (textOf_advances _ _ _).bind fun text => .pure _
  · exact printAll_advances _ _
  · exact printAll_advances _ _
  · exact (Eval.Advances.ofExcept _).bind fun path => (Eval.Advances.readFile path).bind
      fun text => .pure _
  · exact .fail _

end Effect

/-! ### Tasks and runs -/

theorem extend_advances (env : Env) (parameters arguments : List Value) :
    (env.extend parameters arguments).Advances :=
  (Eval.Advances.ofExcept _).bind fun made => .openScope env made

theorem enter_advances (parameters : List Value) (body : Value) (scope : Env)
    (arguments : List Value) : (enter parameters body scope arguments).Advances :=
  (extend_advances scope parameters arguments).bind fun _ => .pure _

theorem makeFunction_advances (env : Env) (parameters body : Value) :
    (makeFunction env parameters body).Advances := by
  unfold makeFunction
  split
  · exact .fail _
  · split
    · exact .fail _
    · exact .newFunction _ _ _

section Tasks

variable {self : Task → Eval Value} (advances : ∀ task, (self task).Advances)
include advances

theorem evaluateEach_advances (env : Env) (forms : List Value) :
    (evaluateEach self env forms).Advances :=
  .mapM (fun form => advances (.evaluate form env)) forms

theorem swapAtom_advances (atom callee : Value) (more : List Value) (env : Env) :
    (swapAtom self atom callee more env).Advances :=
  (Eval.Advances.ofExcept _).bind fun cell => (Eval.Advances.readCell cell).bind
    fun current => (advances (.call callee (current :: more) env)).bind
    fun updated => (Eval.Advances.writeCell cell updated).bind fun _ => .pure updated

theorem runControl_advances (env : Env) (control : Control) (arguments : List Value) :
    (runControl self env control arguments).Advances := by
  unfold runControl
  split
  · exact swapAtom_advances advances _ _ _ _
  · exact (Eval.Advances.ofExcept _).bind fun spread => advances _
  · exact (Eval.Advances.ofExcept _).bind fun items =>
      (Eval.Advances.mapM (fun item => advances _) items).bind fun results => .pure _
  · exact advances _
  · exact .fail _

theorem runNative_advances (env : Env) (f : Native) (arguments : List Value) :
    (runNative self env f arguments).Advances := by
  unfold runNative
  split
  · cases f with
    | operation operation => exact .ofExcept _
    | effect effect => exact effect.run_advances arguments
    | control control => exact runControl_advances advances env control arguments
  · exact .fail _

theorem performCall_advances (env : Env) (callee : Value) (arguments : List Value) :
    (performCall self env callee arguments).Advances := by
  unfold performCall
  split
  · exact (runNative_advances advances env _ arguments).bind fun value => .pure _
  · exact (enter_advances _ _ _ _).bind fun task => .pure _
  · exact (Eval.Advances.render _ _).bind fun text => .fail _

theorem evaluateAllButLast_advances (env : Env) (form : Value) (rest : List Value) :
    (evaluateAllButLast self env form rest).Advances := by
  induction rest generalizing form with
  | nil => exact .pure form
  | cons next rest ih => exact (advances (.evaluate form env)).bind fun _ => ih next

theorem bindEach_advances (scope : Env) (items : List Value) :
    (bindEach self scope items).Advances := by
  induction items using bindEach.induct with
  | case1 name form rest text named ih =>
    rw [bindEach]
    split
    · exact (advances (.evaluate form scope)).bind fun value =>
        (Eval.Advances.define scope _ value).bind fun _ => ih
    · exact .fail _
  | case2 name form rest notSymbol =>
    rw [bindEach, notSymbol]
    exact .fail _
  | case3 items noPair =>
    rw [bindEach]
    · exact .pure ()
    · exact noPair

theorem evaluateBindings_advances (env : Env) (bindings : Value) :
    (evaluateBindings self env bindings).Advances := by
  unfold evaluateBindings
  split
  · exact .fail _
  · split
    · exact .fail _
    · exact (Eval.Advances.openScope env []).bind fun scope =>
        (bindEach_advances advances scope _).bind fun _ => .pure scope

theorem evaluateDefinition_advances (env : Env) (name form : Value) :
    (evaluateDefinition self env name form).Advances :=
  (Eval.Advances.ofExcept _).bind fun text => (advances (.evaluate form env)).bind
    fun value => (Eval.Advances.define env text value).bind fun _ => .pure value

theorem evaluateExpanderDefinition_advances (env : Env) (name form : Value) :
    (evaluateExpanderDefinition self env name form).Advances :=
  (Eval.Advances.ofExcept _).bind fun text => (advances (.evaluate form env)).bind
    fun value => (Eval.Advances.ofExcept (expanderOf value)).bind
    fun expander => (Eval.Advances.define env text expander).bind fun _ => .pure expander

theorem performSpecial_advances (env : Env) (special : SpecialForm) (parts : List Value) :
    (performSpecial self env special parts).Advances := by
  unfold performSpecial
  split
  · exact .pure _
  · exact (Eval.Advances.ofExcept _).bind fun form => .pure _
  · exact (evaluateAllButLast_advances advances env _ _).bind fun last => .pure _
  · exact (advances _).bind fun value => .pure _
  · exact (makeFunction_advances env _ _).bind fun value => .pure _
  · exact (evaluateDefinition_advances advances env _ _).bind fun value => .pure _
  · exact (evaluateExpanderDefinition_advances advances env _ _).bind fun value => .pure _
  · exact .pure _
  · exact (evaluateBindings_advances advances env _).bind fun scope => .pure _
  · exact .fail _

theorem evaluateEntries_advances (env : Env) (made entries : Entries) :
    (evaluateEntries self env made entries).Advances := by
  induction entries generalizing made with
  | nil => exact .pure made
  | cons entry rest ih => exact (advances (.evaluate entry.2 env)).bind fun value => ih _

theorem performExpanded_advances (env : Env) (form : Value) :
    (performExpanded self env form).Advances := by
  unfold performExpanded
  split
  · exact .pure _
  · split
    · exact performSpecial_advances advances env _ _
    · exact (advances _).bind fun callee => (evaluateEach_advances advances env _).bind
        fun values => .pure _
  · exact (evaluateEach_advances advances env _).bind fun values => .pure _
  · exact (evaluateEntries_advances advances env _ _).bind fun made => .pure _
  · exact (Eval.Advances.lookup env _).bind fun value => .pure _
  · exact .pure _

theorem expandOnce_advances (expansion : Expansion) : (expandOnce self expansion).Advances :=
  (enter_advances _ _ _ _).bind advances

/-- A task makes small changes only, when it is performed with runs that do. -/
theorem perform_advances (task : Task) : (perform self task).Advances := by
  cases task with
  | evaluate form env =>
    refine Eval.Advances.get.bind fun s => ?_
    split
    · exact (expandOnce_advances advances _).bind fun expanded => .pure _
    · exact performExpanded_advances advances env form
  | expand form env =>
    refine Eval.Advances.get.bind fun s => ?_
    split
    · exact (expandOnce_advances advances _).bind fun expanded => .pure _
    · exact .pure _
  | call callee arguments env => exact performCall_advances advances env callee arguments

end Tasks

/-- A run makes small changes only, also when it stops early. -/
theorem run_advances (fuel : Nat) (task : Task) : (run fuel task).Advances := by
  induction fuel generalizing task with
  | zero => exact .stop .exhausted
  | succ fuel ih =>
    rw [run_succ]
    refine (perform_advances ih task).bind fun progress => ?_
    cases progress with
    | done value => exact .pure value
    | next task => exact ih task

/-! ### Scopes that are there before a task -/

namespace Store

variable {s : Store} {env : Env} {task : Task} {ending : Ending Value}

theorem becomes_of_finishes (finishes : task.Finishes s ending) : s.Becomes ending.store := by
  obtain ⟨_, fuel, rfl⟩ := finishes
  exact run_advances fuel task s

/-- Frames are still there when a task has finished. -/
theorem Holds.after (holds : s.Holds env) (finishes : task.Finishes s ending) :
    ending.store.Holds env := by
  intro frame mem
  exact Nat.lt_of_lt_of_le (holds frame mem) (size_le_of_becomes (becomes_of_finishes finishes))

theorem Holds.expands_opened_iff (holds : s.Holds env) (made : Bindings) (name : String) :
    (s.opened made).Expands env name ↔ s.Expands env name := by
  rw [Expands, Expands, holds.lookup?_opened]

end Store

end SmallLisp
