import SmallLisp.TopLevel

/-!
# How computations over the store end

A computation, begun in a store, returns a value or stops early, and leaves a store either way.
What is to be shown of its end is passed backwards through the computation: what must hold at
the end of a sequence must hold at the end of its second part, begun where the first part ends,
and an early stop of the first part is an early stop of the whole.

## Main definitions

* `Ending`: a value or the reason of an early stop, with the store that is left
* `Store.opened`, `Store.defined`, `Store.written`: the store after a primitive effect
* `Eval.Leads`: what holds where a computation ends

## Main results

* `Eval.leads_bind`: what a sequence of two computations leads to
* `Eval.leads_map`, `Eval.leads_lookup`, …: what the others lead to
-/

namespace SmallLisp

/-- How a computation ends: with a value, or stopped early for a reason; and the store that is
left. -/
abbrev Ending (α : Type) := EStateM.Result Halt Store α

/-- The store that is left at the end of a computation. -/
def Ending.store {α : Type} : Ending α → Store
  | .ok _ after => after
  | .error _ after => after

@[simp] theorem Ending.store_ok {α : Type} (value : α) (after : Store) :
    Ending.store (.ok value after) = after := rfl

@[simp] theorem Ending.store_error {α : Type} (halt : Halt) (after : Store) :
    Ending.store (.error halt after : Ending α) = after := rfl

namespace Store

/-- The store with one more frame. -/
def opened (store : Store) (bindings : Bindings) : Store :=
  { store with frames := store.frames.push bindings }

/-- The store with a name bound in a frame. -/
def defined (store : Store) (frame : FrameId) (name : String) (value : Value) : Store :=
  { store with frames := store.frames.modify frame (·.insert name value) }

/-- The store with other contents in a cell. -/
def written (store : Store) (cell : CellId) (value : Value) : Store :=
  { store with cells := store.cells.setIfInBounds cell value }

/-- The store with one more procedure. -/
def numbered (store : Store) : Store := { store with procedures := store.procedures + 1 }

end Store

namespace Eval

variable {α β : Type} {store : Store} {returns : β → Store → Prop} {stops : Halt → Store → Prop}

/-- What holds where a computation ends: `returns` of its value and the store that is left, or
`stops` of the reason for which it stops early and that store. -/
def Leads (action : Eval α) (store : Store) (returns : α → Store → Prop)
    (stops : Halt → Store → Prop) : Prop :=
  match action store with
  | .ok value after => returns value after
  | .error halt after => stops halt after

theorem get_eq (store : Store) : (get : Eval Store) store = .ok store store := rfl

theorem bind_of_ok {first : Eval α} {second : α → Eval β} {value : α} {after : Store}
    (ends : first store = .ok value after) : (first >>= second) store = second value after := by
  change EStateM.bind first second store = _
  rw [EStateM.bind, ends]

theorem bind_of_error {first : Eval α} {second : α → Eval β} {halt : Halt} {after : Store}
    (ends : first store = .error halt after) : (first >>= second) store = .error halt after := by
  change EStateM.bind first second store = _
  rw [EStateM.bind, ends]

theorem bind_congr_left {first first' : Eval α} {second : α → Eval β}
    (same : first store = first' store) : (first >>= second) store = (first' >>= second) store := by
  change EStateM.bind first second store = EStateM.bind first' second store
  rw [EStateM.bind, EStateM.bind, same]

theorem lookup_of_some {env : Env} {name : String} {value : Value}
    (bound : store.lookup? env name = some value) : lookup env name store = .ok value store := by
  rw [lookup, bind_of_ok (get_eq store), bound]
  rfl

theorem lookup_of_none {env : Env} {name : String} (free : store.lookup? env name = none) :
    lookup env name store = .error (.failure (.unbound name)) store := by
  rw [lookup, bind_of_ok (get_eq store), free]
  rfl

theorem ofExcept_of_ok {result : Except Error β} {value : β} (computes : result = .ok value) :
    ofExcept result store = .ok value store := by
  rw [computes]
  rfl

theorem ofExcept_of_error {result : Except Error β} {error : Error}
    (fails : result = .error error) :
    ofExcept result store = .error (.failure error) store := by
  rw [fails]
  rfl

theorem map_eq_ok_iff {f : α → β} {action : Eval α} {result : β} {after : Store} :
    (f <$> action) store = .ok result after ↔
      ∃ value, action store = .ok value after ∧ f value = result := by
  change EStateM.map f action store = _ ↔ _
  rw [EStateM.map]
  cases action store with
  | ok value last =>
    constructor
    · rintro ⟨⟩
      exact ⟨value, rfl, rfl⟩
    · rintro ⟨_, ⟨⟩, rfl⟩
      rfl
  | error halt last => simp

theorem map_eq_error_iff {f : α → β} {action : Eval α} {halt : Halt} {after : Store} :
    (f <$> action) store = .error halt after ↔ action store = .error halt after := by
  change EStateM.map f action store = _ ↔ _
  rw [EStateM.map]
  cases action store with
  | ok value last => simp
  | error halt last => simp

theorem leads_iff {action : Eval β} :
    action.Leads store returns stops ↔
      (∀ value after, action store = .ok value after → returns value after) ∧
        ∀ halt after, action store = .error halt after → stops halt after := by
  unfold Leads
  cases action store <;> simp

theorem leads_ok_iff {action : Eval β} {value : β} {after : Store}
    (ends : action store = .ok value after) :
    action.Leads store returns stops ↔ returns value after := by
  rw [Leads, ends]

theorem leads_error_iff {action : Eval β} {halt : Halt} {after : Store}
    (ends : action store = .error halt after) :
    action.Leads store returns stops ↔ stops halt after := by
  rw [Leads, ends]

theorem Leads.mono {action : Eval β} {returns' : β → Store → Prop} {stops' : Halt → Store → Prop}
    (leads : action.Leads store returns stops)
    (onReturn : ∀ value after, returns value after → returns' value after)
    (onStop : ∀ halt after, stops halt after → stops' halt after) :
    action.Leads store returns' stops' := by
  unfold Leads at leads ⊢
  split <;> rename_i ends <;> rw [ends] at leads
  · exact onReturn _ _ leads
  · exact onStop _ _ leads

@[simp] theorem leads_pure (value : β) :
    (pure value : Eval β).Leads store returns stops ↔ returns value store := Iff.rfl

@[simp] theorem leads_throw (halt : Halt) :
    (throw halt : Eval β).Leads store returns stops ↔ stops halt store := Iff.rfl

@[simp] theorem leads_fail (error : Error) :
    (fail error : Eval β).Leads store returns stops ↔ stops (.failure error) store := Iff.rfl

@[simp] theorem leads_get {returns : Store → Store → Prop} :
    (get : Eval Store).Leads store returns stops ↔ returns store store := Iff.rfl

/-- The second of two computations begins where the first one ends. -/
@[simp] theorem leads_bind (first : Eval α) (second : α → Eval β) :
    (first >>= second).Leads store returns stops ↔
      first.Leads store (fun value after => (second value).Leads after returns stops) stops := by
  cases ends : first store with
  | ok value after => rw [leads_ok_iff ends, Leads, bind_of_ok ends, Leads]
  | error halt after => rw [leads_error_iff ends, Leads, bind_of_error ends]

@[simp] theorem leads_map (f : α → β) (action : Eval α) :
    (f <$> action).Leads store returns stops ↔
      action.Leads store (fun value => returns (f value)) stops := by
  rw [← bind_pure_comp]
  exact leads_bind action fun value => pure (f value)

theorem leads_ofExcept (result : Except Error β) :
    (ofExcept result).Leads store returns stops ↔
      (∀ value, result = .ok value → returns value store) ∧
        ∀ error, result = .error error → stops (.failure error) store := by
  cases result with
  | ok value => simp [ofExcept]
  | error error => simp [ofExcept]

theorem leads_expect (expected : Expectation) (value : Value) (found : Option β) :
    (ofExcept (value.expect expected found)).Leads store returns stops ↔
      (∀ content, found = some content → returns content store) ∧
        (found = none → stops (.failure (.wrongType expected value.type)) store) := by
  cases found with
  | some content => simp [Value.expect, ofExcept]
  | none => simp [Value.expect, ofExcept]

@[simp] theorem leads_openScope {returns : Env → Store → Prop} (env : Env) (bindings : Bindings) :
    (openScope env bindings).Leads store returns stops ↔
      returns (env.nest store.frames.size) (store.opened bindings) := Iff.rfl

@[simp] theorem leads_define {returns : Unit → Store → Prop} (env : Env) (name : String)
    (value : Value) :
    (define env name value).Leads store returns stops ↔
      returns () (store.defined env.frame name value) := Iff.rfl

@[simp] theorem leads_readCell {returns : Value → Store → Prop} (cell : CellId) :
    (readCell cell).Leads store returns stops ↔ returns (store.contents cell) store := Iff.rfl

@[simp] theorem leads_writeCell {returns : Unit → Store → Prop} (cell : CellId) (value : Value) :
    (writeCell cell value).Leads store returns stops ↔
      returns () (store.written cell value) := Iff.rfl

@[simp] theorem leads_newFunction {returns : Value → Store → Prop} (parameters : List Value)
    (body : Value) (env : Env) :
    (newFunction parameters body env).Leads store returns stops ↔
      returns (.procedure .function store.procedures parameters body env) store.numbered :=
  Iff.rfl

@[simp] theorem leads_render {returns : String → Store → Prop} (style : Style) (value : Value) :
    (render style value).Leads store returns stops ↔ returns (store.render style value) store :=
  Iff.rfl

theorem leads_lookup {returns : Value → Store → Prop} (env : Env) (name : String) :
    (lookup env name).Leads store returns stops ↔
      (∀ value, store.lookup? env name = some value → returns value store) ∧
        (store.lookup? env name = none → stops (.failure (.unbound name)) store) := by
  rw [lookup, leads_bind, leads_get]
  cases store.lookup? env name with
  | some value => simp
  | none => simp

theorem leads_extend {returns : Env → Store → Prop} (env : Env)
    (parameters arguments : List Value) :
    (env.extend parameters arguments).Leads store returns stops ↔
      (∀ bindings, Binder.bind parameters arguments = .ok bindings →
          returns (env.nest store.frames.size) (store.opened bindings)) ∧
        ∀ error, Binder.bind parameters arguments = .error error →
          stops (.failure error) store := by
  rw [Env.extend, leads_bind, leads_ofExcept]
  exact Iff.rfl

end Eval

/-! ### Parameters bound in a new scope -/

section Parameters

variable {parameters arguments : List Value} {store : Store}

theorem Env.extend_of_ok {made : Bindings} (binds : Binder.bind parameters arguments = .ok made)
    (env : Env) :
    env.extend parameters arguments store =
      .ok (env.nest store.frames.size) (store.opened made) := by
  rw [extend, binds]
  rfl

theorem Env.extend_of_error {error : Error}
    (fails : Binder.bind parameters arguments = .error error) (env : Env) :
    env.extend parameters arguments store = .error (.failure error) store := by
  rw [extend, fails]
  rfl

/-- A procedure's body is evaluated in a new scope, with the parameters bound. -/
theorem enter_of_ok {made : Bindings} (binds : Binder.bind parameters arguments = .ok made)
    (body : Value) (scope : Env) :
    enter parameters body scope arguments store =
      .ok (.evaluate body (scope.nest store.frames.size)) (store.opened made) :=
  Eval.bind_of_ok (Env.extend_of_ok binds scope)

theorem enter_of_error {error : Error} (fails : Binder.bind parameters arguments = .error error)
    (body : Value) (scope : Env) :
    enter parameters body scope arguments store = .error (.failure error) store :=
  Eval.bind_of_error (Env.extend_of_error fails scope)

end Parameters

end SmallLisp
