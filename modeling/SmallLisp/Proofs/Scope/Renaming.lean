import SmallLisp.Form
import SmallLisp.Proofs.Equality.Transport
import SmallLisp.Proofs.Scope.Mention
import SmallLisp.Store

/-!
# Renamed frames

A frame is known by a number, and what number it gets depends on how many frames there were before.
Programs never see the numbers: a value in which the frames have other names is of the same kind, it
is equal to what it was equal to, is written in the same way, and finds the same entries in a map.
A value that mentions no renamed frame is the same value.

## Main definitions

* `Env.rename`, `Value.rename`, `Error.rename`: scopes, values and errors with renamed frames
* `renamed`: a result, be it good or bad, with renamed frames

## Main results

* `Value.rename_beq_rename`: equality does not depend on the names of frames
* `Value.render_rename`: nor does the text of a value
* `Entries.ofForms?_map`, `Entries.find?_map`, …: nor do maps
* `Value.rename_eq_self`: a value that mentions no renamed frame is the same value
-/

namespace SmallLisp

variable (ρ : FrameId → FrameId)

/-- A scope with renamed frames. -/
def Env.rename (env : Env) : Env := ⟨ρ env.frame, env.outer.map ρ⟩

theorem Env.frames_rename (env : Env) : (env.rename ρ).frames = env.frames.map ρ := rfl

theorem Env.nest_rename (env : Env) (frame : FrameId) :
    (env.nest frame).rename ρ = (env.rename ρ).nest (ρ frame) := rfl

theorem Env.root_rename (env : Env) : (env.rename ρ).root = env.root.rename ρ := by
  simp [root, rename, List.getLastD_eq_getLast?, Option.getD_map]

namespace Value

mutual

/-- A value with renamed frames. -/
def rename : Value → Value
  | .seq kind items => .seq kind (renameItems items)
  | .map entries => .map (renameEntries entries)
  | .procedure kind id parameters body env =>
    .procedure kind id (renameItems parameters) (rename body) (env.rename ρ)
  | value => value

/-- Values with renamed frames. -/
def renameItems : List Value → List Value
  | [] => []
  | item :: rest => rename item :: renameItems rest

/-- Keys and values with renamed frames. -/
def renameEntries : List (Value × Value) → List (Value × Value)
  | [] => []
  | (key, value) :: rest => (rename key, rename value) :: renameEntries rest

end

end Value

/-- The entries of a map with renamed frames. -/
def Entries.rename (entries : Entries) : Entries :=
  entries.map (Prod.map (Value.rename ρ) (Value.rename ρ))

@[simp] theorem Entries.length_rename (entries : Entries) :
    (Entries.rename ρ entries).length = List.length entries :=
  List.length_map _

/-- The bindings of a frame with renamed frames in the values. -/
def Bindings.rename (bindings : Bindings) : Bindings :=
  bindings.map (Prod.map id (Value.rename ρ))

/-- An error with renamed frames in the value that it carries, if it carries one. -/
def Error.rename : Error → Error
  | .thrown payload => .thrown (payload.rename ρ)
  | error => error

/-- A result with renamed frames, given how they are renamed in what is returned. -/
def renamed {α β : Type} (f : α → β) : Except Error α → Except Error β
  | .ok value => .ok (f value)
  | .error error => .error (error.rename ρ)

namespace Value

theorem renameItems_eq (items : List Value) : renameItems ρ items = items.map (rename ρ) := by
  induction items with
  | nil => rfl
  | cons item rest ih => rw [renameItems, ih, List.map_cons]

theorem renameEntries_eq (entries : Entries) :
    renameEntries ρ entries = Entries.rename ρ entries := by
  induction entries with
  | nil => rfl
  | cons entry rest ih =>
    rw [renameEntries, ih]
    rfl

@[simp] theorem rename_seq (kind : SeqKind) (items : List Value) :
    rename ρ (.seq kind items) = .seq kind (items.map (rename ρ)) := by
  rw [rename, renameItems_eq]

@[simp] theorem rename_map (entries : Entries) :
    rename ρ (.map entries) = .map (Entries.rename ρ entries) := by
  rw [rename, renameEntries_eq]

@[simp] theorem rename_procedure (kind : ProcedureKind) (id : ProcedureId)
    (parameters : List Value) (body : Value) (env : Env) :
    rename ρ (.procedure kind id parameters body env) =
      .procedure kind id (parameters.map (rename ρ)) (body.rename ρ) (env.rename ρ) := by
  rw [rename, renameItems_eq]

@[simp] theorem rename_symbol (name : String) : rename ρ (.symbol name) = .symbol name := rfl

@[simp] theorem rename_call (name : String) (arguments : List Value) :
    rename ρ (Form.call name arguments) = Form.call name (arguments.map (rename ρ)) := by
  rw [Form.call, rename_seq, List.map_cons, rename_symbol, Form.call]

section Parts

variable (value : Value)

@[simp] theorem type_rename : (value.rename ρ).type = value.type := by
  cases value with
  | seq kind items => cases kind <;> rfl
  | procedure kind id parameters body env => cases kind <;> rfl
  | _ => rfl

@[simp] theorem countsAsTrue_rename : (value.rename ρ).countsAsTrue = value.countsAsTrue := by
  cases value <;> rfl

@[simp] theorem isNil_rename : (value.rename ρ).isNil = value.isNil := by
  cases value <;> rfl

@[simp] theorem bool?_rename : (value.rename ρ).bool? = value.bool? := by
  cases value <;> rfl

@[simp] theorem number?_rename : (value.rename ρ).number? = value.number? := by
  cases value <;> rfl

@[simp] theorem string?_rename : (value.rename ρ).string? = value.string? := by
  cases value <;> rfl

@[simp] theorem symbol?_rename : (value.rename ρ).symbol? = value.symbol? := by
  cases value <;> rfl

@[simp] theorem keyword?_rename : (value.rename ρ).keyword? = value.keyword? := by
  cases value <;> rfl

@[simp] theorem cell?_rename : (value.rename ρ).cell? = value.cell? := by
  cases value <;> rfl

@[simp] theorem native?_rename : (value.rename ρ).native? = value.native? := by
  cases value <;> rfl

@[simp] theorem procedure?_rename : (value.rename ρ).procedure? = value.procedure? := by
  cases value <;> rfl

@[simp] theorem isFunction_rename : (value.rename ρ).isFunction = value.isFunction := by
  cases value with
  | procedure kind id parameters body env => cases kind <;> rfl
  | _ => rfl

@[simp] theorem items?_rename :
    (value.rename ρ).items? = value.items?.map (List.map (rename ρ)) := by
  cases value with
  | seq kind items => rw [rename_seq, items?, items?, Option.map_some]
  | _ => rfl

@[simp] theorem entries?_rename : (value.rename ρ).entries? = value.entries?.map (.rename ρ) := by
  cases value with
  | map entries => rw [rename_map, entries?, entries?, Option.map_some]
  | _ => rfl

@[simp] theorem isSymbol_rename (name : String) :
    (value.rename ρ).isSymbol name = value.isSymbol name := by
  rw [isSymbol, symbol?_rename, isSymbol]

end Parts

/-- Equality does not depend on the names of frames. -/
theorem rename_beq_rename (a b : Value) : (a.rename ρ == b.rename ρ) = (a == b) := by
  change equal _ _ = equal _ _
  cases a with
  | seq kind items =>
    rw [rename_seq, equal, equal, items?_rename]
    cases b.items? with
    | none => rfl
    | some others => exact equalItems_map fun item mem other _ => rename_beq_rename item other
  | map entries =>
    rw [rename_map, equal, equal, entries?_rename]
    cases b.entries? with
    | none => rfl
    | some others =>
      have inside : within (Entries.rename ρ entries) (Entries.rename ρ others) =
          within entries others :=
        within_map_map (fun entry mem other _ => rename_beq_rename entry.1 other.1)
          (fun entry mem other _ => rename_beq_rename entry.2 other.2)
      simp only [Option.map_some, Option.any_some, Entries.length_rename, inside]
  | procedure kind id parameters body env =>
    rw [rename_procedure, equal, equal, procedure?_rename]
  | _ => simp only [rename, equal, isNil_rename, bool?_rename, number?_rename, string?_rename,
      symbol?_rename, keyword?_rename, cell?_rename, native?_rename]
termination_by sizeOf a
decreasing_by
  · exact sizeOf_lt_of_mem_items kind mem
  · exact (sizeOf_lt_of_mem_entries mem).1
  · exact (sizeOf_lt_of_mem_entries mem).2

/-! ### The text of a value -/

section Text

variable (cellText : CellId → String) (style : Style)

mutual

theorem renderWith_rename (value : Value) :
    renderWith cellText style (value.rename ρ) = renderWith cellText style value := by
  cases value with
  | seq kind items => rw [rename, renderWith, renderWith, renderItems_rename items]
  | map entries => rw [rename, renderWith, renderWith, renderEntries_rename entries]
  | procedure kind id parameters body env => cases kind <;> rw [rename, renderWith, renderWith]
  | _ => rfl

theorem renderItems_rename (items : List Value) :
    renderItems cellText style (renameItems ρ items) = renderItems cellText style items := by
  cases items with
  | nil => rfl
  | cons item rest =>
    rw [renameItems, renderItems, renderItems, renderWith_rename item, renderItems_rename rest]

theorem renderEntries_rename (entries : List (Value × Value)) :
    renderEntries cellText style (renameEntries ρ entries) =
      renderEntries cellText style entries := by
  cases entries with
  | nil => rfl
  | cons entry rest =>
    obtain ⟨key, value⟩ := entry
    rw [renameEntries, renderEntries, renderEntries, renderWith_rename key,
      renderWith_rename value, renderEntries_rename rest]

end

end Text

theorem renderCell_rename (contents : CellId → Value) (style : Style) (depth : Nat)
    (enclosing : List CellId) (cell : CellId) :
    renderCell (fun cell => (contents cell).rename ρ) style depth enclosing cell =
      renderCell contents style depth enclosing cell := by
  induction depth generalizing enclosing cell with
  | zero => rfl
  | succ depth ih =>
    have inner := funext (ih (cell :: enclosing))
    rw [renderCell, renderCell, inner, renderWith_rename]

/-- The text of a value does not depend on the names of frames. -/
theorem render_rename (contents : CellId → Value) (depth : Nat) (style : Style) (value : Value) :
    (value.rename ρ).render (fun cell => (contents cell).rename ρ) depth style =
      value.render contents depth style := by
  have inner := funext (renderCell_rename ρ contents style depth [])
  rw [render, render, inner, renderWith_rename]

/-! ### Values that mention no renamed frame -/

/-- A value that mentions no renamed frame is the same value. -/
theorem rename_eq_self (value : Value) :
    value.Within (fun env => env.rename ρ = env) → value.rename ρ = value := by
  cases value with
  | seq kind items =>
    intro within
    rw [within_seq] at within
    have same : items.map (rename ρ) = items.map id :=
      List.map_congr_left fun item mem => rename_eq_self item (within item mem)
    rw [rename_seq, same, List.map_id]
  | map entries =>
    intro within
    rw [within_map] at within
    have same : Entries.rename ρ entries = entries.map id :=
      List.map_congr_left fun entry mem =>
        Prod.ext (rename_eq_self entry.1 (within entry mem).1)
          (rename_eq_self entry.2 (within entry mem).2)
    rw [rename_map, same, List.map_id]
  | procedure kind id parameters body env =>
    intro within
    obtain ⟨ofParameters, ofBody, ofScope⟩ := (within_procedure ..).mp within
    have same : parameters.map (rename ρ) = parameters.map fun parameter => parameter :=
      List.map_congr_left fun parameter mem => rename_eq_self parameter (ofParameters parameter mem)
    rw [rename_procedure, same, List.map_id', rename_eq_self body ofBody, ofScope]
  | _ => exact fun _ => rfl
termination_by sizeOf value
decreasing_by
  · exact sizeOf_lt_of_mem_items kind mem
  · exact (sizeOf_lt_of_mem_entries mem).1
  · exact (sizeOf_lt_of_mem_entries mem).2
  · have smaller := List.sizeOf_lt_of_mem mem
    rw [Value.procedure.sizeOf_spec]
    omega
  · rw [Value.procedure.sizeOf_spec]
    omega

end Value

/-! ### Maps -/

namespace Entries

variable (entries : Entries) (key value : Value)

theorem find?_rename :
    find? (entries.rename ρ) (key.rename ρ) = (find? entries key).map (Value.rename ρ) := by
  induction entries with
  | nil => rfl
  | cons entry rest ih =>
    have first : rename ρ (entry :: rest) =
        (entry.1.rename ρ, entry.2.rename ρ) :: rename ρ rest := rfl
    rw [first, find?, find?, List.find?_cons, List.find?_cons, Value.rename_beq_rename]
    split
    · rfl
    · exact ih

theorem insert_rename :
    insert (entries.rename ρ) (key.rename ρ) (value.rename ρ) =
      rename ρ (insert entries key value) := by
  induction entries with
  | nil => rfl
  | cons entry rest ih =>
    obtain ⟨stored, old⟩ := entry
    have first : rename ρ ((stored, old) :: rest) =
        (stored.rename ρ, old.rename ρ) :: rename ρ rest := rfl
    rw [first, insert, insert, Value.rename_beq_rename, ih]
    split <;> rfl

theorem erase_rename :
    erase (entries.rename ρ) (key.rename ρ) = rename ρ (erase entries key) := by
  rw [erase, rename, List.filter_map, erase, rename]
  congr 2
  funext entry
  simp only [Function.comp, Prod.map_fst, Value.rename_beq_rename]

theorem insertAll_rename (more : Entries) :
    insertAll (entries.rename ρ) (more.rename ρ) = rename ρ (insertAll entries more) := by
  induction more generalizing entries with
  | nil => rfl
  | cons entry rest ih =>
    have one := insert_rename ρ entries entry.1 entry.2
    change insertAll (insert (rename ρ entries) (entry.1.rename ρ) (entry.2.rename ρ))
      (rename ρ rest) = rename ρ (insertAll (insert entries entry.1 entry.2) rest)
    rw [one, ih]

theorem pairs?_rename (forms : List Value) :
    pairs? (forms.map (Value.rename ρ)) = (pairs? forms).map (rename ρ) := by
  induction forms using pairs?.induct with
  | case1 => rfl
  | case2 => rfl
  | case3 key value rest ih =>
    rw [List.map_cons, List.map_cons, pairs?, ih, pairs?]
    cases pairs? rest <;> rfl

theorem ofForms?_rename (forms : List Value) :
    ofForms? (forms.map (Value.rename ρ)) = (ofForms? forms).map (rename ρ) := by
  rw [ofForms?, pairs?_rename, ofForms?]
  cases pairs? forms with
  | none => rfl
  | some pairs => exact congrArg some (insertAll_rename ρ [] pairs)

theorem keys_rename : keys (entries.rename ρ) = (keys entries).map (Value.rename ρ) := by
  simp [keys, rename]

theorem values_rename : values (entries.rename ρ) = (values entries).map (Value.rename ρ) := by
  simp [values, rename]

end Entries

end SmallLisp
