import SmallLisp.Value.Entries
import SmallLisp.Value.Expect

/-!
# The scopes a value mentions

A procedure mentions the scope that it was made in, and a value mentions what its parts mention:
a map its keys and values, a procedure also its parameters and its body, which may hold other
procedures. An error mentions what the value that it carries mentions.

## Main definitions

* `Value.Mentions`: a scope occurs in a value
* `Value.Within`, `Error.Within`: all scopes that occur are of a given sort
* `Yields`: what holds of a result, where an error may carry a value

## Main results

* `Value.within_seq`, `Value.within_map`, `Value.within_procedure`: a value is within a sort of
  scopes when its parts are
* `Entries.within_ofForms?`: so is a map that is made of such values
-/

namespace SmallLisp

/-- A scope occurs in a value. -/
inductive Value.Mentions : Value → Env → Prop where
  | item {kind : SeqKind} {items : List Value} {item : Value} {env : Env} :
      item ∈ items → item.Mentions env → Mentions (.seq kind items) env
  | key {entries : Entries} {entry : Value × Value} {env : Env} :
      entry ∈ entries → entry.1.Mentions env → Mentions (.map entries) env
  | value {entries : Entries} {entry : Value × Value} {env : Env} :
      entry ∈ entries → entry.2.Mentions env → Mentions (.map entries) env
  | scope {kind : ProcedureKind} {id : ProcedureId} {parameters : List Value} {body : Value}
      {env : Env} : Mentions (.procedure kind id parameters body env) env
  | parameter {kind : ProcedureKind} {id : ProcedureId} {parameters : List Value}
      {parameter body : Value} {scope env : Env} :
      parameter ∈ parameters → parameter.Mentions env →
        Mentions (.procedure kind id parameters body scope) env
  | body {kind : ProcedureKind} {id : ProcedureId} {parameters : List Value} {body : Value}
      {scope env : Env} :
      body.Mentions env → Mentions (.procedure kind id parameters body scope) env

/-- All scopes that occur in a value are of a given sort. -/
def Value.Within (known : Env → Prop) (value : Value) : Prop :=
  ∀ env, value.Mentions env → known env

/-- All scopes that occur in the value that an error carries, if it carries one. -/
def Error.Within (known : Env → Prop) : Error → Prop
  | .thrown payload => payload.Within known
  | _ => True

/-- What holds of a result: `returns` of its value, and that an error mentions known scopes
only. -/
def Yields {α : Type} (known : Env → Prop) (returns : α → Prop) : Except Error α → Prop
  | .ok value => returns value
  | .error error => error.Within known

section Known

variable {known : Env → Prop}

namespace Value

theorem Within.mono {known' : Env → Prop} {value : Value} (within : value.Within known)
    (grows : ∀ env, known env → known' env) : value.Within known' :=
  fun env mentions => grows env (within env mentions)

@[simp] theorem within_nil : Value.nil.Within known := by rintro _ ⟨⟩

@[simp] theorem within_bool (b : Bool) : (Value.bool b).Within known := by rintro _ ⟨⟩

@[simp] theorem within_number (x : Float) : (Value.number x).Within known := by rintro _ ⟨⟩

@[simp] theorem within_string (text : String) : (Value.string text).Within known := by rintro _ ⟨⟩

@[simp] theorem within_symbol (name : String) : (Value.symbol name).Within known := by rintro _ ⟨⟩

@[simp] theorem within_keyword (name : String) : (Value.keyword name).Within known := by
  rintro _ ⟨⟩

@[simp] theorem within_atom (cell : CellId) : (Value.atom cell).Within known := by rintro _ ⟨⟩

@[simp] theorem within_native (f : Native) : (Value.native f).Within known := by rintro _ ⟨⟩

@[simp] theorem within_seq (kind : SeqKind) (items : List Value) :
    (Value.seq kind items).Within known ↔ ∀ item ∈ items, item.Within known := by
  constructor
  · intro within item mem env mentions
    exact within env (.item mem mentions)
  · rintro within env (⟨mem, mentions⟩)
    exact within _ mem env mentions

@[simp] theorem within_map (entries : Entries) :
    (Value.map entries).Within known ↔
      ∀ entry ∈ entries, entry.1.Within known ∧ entry.2.Within known := by
  constructor
  · intro within entry mem
    exact ⟨fun env mentions => within env (.key mem mentions),
      fun env mentions => within env (.value mem mentions)⟩
  · intro within env mentions
    cases mentions with
    | key mem mentions => exact (within _ mem).1 env mentions
    | value mem mentions => exact (within _ mem).2 env mentions

@[simp] theorem within_procedure (kind : ProcedureKind) (id : ProcedureId)
    (parameters : List Value) (body : Value) (scope : Env) :
    (Value.procedure kind id parameters body scope).Within known ↔
      (∀ parameter ∈ parameters, parameter.Within known) ∧ body.Within known ∧ known scope := by
  constructor
  · intro within
    exact ⟨fun parameter mem env mentions => within env (.parameter mem mentions),
      fun env mentions => within env (.body mentions), within scope .scope⟩
  · rintro ⟨ofParameters, ofBody, ofScope⟩ env mentions
    cases mentions with
    | scope => exact ofScope
    | parameter mem mentions => exact ofParameters _ mem env mentions
    | body mentions => exact ofBody env mentions

theorem within_headD {items : List Value} (within : ∀ item ∈ items, item.Within known)
    (default : Value) (ofDefault : default.Within known) : (items.headD default).Within known := by
  cases items with
  | nil => exact ofDefault
  | cons item rest => exact within item List.mem_cons_self

end Value

/-! ### Entries of maps -/

namespace Entries

theorem within_insert {entries : Entries} {key value : Value}
    (within : (Value.map entries).Within known) (ofKey : key.Within known)
    (ofValue : value.Within known) : (Value.map (insert entries key value)).Within known := by
  rw [Value.within_map] at within ⊢
  induction entries with
  | nil =>
    intro entry mem
    obtain rfl := List.mem_singleton.mp mem
    exact ⟨ofKey, ofValue⟩
  | cons first rest ih =>
    have ofFirst := within first List.mem_cons_self
    have ofRest := fun entry mem => within entry (List.mem_cons_of_mem first mem)
    intro entry mem
    rw [insert] at mem
    split at mem
    · rcases List.mem_cons.mp mem with rfl | mem
      · exact ⟨ofFirst.1, ofValue⟩
      · exact ofRest entry mem
    · rcases List.mem_cons.mp mem with rfl | mem
      · exact ofFirst
      · exact ih ofRest entry mem

theorem within_insertAll {entries more : Entries} (within : (Value.map entries).Within known)
    (ofMore : (Value.map more).Within known) :
    (Value.map (insertAll entries more)).Within known := by
  rw [Value.within_map] at ofMore
  induction more generalizing entries with
  | nil => exact within
  | cons entry rest ih =>
    have ofEntry := ofMore entry List.mem_cons_self
    exact ih (within_insert within ofEntry.1 ofEntry.2)
      fun other mem => ofMore other (List.mem_cons_of_mem entry mem)

theorem within_pairs? {forms : List Value} {entries : Entries}
    (within : ∀ form ∈ forms, form.Within known) (pairs : pairs? forms = some entries) :
    (Value.map entries).Within known := by
  induction forms using pairs?.induct generalizing entries with
  | case1 =>
    cases pairs
    simp
  | case2 => cases pairs
  | case3 key value rest ih =>
    obtain ⟨others, ofRest, rfl⟩ := Option.map_eq_some_iff.mp pairs
    have fromRest := ih (fun form mem => within form (by simp [mem])) ofRest
    rw [Value.within_map] at fromRest ⊢
    intro entry mem
    rcases List.mem_cons.mp mem with rfl | mem
    · exact ⟨within key (by simp), within value (by simp)⟩
    · exact fromRest entry mem

theorem within_ofForms? {forms : List Value} {entries : Entries}
    (within : ∀ form ∈ forms, form.Within known) (made : ofForms? forms = some entries) :
    (Value.map entries).Within known := by
  obtain ⟨pairs, paired, rfl⟩ := Option.map_eq_some_iff.mp made
  exact within_insertAll (by simp) (within_pairs? within paired)

theorem within_erase {entries : Entries} (within : (Value.map entries).Within known)
    (key : Value) : (Value.map (erase entries key)).Within known := by
  rw [Value.within_map] at within ⊢
  exact fun entry mem => within entry (List.mem_filter.mp mem).1

theorem within_find? {entries : Entries} {key value : Value}
    (within : (Value.map entries).Within known) (found : find? entries key = some value) :
    value.Within known := by
  obtain ⟨entry, isEntry, rfl⟩ := Option.map_eq_some_iff.mp found
  exact ((Value.within_map entries).mp within entry (List.mem_of_find?_eq_some isEntry)).2

end Entries

/-! ### Results -/

@[simp] theorem yields_ok {α : Type} {returns : α → Prop} (value : α) :
    Yields known returns (.ok value) ↔ returns value := Iff.rfl

@[simp] theorem yields_pure {α : Type} {returns : α → Prop} (value : α) :
    Yields known returns (pure value) ↔ returns value := Iff.rfl

@[simp] theorem yields_error {α : Type} {returns : α → Prop} (error : Error) :
    Yields known returns (.error error) ↔ error.Within known := Iff.rfl

@[simp] theorem yields_bind {α β : Type} {returns : β → Prop} (first : Except Error α)
    (second : α → Except Error β) :
    Yields known returns (first >>= second) ↔
      Yields known (fun value => Yields known returns (second value)) first := by
  cases first with
  | ok value => rfl
  | error error => rfl

@[simp] theorem yields_map {α β : Type} {returns : β → Prop} (f : α → β)
    (result : Except Error α) :
    Yields known returns (f <$> result) ↔ Yields known (fun value => returns (f value)) result := by
  cases result with
  | ok value => rfl
  | error error => rfl

@[simp] theorem yields_expect {α : Type} {returns : α → Prop} (expected : Expectation)
    (value : Value) (found : Option α) :
    Yields known returns (value.expect expected found) ↔
      ∀ content, found = some content → returns content := by
  cases found with
  | some content => simp [Value.expect]
  | none => simp [Value.expect, Error.Within]

theorem Yields.mono {α : Type} {returns returns' : α → Prop} {result : Except Error α}
    (yields : Yields known returns result) (weaker : ∀ value, returns value → returns' value) :
    Yields known returns' result := by
  cases result with
  | ok value => exact weaker value yields
  | error error => exact yields

theorem yields_expectItems {value : Value} (within : value.Within known) :
    Yields known (fun items => ∀ item ∈ items, item.Within known) value.expectItems := by
  rw [Value.expectItems, yields_expect]
  intro items isSeq
  cases value <;> cases isSeq
  exact (Value.within_seq _ _).mp within

theorem yields_expectEntries {value : Value} (within : value.Within known) :
    Yields known (fun entries => (Value.map entries).Within known) value.expectEntries := by
  rw [Value.expectEntries, yields_expect]
  intro entries isMap
  cases value <;> cases isMap
  exact within

end Known

end SmallLisp
