import SmallLisp.Value.Equality

/-!
# Entries of a map

A map is kept as its entries in the order in which the keys first came in. Putting a value
under a key that is already there replaces the value and leaves the stored key and its place;
a new key comes last. Keys are compared with the equality of values.

## Main definitions

* `Entries.find?`: the value under a key
* `Entries.insert`, `Entries.erase`: a value put under a key, a key removed
* `Entries.ofForms`, `Entries.toForms`: to and from alternating keys and values

## Main results

* `Entries.ofForms?_eq_some_iff`: forms make entries when they alternate between keys and values
-/

namespace SmallLisp.Entries

/-- The value under a key. -/
def find? (entries : Entries) (key : Value) : Option Value :=
  (List.find? (fun entry => entry.1 == key) entries).map (·.2)

/-- Whether there is an entry for a key. -/
def contains (entries : Entries) (key : Value) : Bool := (find? entries key).isSome

/-- Puts a value under a key. -/
def insert : Entries → Value → Value → Entries
  | [], key, value => [(key, value)]
  | (stored, old) :: rest, key, value =>
    if stored == key then (stored, value) :: rest else (stored, old) :: insert rest key value

/-- Removes the entries of a key. -/
def erase (entries : Entries) (key : Value) : Entries :=
  entries.filter fun entry => !(entry.1 == key)

/-- The keys, in order. -/
def keys (entries : Entries) : List Value := entries.map (·.1)

/-- The values, in the order of their keys. -/
def values (entries : Entries) : List Value := entries.map (·.2)

/-- Puts each of a run of entries in turn. -/
def insertAll (entries more : Entries) : Entries :=
  more.foldl (fun made entry => insert made entry.1 entry.2) entries

/-- Groups alternating keys and values; `none` when a key is left without a value. -/
def pairs? : List Value → Option Entries
  | [] => some []
  | [_] => none
  | key :: value :: rest => (pairs? rest).map ((key, value) :: ·)

/-- The entries that alternating keys and values put into an empty map one after the other;
`none` when a key is left without a value. -/
def ofForms? (forms : List Value) : Option Entries := (pairs? forms).map (insertAll [])

/-- Alternating keys and values, in order. -/
def toForms (entries : Entries) : List Value := entries.flatMap fun entry => [entry.1, entry.2]

theorem pairs?_toForms (entries : Entries) : pairs? (toForms entries) = some entries := by
  induction entries with
  | nil => rfl
  | cons entry rest ih =>
    have step : toForms (entry :: rest) = entry.1 :: entry.2 :: toForms rest := rfl
    rw [step, pairs?, ih]
    rfl

theorem eq_toForms_of_pairs? {forms : List Value} {pairs : Entries}
    (paired : pairs? forms = some pairs) : forms = toForms pairs := by
  induction forms using pairs?.induct generalizing pairs with
  | case1 =>
    cases paired
    rfl
  | case2 key => cases paired
  | case3 key value rest ih =>
    rw [pairs?] at paired
    obtain ⟨others, isPaired, rfl⟩ := Option.map_eq_some_iff.mp paired
    rw [ih isPaired]
    rfl

/-- Forms make entries when they alternate between keys and values. -/
theorem ofForms?_eq_some_iff {forms : List Value} {entries : Entries} :
    ofForms? forms = some entries ↔
      ∃ pairs, forms = toForms pairs ∧ entries = insertAll [] pairs := by
  rw [ofForms?, Option.map_eq_some_iff]
  constructor
  · rintro ⟨pairs, paired, rfl⟩
    exact ⟨pairs, eq_toForms_of_pairs? paired, rfl⟩
  · rintro ⟨pairs, rfl, rfl⟩
    exact ⟨pairs, pairs?_toForms pairs, rfl⟩

end SmallLisp.Entries
