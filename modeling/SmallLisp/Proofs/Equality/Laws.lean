import SmallLisp.Proofs.Equality.FiniteMap
import SmallLisp.Proofs.Equality.Transport

/-!
# The laws of equality

On values whose maps have come about by the operations on maps, equality is symmetric and
transitive, and a value is equal to itself unless not-a-number lies in it. Maps are equal when each
finds the keys of the other, with equal values; in which order the keys came in does not matter, nor
which of the two is searched. Lists and vectors are not told apart, however deep they lie.

## Main definitions

* `Value.NaNFree`: a value in which not-a-number does not occur
* `Value.asLists`: a value with lists for its vectors

## Main results

* `Value.beq_self_iff`: the values that are equal to themselves
* `Value.map_beq_iff_find?`: maps are equal when one finds what stands in the other
* `Entries.Made.perm`: the order of keys is no matter of how a map has come about
* `Value.asLists_beq_asLists`: lists and vectors are not told apart at any depth
* `Value.beq_isPartialEquiv`: the laws together
-/

namespace SmallLisp

namespace Value

/-! ### Values equal to themselves -/

/-- A value in which not-a-number does not occur. What cells and procedures hold does not count, for
it is not looked at when values are compared. -/
inductive NaNFree : Value → Prop where
  | number {x : Float} : x.isNaN = false → NaNFree (.number x)
  | seq {kind : SeqKind} {items : List Value} :
      (∀ item ∈ items, NaNFree item) → NaNFree (.seq kind items)
  | map {entries : Entries} : (∀ entry ∈ entries, NaNFree entry.1) →
      (∀ entry ∈ entries, NaNFree entry.2) → NaNFree (.map entries)
  | scalar {value : Value} : value.items? = none → value.entries? = none →
      value.number? = none → NaNFree value

theorem naNFree_number_iff {x : Float} : (Value.number x).NaNFree ↔ x.isNaN = false := by
  refine ⟨fun free => ?_, .number⟩
  cases free with
  | number notNaN => exact notNaN
  | scalar _ _ notNumber => cases notNumber

theorem naNFree_seq_iff {kind : SeqKind} {items : List Value} :
    (Value.seq kind items).NaNFree ↔ ∀ item ∈ items, item.NaNFree := by
  refine ⟨fun free => ?_, .seq⟩
  cases free with
  | seq free => exact free
  | scalar notSeq => cases notSeq

theorem naNFree_map_iff {entries : Entries} : (Value.map entries).NaNFree ↔
    (∀ entry ∈ entries, entry.1.NaNFree) ∧ ∀ entry ∈ entries, entry.2.NaNFree := by
  refine ⟨fun free => ?_, fun ⟨ofKeys, ofValues⟩ => .map ofKeys ofValues⟩
  cases free with
  | map ofKeys ofValues => exact ⟨ofKeys, ofValues⟩
  | scalar _ notMap => cases notMap

theorem number_beq_self_iff {x : Float} :
    (Value.number x == Value.number x) = true ↔ x.isNaN = false := by
  change equal (.number x) (.number x) = true ↔ _
  rw [equal, number?, Option.any_some, Float.beq_self_iff, Float.isNaN_eq_decide_eq_nan,
    decide_eq_false_iff_not]

/-- What is equal to anything is equal to itself. -/
theorem beq_self_of_beq {a b : Value} (ofA : a.Proper) (ofB : b.Proper) (same : (a == b) = true) :
    (a == a) = true :=
  partialEquivOn_proper.trans ofA ofB ofA same (partialEquivOn_proper.symm ofA ofB same)

/-- The values that are equal to themselves are those in which not-a-number does not occur. -/
theorem beq_self_iff {value : Value} (proper : value.Proper) :
    (value == value) = true ↔ value.NaNFree := by
  induction proper with
  | @seq kind items ofItems ih =>
    rw [naNFree_seq_iff, seq_beq_iff]
    constructor
    · rintro ⟨_, _, ⟨⟩, related⟩ item mem
      exact (ih item mem).mp (List.forall₂_same.mp related item mem)
    · intro free
      refine ⟨kind, items, rfl, List.forall₂_same.mpr fun item mem => ?_⟩
      exact (ih item mem).mpr (free item mem)
  | @map entries distinct ofKeys ofValues ihKeys ihValues =>
    rw [naNFree_map_iff, partialEquivOn_proper.map_beq_map_iff distinct distinct ofKeys ofKeys]
    constructor
    · rintro ⟨matched, perm, related⟩
      -- An entry is equal to the one that it is matched with, and so to itself.
      have matches_self (entry : Value × Value) (mem : entry ∈ entries) :
          (entry.1 == entry.1) = true ∧ (entry.2 == entry.2) = true := by
        obtain ⟨other, isMatched, sameKey, sameValue⟩ := exists_mem_of_forall₂ related mem
        have isEntry := perm.mem_iff.mp isMatched
        exact ⟨beq_self_of_beq (ofKeys entry mem) (ofKeys other isEntry) sameKey,
          beq_self_of_beq (ofValues entry mem) (ofValues other isEntry) sameValue⟩
      exact ⟨fun entry mem => (ihKeys entry mem).mp (matches_self entry mem).1,
        fun entry mem => (ihValues entry mem).mp (matches_self entry mem).2⟩
    · rintro ⟨freeKeys, freeValues⟩
      refine ⟨entries, .refl entries, List.forall₂_same.mpr fun entry mem => ?_⟩
      exact ⟨(ihKeys entry mem).mpr (freeKeys entry mem),
        (ihValues entry mem).mpr (freeValues entry mem)⟩
  | @scalar value notSeq notMap =>
    cases isNumber : value.number? with
    | none =>
      have free : value.NaNFree := .scalar notSeq notMap isNumber
      exact iff_of_true (beq_self_of_scalar notSeq notMap isNumber) free
    | some x =>
      obtain rfl : value = .number x := by
        cases value <;> simp_all [number?]
      rw [naNFree_number_iff, number_beq_self_iff]

end Value

/-! ### The order of entries -/

theorem Value.built_map_iff {entries : Entries} :
    (Value.map entries).Built ↔ entries.Made ∧ ∀ entry ∈ entries, entry.2.Built := by
  refine ⟨fun built => ?_, fun ⟨made, ofValues⟩ => .map made ofValues⟩
  cases built with
  | map made ofValues => exact ⟨made, ofValues⟩
  | scalar _ notMap => cases notMap

namespace Entries

variable {entries reordered : Entries}

/-- Entries have come about by the operations on maps when their keys are distinct. -/
theorem made_of_distinct (distinct : entries.Distinct) (ofKeys : ∀ entry ∈ entries, entry.1.Built) :
    entries.Made := by
  have inserted : insertAll [] entries = entries := insertAll_append distinct
  exact inserted ▸ Made.empty.insertAll ofKeys

/-- The entries of a map, in another order, are those of a map in turn. -/
theorem Made.perm (made : entries.Made) (perm : List.Perm entries reordered) : reordered.Made := by
  have both := made.isFiniteMap.keys_distinct
  have distinct : (keys reordered).Pairwise fun earlier later =>
      (earlier == later) = false ∧ (later == earlier) = false :=
    (perm.map Prod.fst).pairwise both fun differ => ⟨differ.2, differ.1⟩
  refine made_of_distinct (distinct_iff.mpr (distinct.imp fun differ => differ.1)) ?_
  intro entry mem
  exact made.keys_built entry.1 (List.mem_map_of_mem (perm.mem_iff.mpr mem))

end Entries

namespace Value

variable {entries others reordered : Entries}

theorem built_map_perm (built : (Value.map entries).Built) (perm : List.Perm entries reordered) :
    (Value.map reordered).Built := by
  obtain ⟨made, ofValues⟩ := built_map_iff.mp built
  exact .map (made.perm perm) fun entry mem => ofValues entry (perm.mem_iff.mpr mem)

/-- Searching a map from its keys or from the key that is sought comes to the same. -/
theorem find?_key_eq {key : Value} (ofKey : key.Proper)
    (ofOthers : ∀ entry ∈ others, entry.1.Proper) :
    List.find? (fun other => key == other.1) others =
      List.find? (fun other => other.1 == key) others :=
  List.find?_congr fun other mem => beq_comm ofKey (ofOthers other mem)

/-- Maps are equal when one has as many entries as the other and finds the keys of the other, with
equal values. -/
theorem map_beq_iff_find? (proper : (Value.map entries).Proper)
    (proper' : (Value.map others).Proper) :
    (Value.map entries == Value.map others) = true ↔ entries.length = others.length ∧
      ∀ entry ∈ entries, ∃ value,
        Entries.find? others entry.1 = some value ∧ (value == entry.2) = true := by
  obtain ⟨_, ofKeys, ofValues⟩ := proper_map_iff.mp proper
  obtain ⟨_, ofKeys', ofValues'⟩ := proper_map_iff.mp proper'
  have inside : within entries others = true ↔ ∀ entry ∈ entries, ∃ value,
      Entries.find? others entry.1 = some value ∧ (value == entry.2) = true := by
    rw [within_iff]
    refine forall₂_congr fun entry mem => ?_
    rw [find?_key_eq (ofKeys entry mem) ofKeys', Entries.find?]
    constructor
    · rintro ⟨other, found, same⟩
      have ofOther := ofValues' other (List.mem_of_find?_eq_some found)
      exact ⟨other.2, by rw [found, Option.map_some],
        partialEquivOn_proper.symm (ofValues entry mem) ofOther same⟩
    · rintro ⟨value, found, same⟩
      obtain ⟨other, isFound, rfl⟩ := Option.map_eq_some_iff.mp found
      have ofOther := ofValues' other (List.mem_of_find?_eq_some isFound)
      exact ⟨other, isFound, partialEquivOn_proper.symm ofOther (ofValues entry mem) same⟩
  rw [map_beq_iff, ← inside]
  constructor
  · rintro ⟨_, ⟨⟩, sameSize, isWithin⟩
    exact ⟨sameSize, isWithin⟩
  · rintro ⟨sameSize, isWithin⟩
    exact ⟨others, rfl, sameSize, isWithin⟩

theorem map_beq_of_perm (proper : (Value.map entries).Proper)
    (proper' : (Value.map reordered).Proper) (perm : List.Perm entries reordered) {value : Value}
    (ofValue : value.Proper) (same : (Value.map entries == value) = true) :
    (Value.map reordered == value) = true := by
  obtain ⟨others, rfl, _⟩ := map_beq_iff.mp same
  obtain ⟨distinct, ofKeys, _⟩ := proper_map_iff.mp proper
  obtain ⟨distinct', ofKeys', _⟩ := proper_map_iff.mp proper'
  obtain ⟨distinct'', ofKeys'', _⟩ := proper_map_iff.mp ofValue
  obtain ⟨matched, permOthers, related⟩ :=
    (partialEquivOn_proper.map_beq_map_iff distinct distinct'' ofKeys ofKeys'').mp same
  -- What the entries are matched with is brought into their new order.
  obtain ⟨matched', related', permMatched⟩ := List.perm_comp_forall₂ perm.symm related
  exact (partialEquivOn_proper.map_beq_map_iff distinct' distinct'' ofKeys' ofKeys'').mpr
    ⟨matched', permMatched.trans permOthers, related'⟩

/-- The order of its entries does not matter to what a map is equal to. -/
theorem map_beq_congr_perm (built : (Value.map entries).Built)
    (perm : List.Perm entries reordered) {value : Value} (ofValue : value.Proper) :
    (Value.map reordered == value) = (Value.map entries == value) := by
  have proper := built.proper
  have proper' := (built_map_perm built perm).proper
  exact Bool.eq_iff_iff.mpr
    ⟨map_beq_of_perm proper' proper perm.symm ofValue, map_beq_of_perm proper proper' perm ofValue⟩

/-! ### Lists and vectors -/

mutual

/-- A value with lists in the place of its vectors, at any depth. -/
def asLists : Value → Value
  | .seq _ items => .list (itemsAsLists items)
  | .map entries => .map (entriesAsLists entries)
  | value => value

/-- Items with lists in the place of vectors. -/
def itemsAsLists : List Value → List Value
  | [] => []
  | item :: rest => asLists item :: itemsAsLists rest

/-- Entries with lists in the place of vectors. -/
def entriesAsLists : List (Value × Value) → List (Value × Value)
  | [] => []
  | (key, value) :: rest => (asLists key, asLists value) :: entriesAsLists rest

end

theorem itemsAsLists_eq (items : List Value) : itemsAsLists items = items.map asLists := by
  induction items with
  | nil => rfl
  | cons item rest ih => rw [itemsAsLists, ih, List.map_cons]

theorem entriesAsLists_eq (entries : Entries) :
    entriesAsLists entries = entries.map (Prod.map asLists asLists) := by
  induction entries with
  | nil => rfl
  | cons entry rest ih =>
    rw [entriesAsLists, ih]
    rfl

theorem items?_asLists (value : Value) :
    value.asLists.items? = value.items?.map (List.map asLists) := by
  cases value with
  | seq kind items => rw [asLists, itemsAsLists_eq]; rfl
  | _ => rfl

theorem entries?_asLists (value : Value) :
    value.asLists.entries? = value.entries?.map (List.map (Prod.map asLists asLists)) := by
  cases value with
  | map entries => rw [asLists, entriesAsLists_eq]; rfl
  | _ => rfl

/-- Lists and vectors are not told apart, however deep they lie. -/
theorem asLists_beq_asLists (a b : Value) : (a.asLists == b.asLists) = (a == b) := by
  change equal _ _ = equal _ _
  cases a with
  | seq kind items =>
    rw [asLists, itemsAsLists_eq, equal, equal, items?_asLists]
    cases b.items? with
    | none => rfl
    | some others => exact equalItems_map fun item mem other _ => asLists_beq_asLists item other
  | map entries =>
    rw [asLists, entriesAsLists_eq, equal, equal, entries?_asLists]
    cases b.entries? with
    | none => rfl
    | some others =>
      have inside := within_map_map
        (fun entry (mem : entry ∈ entries) other (_ : other ∈ others) =>
          asLists_beq_asLists entry.1 other.1)
        (fun entry mem other _ => asLists_beq_asLists entry.2 other.2)
      simp only [Option.map_some, Option.any_some, List.length_map, inside]
  | _ =>
    -- What is no sequence and no map stays as it is.
    cases b <;> rfl
termination_by sizeOf a
decreasing_by
  · exact sizeOf_lt_of_mem_items kind mem
  · exact (sizeOf_lt_of_mem_entries mem).1
  · exact (sizeOf_lt_of_mem_entries mem).2

/-- The laws of equality, on values whose maps have come about by the operations on maps. Equality
is symmetric and transitive, and the values that are equal to themselves are those in which
not-a-number does not occur. The entries of a map make a map again in any other order, which is
equal to the same values; and maps are equal when one has as many entries as the other, and each key
of the one is found in the other with an equal value. Sequences are equal when their items are,
one by one; and of any two values it does not matter which of the sequences in them, at any depth,
are lists and which are vectors. -/
theorem beq_isPartialEquiv :
    (∀ a b : Value, a.Built → b.Built → (a == b) = (b == a)) ∧
    (∀ a b c : Value, a.Built → b.Built → c.Built →
      (a == b) = true → (b == c) = true → (a == c) = true) ∧
    (∀ a : Value, a.Built → ((a == a) = true ↔ a.NaNFree)) ∧
    (∀ entries reordered : Entries, List.Perm entries reordered → (Value.map entries).Built →
      (Value.map reordered).Built ∧ ∀ value : Value, value.Built →
        (Value.map reordered == value) = (Value.map entries == value) ∧
        (value == Value.map reordered) = (value == Value.map entries)) ∧
    (∀ entries others : Entries, (Value.map entries).Built → (Value.map others).Built →
      ((Value.map entries == Value.map others) = true ↔ entries.length = others.length ∧
        ∀ entry ∈ entries, ∃ value,
          Entries.find? others entry.1 = some value ∧ (value == entry.2) = true)) ∧
    (∀ kind kind' items others, (Value.seq kind items == Value.seq kind' others) = true ↔
      List.Forall₂ (fun a b => (a == b) = true) items others) ∧
    ∀ a b : Value, (a.asLists == b.asLists) = (a == b) := by
  refine ⟨fun a b ofA ofB => beq_comm ofA.proper ofB.proper,
    fun a b c ofA ofB ofC => partialEquivOn_proper.trans ofA.proper ofB.proper ofC.proper,
    fun a ofA => beq_self_iff ofA.proper, fun entries reordered perm built => ?_,
    fun entries others built built' => map_beq_iff_find? built.proper built'.proper,
    fun kind kind' items others => ?_, asLists_beq_asLists⟩
  · have built' := built_map_perm built perm
    refine ⟨built', fun value ofValue => ?_⟩
    have turned := map_beq_congr_perm built perm ofValue.proper
    refine ⟨turned, ?_⟩
    rw [beq_comm ofValue.proper built'.proper, turned, beq_comm built.proper ofValue.proper]
  · rw [seq_beq_iff]
    constructor
    · rintro ⟨_, _, ⟨⟩, related⟩
      exact related
    · intro related
      exact ⟨kind', others, rfl, related⟩

/-- Two maps with a list and a vector for a key, and the keys in another order. -/
theorem beq_isPartialEquiv_maps :
    let entries : Entries := [(.list [.nil], .bool true), (.nil, .vector [])]
    let others : Entries := [(.nil, .list []), (.vector [.nil], .bool true)]
    (Value.map entries).Built ∧ (Value.map others).Built ∧
      (Value.map entries == Value.map others) = true ∧
      (Value.map others == Value.map entries) = true ∧ (Value.map entries).NaNFree ∧
      (Value.map entries.reverse == Value.map others) = true ∧
      ∃ value, Entries.find? others (.list [.nil]) = some value ∧ (value == .bool true) = true := by
  intro entries others
  have ofNil : Value.nil.Built := .scalar rfl rfl
  have ofTruth : (Value.bool true).Built := .scalar rfl rfl
  have ofSeq (kind : SeqKind) : (Value.seq kind [.nil]).Built := .seq (by simpa using ofNil)
  have ofEmpty (kind : SeqKind) : (Value.seq kind []).Built := .seq (by simp)
  have built : (Value.map entries).Built :=
    .map (.insert _ (.insert _ .empty (ofSeq .list)) ofNil) (by simp [entries, ofTruth, ofEmpty])
  have built' : (Value.map others).Built :=
    .map (.insert _ (.insert _ .empty ofNil) (ofSeq .vector)) (by simp [others, ofTruth, ofEmpty])
  have same : (Value.map entries == Value.map others) = true := by decide
  obtain ⟨symm, trans, self, reorder, searched, _⟩ := beq_isPartialEquiv
  have turned : (Value.map others == Value.map entries) = true := symm _ _ built built' ▸ same
  have isSelf := trans _ _ _ built built' built same turned
  have reversed := (reorder entries entries.reverse entries.reverse_perm.symm built).2 _ built'
  exact ⟨built, built', same, turned, (self _ built).mp isSelf, reversed.1 ▸ same,
    ((searched entries others built built').mp same).2 _ List.mem_cons_self⟩

end Value

end SmallLisp
