import SmallLisp.Proofs.Number.Bits
import SmallLisp.Value.Entries

/-!
# Equality is symmetric and transitive

Two maps are compared by their sizes and by a search, for each entry of the one, among the entries
of the other. This is an equivalence only because no two keys of a map are equal: then different
entries find different partners, and maps of one size are equal when their entries can be paired
off. That equal keys have the same partners is again symmetry and transitivity, of keys that lie
deeper than the maps, so all three go together in one induction on the size of values.

Not-a-number is not equal to itself, and nothing that holds it is.

## Main definitions

* `Entries.Distinct`: no key is equal to an earlier one
* `Value.Proper`: a value in which all maps have distinct keys
* `Value.PartialEquivOn`: values on which equality is symmetric and transitive
* `Value.SameEntry`: entries with equal keys and equal values

## Main results

* `Value.PartialEquivOn.map_beq_map_iff`: when maps are equal
* `Value.partialEquivOn_proper`: equality is symmetric and transitive on proper values
-/

namespace SmallLisp

/-- No key of a map is equal to an earlier one. -/
def Entries.Distinct (entries : Entries) : Prop :=
  List.Pairwise (fun earlier later => (earlier.1 == later.1) = false) entries

namespace Value

/-- The maps in a value, at any depth, have distinct keys. -/
inductive Proper : Value → Prop where
  | seq {kind : SeqKind} {items : List Value} :
      (∀ item ∈ items, Proper item) → Proper (.seq kind items)
  | map {entries : Entries} :
      entries.Distinct → (∀ entry ∈ entries, Proper entry.1) →
        (∀ entry ∈ entries, Proper entry.2) → Proper (.map entries)
  | scalar {value : Value} : value.items? = none → value.entries? = none → Proper value

/-- On the values of some class, equality is symmetric and transitive. -/
structure PartialEquivOn (P : Value → Prop) : Prop where
  symm : ∀ {a b : Value}, P a → P b → (a == b) = true → (b == a) = true
  trans : ∀ {a b c : Value}, P a → P b → P c →
    (a == b) = true → (b == c) = true → (a == c) = true

/-- Two entries have equal keys and equal values. -/
def SameEntry (entry other : Value × Value) : Prop :=
  (entry.1 == other.1) = true ∧ (entry.2 == other.2) = true

theorem equalItems_iff (items others : List Value) :
    equalItems items others = true ↔ List.Forall₂ (fun a b => (a == b) = true) items others := by
  induction items generalizing others with
  | nil => cases others <;> simp [equalItems]
  | cons item rest ih =>
    cases others with
    | nil => simp [equalItems]
    | cons other others =>
      rw [equalItems, Bool.and_eq_true, ih, List.forall₂_cons]
      rfl

theorem within_iff (entries others : Entries) :
    within entries others = true ↔ ∀ entry ∈ entries, ∃ other,
      List.find? (fun other => entry.1 == other.1) others = some other ∧
        (entry.2 == other.2) = true := by
  induction entries with
  | nil => simp [within]
  | cons entry rest ih =>
    obtain ⟨key, value⟩ := entry
    rw [within, Bool.and_eq_true, ih, List.forall_mem_cons, Option.any_eq_true]
    rfl

theorem seq_beq_iff {kind : SeqKind} {items : List Value} {other : Value} :
    (.seq kind items == other) = true ↔ ∃ kind' others, other = .seq kind' others ∧
      List.Forall₂ (fun a b => (a == b) = true) items others := by
  change equal (.seq kind items) other = true ↔ _
  rw [equal]
  cases other <;> simp [items?, equalItems_iff]

theorem map_beq_iff {entries : Entries} {other : Value} :
    (.map entries == other) = true ↔ ∃ others, other = .map others ∧
      entries.length = others.length ∧ within entries others = true := by
  change equal (.map entries) other = true ↔ _
  rw [equal]
  cases other <;> simp [entries?]

theorem exists_mem_of_forall₂ {α β : Type} {R : α → β → Prop} {items : List α} {others : List β}
    (related : List.Forall₂ R items others) {item : α} (mem : item ∈ items) :
    ∃ other ∈ others, R item other := by
  induction related with
  | nil => cases mem
  | @cons a b as bs first _ ih =>
    rcases List.mem_cons.mp mem with rfl | later
    · exact ⟨b, List.mem_cons_self, first⟩
    · obtain ⟨other, isOther, holds⟩ := ih later
      exact ⟨other, List.mem_cons_of_mem b isOther, holds⟩

namespace PartialEquivOn

variable {P : Value → Prop} (equiv : PartialEquivOn P) {entries others : Entries}
include equiv

/-- Among distinct keys, only one entry matches. -/
theorem find?_eq_of_beq {key : Value} {other : Value × Value} (distinct : others.Distinct)
    (ofOthers : ∀ entry ∈ others, P entry.1) (ofKey : P key) (mem : other ∈ others)
    (same : (key == other.1) = true) :
    List.find? (fun other => key == other.1) others = some other := by
  obtain ⟨before, after, rfl⟩ := List.append_of_mem mem
  refine List.find?_eq_some_iff_append.mpr ⟨same, before, after, rfl, fun earlier isBefore => ?_⟩
  have differs : (earlier.1 == other.1) = false :=
    (List.pairwise_append.mp distinct).2.2 earlier isBefore other List.mem_cons_self
  have ofEarlier := ofOthers earlier (List.mem_append_left _ isBefore)
  -- An earlier match would be equal to the later one.
  by_contra matched
  have matched : (key == earlier.1) = true := by simpa using matched
  have back := equiv.symm ofKey ofEarlier matched
  rw [equiv.trans ofEarlier ofKey (ofOthers other mem) back same] at differs
  cases differs

/-- Maps of the same size, each of whose entries matches one of the other map's, have the same
entries but for their order. -/
theorem exists_perm_of_within (distinct : entries.Distinct)
    (ofEntries : ∀ entry ∈ entries, P entry.1) (ofOthers : ∀ entry ∈ others, P entry.1)
    (sameSize : entries.length = others.length) (inside : within entries others = true) :
    ∃ matched, List.Perm matched others ∧ List.Forall₂ SameEntry entries matched := by
  have paired : ∀ entry ∈ entries, ∃ other, other ∈ others ∧ SameEntry entry other := by
    intro entry mem
    obtain ⟨other, found, sameValue⟩ := (within_iff entries others).mp inside entry mem
    obtain ⟨sameKey, _⟩ := List.find?_eq_some_iff_append.mp found
    exact ⟨other, List.mem_of_find?_eq_some found, sameKey, sameValue⟩
  choose! f ofF same using paired
  -- Two entries have different matches, for their keys would be equal through a common one.
  have nodup : (entries.map f).Nodup := by
    rw [List.Nodup, List.pairwise_map]
    refine List.Pairwise.imp_of_mem (fun {earlier later} isEarlier isLater differs common => ?_)
      distinct
    have first := (same earlier isEarlier).1
    have second := (same later isLater).1
    rw [← common] at second
    have ofCommon := ofOthers _ (ofF earlier isEarlier)
    have back := equiv.symm (ofEntries later isLater) ofCommon second
    rw [equiv.trans (ofEntries earlier isEarlier) ofCommon (ofEntries later isLater) first back]
      at differs
    cases differs
  have subset : entries.map f ⊆ others := by
    intro other mem
    obtain ⟨entry, isEntry, rfl⟩ := List.mem_map.mp mem
    exact ofF entry isEntry
  have perm : List.Perm (entries.map f) others := by
    refine (List.subperm_of_subset nodup subset).perm_of_length_le ?_
    rw [List.length_map]
    exact Nat.le_of_eq sameSize.symm
  refine ⟨entries.map f, perm, ?_⟩
  rw [List.forall₂_map_right_iff, List.forall₂_same]
  exact same

theorem within_of_perm (distinct : others.Distinct)
    (ofEntries : ∀ entry ∈ entries, P entry.1) (ofOthers : ∀ entry ∈ others, P entry.1)
    {matched : Entries} (perm : List.Perm matched others)
    (same : List.Forall₂ SameEntry entries matched) : within entries others = true := by
  rw [within_iff]
  intro entry mem
  obtain ⟨other, isMatched, sameKey, sameValue⟩ := exists_mem_of_forall₂ same mem
  exact ⟨other, equiv.find?_eq_of_beq distinct ofOthers (ofEntries entry mem)
    (perm.mem_iff.mp isMatched) sameKey, sameValue⟩

/-- Maps with distinct keys are equal when their entries, brought into some order, are equal one by
one. -/
theorem map_beq_map_iff (distinct : entries.Distinct) (distinct' : others.Distinct)
    (ofEntries : ∀ entry ∈ entries, P entry.1) (ofOthers : ∀ entry ∈ others, P entry.1) :
    ((.map entries : Value) == .map others) = true ↔
      ∃ matched, List.Perm matched others ∧ List.Forall₂ SameEntry entries matched := by
  rw [map_beq_iff]
  constructor
  · rintro ⟨_, ⟨⟩, sameSize, inside⟩
    exact equiv.exists_perm_of_within distinct ofEntries ofOthers sameSize inside
  · rintro ⟨matched, perm, same⟩
    exact ⟨others, rfl, same.length_eq.trans perm.length_eq,
      equiv.within_of_perm distinct' ofEntries ofOthers perm same⟩

end PartialEquivOn

theorem beq_symm_of_scalar {a b : Value} (notSeq : a.items? = none) (notMap : a.entries? = none)
    (same : (a == b) = true) : (b == a) = true := by
  change equal a b = true at same
  change equal b a = true
  cases a <;> cases b <;>
    simp_all [equal, isNil, bool?, number?, string?, symbol?, keyword?, items?, entries?, cell?,
      native?, procedure?, BEq.symm]

theorem beq_trans_of_scalar {a b c : Value} (notSeq : a.items? = none)
    (notMap : a.entries? = none) (first : (a == b) = true) (second : (b == c) = true) :
    (a == c) = true := by
  change equal a b = true at first
  change equal b c = true at second
  change equal a c = true
  cases a <;> cases b <;>
    simp_all [equal, isNil, bool?, number?, string?, symbol?, keyword?, items?, entries?, cell?,
      native?, procedure?]
  case number.number x y =>
    -- Only numbers can be equal without being the same.
    rw [Option.any_eq_true] at second ⊢
    obtain ⟨z, isNumber, second⟩ := second
    exact ⟨z, isNumber, BEq.trans first second⟩

theorem beq_self_of_scalar {value : Value} (notSeq : value.items? = none)
    (notMap : value.entries? = none) (notNumber : value.number? = none) :
    (value == value) = true := by
  change equal value value = true
  cases value <;>
    simp_all [equal, isNil, bool?, number?, string?, symbol?, keyword?, items?, entries?, cell?,
      native?, procedure?]

theorem proper_seq_iff {kind : SeqKind} {items : List Value} :
    (Value.seq kind items).Proper ↔ ∀ item ∈ items, item.Proper := by
  refine ⟨fun proper => ?_, .seq⟩
  cases proper with
  | seq proper => exact proper
  | scalar notSeq => cases notSeq

theorem proper_map_iff {entries : Entries} :
    (Value.map entries).Proper ↔ entries.Distinct ∧
      (∀ entry ∈ entries, entry.1.Proper) ∧ ∀ entry ∈ entries, entry.2.Proper := by
  refine ⟨fun proper => ?_, fun ⟨distinct, ofKeys, ofValues⟩ => .map distinct ofKeys ofValues⟩
  cases proper with
  | map distinct ofKeys ofValues => exact ⟨distinct, ofKeys, ofValues⟩
  | scalar _ notMap => cases notMap

/-- The proper values of a size below a bound. -/
def ProperBelow (bound : Nat) (value : Value) : Prop := value.Proper ∧ sizeOf value < bound

namespace ProperBelow

variable {bound : Nat}

theorem of_mem_items {kind : SeqKind} {items : List Value}
    (below : ProperBelow (bound + 1) (.seq kind items)) :
    ∀ item ∈ items, ProperBelow bound item := by
  intro item mem
  have smaller := sizeOf_lt_of_mem_items kind mem
  exact ⟨proper_seq_iff.mp below.1 item mem, by have := below.2; omega⟩

theorem of_mem_entries {entries : Entries} (below : ProperBelow (bound + 1) (.map entries)) :
    ∀ entry ∈ entries, ProperBelow bound entry.1 ∧ ProperBelow bound entry.2 := by
  intro entry mem
  obtain ⟨_, ofKeys, ofValues⟩ := proper_map_iff.mp below.1
  obtain ⟨smallerKey, smallerValue⟩ := sizeOf_lt_of_mem_entries mem
  have := below.2
  exact ⟨⟨ofKeys entry mem, by omega⟩, ⟨ofValues entry mem, by omega⟩⟩

end ProperBelow

theorem forall₂_symm_of_mem {α : Type} {R : α → α → Prop} {items others : List α}
    (symm : ∀ a ∈ items, ∀ b ∈ others, R a b → R b a) (related : List.Forall₂ R items others) :
    List.Forall₂ R others items := by
  induction related with
  | nil => exact .nil
  | @cons a b as bs first _ ih =>
    refine .cons (symm a List.mem_cons_self b List.mem_cons_self first) (ih fun x isX y isY => ?_)
    exact symm x (List.mem_cons_of_mem a isX) y (List.mem_cons_of_mem b isY)

theorem forall₂_trans_of_mem {α : Type} {R : α → α → Prop} {first second third : List α}
    (trans : ∀ a ∈ first, ∀ b ∈ second, ∀ c ∈ third, R a b → R b c → R a c)
    (related : List.Forall₂ R first second) (related' : List.Forall₂ R second third) :
    List.Forall₂ R first third := by
  induction related generalizing third with
  | nil =>
    cases related'
    exact .nil
  | @cons a b as bs heads _ ih =>
    cases related' with
    | @cons _ c _ cs heads' tails' =>
      have inHeads := trans a List.mem_cons_self b List.mem_cons_self c List.mem_cons_self
      refine .cons (inHeads heads heads') (ih (fun x isX y isY z isZ => ?_) tails')
      exact trans x (List.mem_cons_of_mem a isX) y (List.mem_cons_of_mem b isY) z
        (List.mem_cons_of_mem c isZ)

namespace PartialEquivOn

variable {P : Value → Prop} (equiv : PartialEquivOn P)
include equiv

theorem sameEntry_symm {entry other : Value × Value} (ofEntry : P entry.1 ∧ P entry.2)
    (ofOther : P other.1 ∧ P other.2) (same : SameEntry entry other) : SameEntry other entry :=
  ⟨equiv.symm ofEntry.1 ofOther.1 same.1, equiv.symm ofEntry.2 ofOther.2 same.2⟩

theorem sameEntry_trans {a b c : Value × Value} (ofA : P a.1 ∧ P a.2) (ofB : P b.1 ∧ P b.2)
    (ofC : P c.1 ∧ P c.2) (first : SameEntry a b) (second : SameEntry b c) : SameEntry a c :=
  ⟨equiv.trans ofA.1 ofB.1 ofC.1 first.1 second.1, equiv.trans ofA.2 ofB.2 ofC.2 first.2 second.2⟩

variable {entries others more : Entries}

theorem map_beq_symm (distinct : entries.Distinct) (distinct' : others.Distinct)
    (ofEntries : ∀ entry ∈ entries, P entry.1 ∧ P entry.2)
    (ofOthers : ∀ entry ∈ others, P entry.1 ∧ P entry.2)
    (same : ((.map entries : Value) == .map others) = true) :
    ((.map others : Value) == .map entries) = true := by
  have ofKeys := fun entry mem => (ofEntries entry mem).1
  have ofKeys' := fun entry mem => (ofOthers entry mem).1
  obtain ⟨matched, perm, related⟩ :=
    (equiv.map_beq_map_iff distinct distinct' ofKeys ofKeys').mp same
  have back : List.Forall₂ SameEntry matched entries :=
    forall₂_symm_of_mem (fun a isA b isB =>
      equiv.sameEntry_symm (ofEntries a isA) (ofOthers b (perm.mem_iff.mp isB))) related
  obtain ⟨matched', related', perm'⟩ := List.perm_comp_forall₂ perm.symm back
  exact (equiv.map_beq_map_iff distinct' distinct ofKeys' ofKeys).mpr ⟨matched', perm', related'⟩

theorem map_beq_trans (distinct : entries.Distinct) (distinct' : others.Distinct)
    (distinct'' : more.Distinct) (ofEntries : ∀ entry ∈ entries, P entry.1 ∧ P entry.2)
    (ofOthers : ∀ entry ∈ others, P entry.1 ∧ P entry.2)
    (ofMore : ∀ entry ∈ more, P entry.1 ∧ P entry.2)
    (first : ((.map entries : Value) == .map others) = true)
    (second : ((.map others : Value) == .map more) = true) :
    ((.map entries : Value) == .map more) = true := by
  have ofKeys := fun entry mem => (ofEntries entry mem).1
  have ofKeys' := fun entry mem => (ofOthers entry mem).1
  have ofKeys'' := fun entry mem => (ofMore entry mem).1
  obtain ⟨matched, perm, related⟩ :=
    (equiv.map_beq_map_iff distinct distinct' ofKeys ofKeys').mp first
  obtain ⟨matched', perm', related'⟩ :=
    (equiv.map_beq_map_iff distinct' distinct'' ofKeys' ofKeys'').mp second
  -- The second map's entries are brought into the order of the first one's.
  obtain ⟨reordered, relatedOn, permOn⟩ := List.perm_comp_forall₂ perm related'
  have permAll := permOn.trans perm'
  refine (equiv.map_beq_map_iff distinct distinct'' ofKeys ofKeys'').mpr ⟨reordered, permAll, ?_⟩
  refine forall₂_trans_of_mem (fun a isA b isB c isC => ?_) related relatedOn
  exact equiv.sameEntry_trans (ofEntries a isA) (ofOthers b (perm.mem_iff.mp isB))
    (ofMore c (permAll.mem_iff.mp isC))

end PartialEquivOn

theorem properBelow_symm {bound : Nat} (equiv : PartialEquivOn (ProperBelow bound)) {a b : Value}
    (ofA : ProperBelow (bound + 1) a) (ofB : ProperBelow (bound + 1) b) (same : (a == b) = true) :
    (b == a) = true := by
  cases a with
  | seq kind items =>
    obtain ⟨kind', others, rfl, related⟩ := seq_beq_iff.mp same
    refine seq_beq_iff.mpr ⟨kind, items, rfl, forall₂_symm_of_mem (fun x isX y isY => ?_) related⟩
    exact equiv.symm (ofA.of_mem_items x isX) (ofB.of_mem_items y isY)
  | map entries =>
    obtain ⟨others, rfl, _⟩ := map_beq_iff.mp same
    exact equiv.map_beq_symm (proper_map_iff.mp ofA.1).1 (proper_map_iff.mp ofB.1).1
      ofA.of_mem_entries ofB.of_mem_entries same
  | _ => exact beq_symm_of_scalar rfl rfl same

theorem properBelow_trans {bound : Nat} (equiv : PartialEquivOn (ProperBelow bound))
    {a b c : Value} (ofA : ProperBelow (bound + 1) a) (ofB : ProperBelow (bound + 1) b)
    (ofC : ProperBelow (bound + 1) c) (first : (a == b) = true) (second : (b == c) = true) :
    (a == c) = true := by
  cases a with
  | seq kind items =>
    obtain ⟨_, others, rfl, related⟩ := seq_beq_iff.mp first
    obtain ⟨kind', more, rfl, related'⟩ := seq_beq_iff.mp second
    refine seq_beq_iff.mpr ⟨kind', more, rfl,
      forall₂_trans_of_mem (fun x isX y isY z isZ => ?_) related related'⟩
    exact equiv.trans (ofA.of_mem_items x isX) (ofB.of_mem_items y isY) (ofC.of_mem_items z isZ)
  | map entries =>
    obtain ⟨others, rfl, _⟩ := map_beq_iff.mp first
    obtain ⟨more, rfl, _⟩ := map_beq_iff.mp second
    exact equiv.map_beq_trans (proper_map_iff.mp ofA.1).1 (proper_map_iff.mp ofB.1).1
      (proper_map_iff.mp ofC.1).1 ofA.of_mem_entries ofB.of_mem_entries ofC.of_mem_entries first
      second
  | _ => exact beq_trans_of_scalar rfl rfl first second

theorem partialEquivOn_properBelow (bound : Nat) : PartialEquivOn (ProperBelow bound) := by
  induction bound with
  | zero => exact ⟨fun ofA => absurd ofA.2 (Nat.not_lt_zero _),
      fun ofA => absurd ofA.2 (Nat.not_lt_zero _)⟩
  | succ bound ih => exact ⟨properBelow_symm ih, properBelow_trans ih⟩

/-- Equality is symmetric and transitive on all values whose maps have distinct keys. -/
theorem partialEquivOn_proper : PartialEquivOn Proper := by
  refine ⟨fun {a b} ofA ofB => ?_, fun {a b c} ofA ofB ofC => ?_⟩
  · exact (partialEquivOn_properBelow (sizeOf a + sizeOf b + 1)).symm ⟨ofA, by omega⟩
      ⟨ofB, by omega⟩
  · exact (partialEquivOn_properBelow (sizeOf a + sizeOf b + sizeOf c + 1)).trans
      ⟨ofA, by omega⟩ ⟨ofB, by omega⟩ ⟨ofC, by omega⟩

theorem beq_comm {a b : Value} (ofA : a.Proper) (ofB : b.Proper) : (a == b) = (b == a) :=
  Bool.eq_iff_iff.mpr ⟨partialEquivOn_proper.symm ofA ofB, partialEquivOn_proper.symm ofB ofA⟩

/-- Equality of two values is that of others to which they are equal. -/
theorem beq_congr {a a' b b' : Value} (ofA : a.Proper) (ofA' : a'.Proper) (ofB : b.Proper)
    (ofB' : b'.Proper) (first : (a' == a) = true) (second : (b' == b) = true) :
    (a' == b') = (a == b) := by
  have back := partialEquivOn_proper.symm ofA' ofA first
  have back' := partialEquivOn_proper.symm ofB' ofB second
  rw [Bool.eq_iff_iff]
  constructor
  · intro same
    exact partialEquivOn_proper.trans ofA ofA' ofB back
      (partialEquivOn_proper.trans ofA' ofB' ofB same second)
  · intro same
    exact partialEquivOn_proper.trans ofA' ofA ofB' first
      (partialEquivOn_proper.trans ofA ofB ofB' same back')

end Value

end SmallLisp
