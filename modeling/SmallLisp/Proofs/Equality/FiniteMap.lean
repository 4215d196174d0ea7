import SmallLisp.Evaluation
import SmallLisp.Proofs.Equality.PartialEquivalence
import SmallLisp.Proofs.Evaluation.Outcome

/-!
# Maps are finite maps up to equality

A map is looked up by going through its entries, and whatever changes it goes through them too. What
makes this come to the operations of a finite map is that no two of its keys are equal and that
equality of keys is symmetric and transitive. The second holds of keys inside which all maps have
distinct keys in turn, so both are shown at once, of what the operations on maps make out of one
another at any depth.

Equality need not be reflexive: not-a-number can be put into a map, where it is never found.

## Main definitions

* `Value.Built`, `Entries.Made`: what has come about by the operations on maps
* `Entries.IsFiniteMap`: the laws of a finite map whose keys count up to equality

## Main results

* `Value.Built.proper`: what the operations on maps make has distinct keys, at any depth
* `Entries.find?_insert`, `Entries.find?_erase`: what is found after a change
* `Entries.made_isFiniteMap`: what the operations on maps make is a finite map
-/

namespace SmallLisp

mutual

/-- A value in which every map has been made by the operations on maps. What a procedure holds
does not count, for it is not looked at when values are compared. -/
inductive Value.Built : Value → Prop where
  | seq {kind : SeqKind} {items : List Value} :
      (∀ item ∈ items, item.Built) → (Value.seq kind items).Built
  | map {entries : Entries} :
      entries.Made → (∀ entry ∈ entries, entry.2.Built) → (Value.map entries).Built
  | scalar {value : Value} : value.items? = none → value.entries? = none → value.Built

/-- A map that has come about by the operations on maps, from keys of which the same holds. -/
inductive Entries.Made : Entries → Prop where
  | empty : Entries.Made []
  | insert {entries : Entries} {key : Value} (value : Value) :
      entries.Made → key.Built → (entries.insert key value).Made
  | erase {entries : Entries} (key : Value) : entries.Made → (entries.erase key).Made
  | ofForms {forms : List Value} {entries : Entries} :
      (∀ form ∈ forms, form.Built) → Entries.ofForms? forms = some entries → entries.Made

end

namespace Entries

variable {entries : Entries} {key stored query value old : Value} {entry : Value × Value}

@[simp] theorem find?_nil : find? [] query = none := rfl

theorem find?_cons (entry : Value × Value) (entries : Entries) (query : Value) :
    find? (entry :: entries) query =
      if (entry.1 == query) = true then some entry.2 else find? entries query := by
  unfold find?
  rw [List.find?_cons]
  cases entry.1 == query <;> rfl

theorem erase_cons (entry : Value × Value) (entries : Entries) (key : Value) :
    erase (entry :: entries) key =
      if (entry.1 == key) = true then erase entries key else entry :: erase entries key := by
  unfold erase
  rw [List.filter_cons]
  cases entry.1 == key <;> rfl

theorem find?_eq_none_iff :
    find? entries query = none ↔ ∀ key ∈ keys entries, (key == query) = false := by
  unfold find? keys
  simp

/-- A value that is found stands behind a key that is equal to the one asked for, and no earlier
key is. -/
theorem exists_of_find? (found : find? entries query = some value) :
    ∃ before stored after, entries = before ++ (stored, value) :: after ∧
      (stored == query) = true ∧ find? before query = none := by
  obtain ⟨entry, isFirst, rfl⟩ := Option.map_eq_some_iff.mp found
  obtain ⟨same, before, after, rfl, earlier⟩ := List.find?_eq_some_iff_append.mp isFirst
  refine ⟨before, entry.1, after, rfl, same, find?_eq_none_iff.mpr fun key mem => ?_⟩
  obtain ⟨other, isBefore, rfl⟩ := List.mem_map.mp mem
  simpa using earlier other isBefore

theorem insert_of_find?_eq_none (absent : find? entries key = none) (value : Value) :
    insert entries key value = entries ++ [(key, value)] := by
  induction entries with
  | nil => rfl
  | cons entry rest ih =>
    rw [find?_cons] at absent
    split at absent
    · cases absent
    · rename_i differs
      rw [insert, if_neg differs, ih absent, List.cons_append]

theorem erase_of_find?_eq_none (absent : find? entries key = none) :
    erase entries key = entries := by
  induction entries with
  | nil => rfl
  | cons entry rest ih =>
    rw [find?_cons] at absent
    split at absent
    · cases absent
    · rename_i differs
      rw [erase_cons, if_neg differs, ih absent]

theorem find?_append_of_beq {before after : Entries} (absent : find? before query = none)
    (same : (stored == query) = true) :
    find? (before ++ (stored, value) :: after) query = some value := by
  induction before with
  | nil => rw [List.nil_append, find?_cons, if_pos same]
  | cons entry rest ih =>
    rw [find?_cons] at absent
    split at absent
    · cases absent
    · rename_i differs
      rw [List.cons_append, find?_cons, if_neg differs, ih absent]

/-- A key that is there already stays what it is and where it is. -/
theorem insert_append_of_beq {before after : Entries} (absent : find? before key = none)
    (same : (stored == key) = true) (old value : Value) :
    insert (before ++ (stored, old) :: after) key value = before ++ (stored, value) :: after := by
  induction before with
  | nil => rw [List.nil_append, insert, if_pos same, List.nil_append]
  | cons entry rest ih =>
    rw [find?_cons] at absent
    split at absent
    · cases absent
    · rename_i differs
      rw [List.cons_append, insert, if_neg differs, ih absent, List.cons_append]

theorem keys_insert (entries : Entries) (key value : Value) :
    keys (insert entries key value) =
      if (find? entries key).isSome then keys entries else keys entries ++ [key] := by
  cases found : find? entries key with
  | none =>
    rw [insert_of_find?_eq_none found]
    simp [keys]
  | some old =>
    obtain ⟨before, stored, after, rfl, same, absent⟩ := exists_of_find? found
    rw [insert_append_of_beq absent same]
    simp [keys]

theorem distinct_iff : entries.Distinct ↔
    (keys entries).Pairwise fun earlier later => (earlier == later) = false := by
  rw [keys, List.pairwise_map]
  rfl

theorem Distinct.insert (distinct : entries.Distinct) (key value : Value) :
    (insert entries key value).Distinct := by
  rw [distinct_iff, keys_insert]
  rw [distinct_iff] at distinct
  split
  · exact distinct
  · rename_i absent
    rw [Option.isSome_iff_ne_none, not_not, find?_eq_none_iff] at absent
    refine List.pairwise_append.mpr ⟨distinct, List.pairwise_singleton _ _, ?_⟩
    intro stored isKey other isNew
    rw [List.mem_singleton.mp isNew]
    exact absent stored isKey

theorem Distinct.erase (distinct : entries.Distinct) (key : Value) :
    (erase entries key).Distinct :=
  distinct.filter _

theorem Distinct.insertAll (distinct : entries.Distinct) (more : Entries) :
    (insertAll entries more).Distinct := by
  induction more generalizing entries with
  | nil => exact distinct
  | cons entry rest ih => exact ih (distinct.insert entry.1 entry.2)

/-- Entries with distinct keys are put behind one another. -/
theorem insertAll_append {more : Entries} (distinct : Distinct (entries ++ more)) :
    insertAll entries more = entries ++ more := by
  induction more generalizing entries with
  | nil => exact (List.append_nil entries).symm
  | cons entry rest ih =>
    have absent : find? entries entry.1 = none := by
      refine find?_eq_none_iff.mpr fun key isKey => ?_
      obtain ⟨other, isEarlier, rfl⟩ := List.mem_map.mp isKey
      exact (List.pairwise_append.mp distinct).2.2 other isEarlier entry List.mem_cons_self
    have cut : entries ++ entry :: rest = insert entries entry.1 entry.2 ++ rest := by
      rw [insert_of_find?_eq_none absent, List.append_assoc, List.singleton_append]
    rw [cut] at distinct ⊢
    exact ih distinct

theorem mem_keys_insert (mem : stored ∈ keys (insert entries key value)) :
    stored ∈ keys entries ∨ stored = key := by
  rw [keys_insert] at mem
  split at mem
  · exact .inl mem
  · simpa using mem

theorem mem_keys_insertAll {more : Entries} (mem : stored ∈ keys (insertAll entries more)) :
    stored ∈ keys entries ∨ stored ∈ keys more := by
  induction more generalizing entries with
  | nil => exact .inl mem
  | cons entry rest ih =>
    rcases ih mem with inserted | later
    · rcases mem_keys_insert inserted with earlier | rfl
      · exact .inl earlier
      · exact .inr List.mem_cons_self
    · exact .inr (List.mem_cons_of_mem _ later)

theorem mem_of_ofForms? {forms : List Value} (made : ofForms? forms = some entries)
    (mem : stored ∈ keys entries) : stored ∈ forms := by
  obtain ⟨pairs, rfl, rfl⟩ := ofForms?_eq_some_iff.mp made
  rcases mem_keys_insertAll mem with none | isKey
  · cases none
  · obtain ⟨pair, isPair, rfl⟩ := List.mem_map.mp isKey
    exact List.mem_flatMap.mpr ⟨pair, isPair, List.mem_cons_self⟩

end Entries

theorem Entries.Made.distinct {entries : Entries} : entries.Made → entries.Distinct
  | .empty => .nil
  | .insert _ made _ => made.distinct.insert _ _
  | .erase key made => made.distinct.erase key
  | .ofForms _ made => by
    obtain ⟨pairs, _, rfl⟩ := Entries.ofForms?_eq_some_iff.mp made
    exact Entries.Distinct.insertAll .nil pairs

theorem Entries.Made.keys_built {entries : Entries} :
    entries.Made → ∀ key ∈ entries.keys, key.Built
  | .empty => by simp [keys]
  | .insert _ made ofKey => fun stored mem => by
    rcases mem_keys_insert mem with isKey | rfl
    · exact made.keys_built stored isKey
    · exact ofKey
  | .erase key made => fun stored mem => by
    obtain ⟨entry, isEntry, rfl⟩ := List.mem_map.mp mem
    exact made.keys_built entry.1 (List.mem_map_of_mem (List.mem_filter.mp isEntry).1)
  | .ofForms built made => fun stored mem => built stored (mem_of_ofForms? made mem)

mutual

/-- What the operations on maps make has distinct keys, at any depth. -/
theorem Value.Built.proper {value : Value} : value.Built → value.Proper
  | .seq items => .seq fun item mem => (items item mem).proper
  | .map made ofValues =>
    .map made.distinct made.keys_proper fun entry mem => (ofValues entry mem).proper
  | .scalar notSeq notMap => .scalar notSeq notMap

theorem Entries.Made.keys_proper {entries : Entries} :
    entries.Made → ∀ entry ∈ entries, entry.1.Proper
  | .empty => by simp
  | .insert _ made ofKey => fun entry mem => by
    rcases Entries.mem_keys_insert (List.mem_map_of_mem mem) with isKey | isNew
    · obtain ⟨other, isOther, same⟩ := List.mem_map.mp isKey
      exact same ▸ made.keys_proper other isOther
    · exact isNew ▸ ofKey.proper
  | .erase key made => fun entry mem => made.keys_proper entry (List.mem_filter.mp mem).1
  | .ofForms built made => fun entry mem =>
    (built entry.1 (Entries.mem_of_ofForms? made (List.mem_map_of_mem mem))).proper

end

namespace Entries

open Value (partialEquivOn_proper)

section Laws

variable {entries : Entries} {key query stored : Value}

/-- A value put under a key is found under the keys equal to it, and nothing else changes. -/
theorem find?_insert (ofKeys : ∀ entry ∈ entries, entry.1.Proper) (ofKey : key.Proper)
    (ofQuery : query.Proper) (value : Value) :
    find? (insert entries key value) query =
      if (query == key) = true then some value else find? entries query := by
  induction entries with
  | nil =>
    rw [insert, find?_cons]
    have turned : (key == query) = true ↔ (query == key) = true :=
      ⟨partialEquivOn_proper.symm ofKey ofQuery, partialEquivOn_proper.symm ofQuery ofKey⟩
    simp only [turned]
  | cons entry rest ih =>
    obtain ⟨stored, old⟩ := entry
    rw [List.forall_mem_cons] at ofKeys
    have ih := ih ofKeys.2
    rw [insert]
    by_cases same : (query == key) = true
    · have turned := partialEquivOn_proper.symm ofQuery ofKey same
      rw [if_pos same] at ih ⊢
      split
      · rename_i replaced
        rw [find?_cons, if_pos (partialEquivOn_proper.trans ofKeys.1 ofKey ofQuery replaced turned)]
      · rename_i kept
        -- What is equal to the query is equal to the key.
        have differs : ¬ (stored == query) = true := fun found =>
          kept (partialEquivOn_proper.trans ofKeys.1 ofQuery ofKey found same)
        rw [find?_cons, if_neg differs, ih]
    · rw [if_neg same] at ih ⊢
      split
      · rename_i replaced
        have differs : ¬ (stored == query) = true := fun found =>
          same (partialEquivOn_proper.trans ofQuery ofKeys.1 ofKey
            (partialEquivOn_proper.symm ofKeys.1 ofQuery found) replaced)
        rw [find?_cons, find?_cons, if_neg differs, if_neg differs]
      · rw [find?_cons, find?_cons, ih]

/-- A key that is removed is not found, nor are the keys equal to it, and nothing else changes. -/
theorem find?_erase (ofKeys : ∀ entry ∈ entries, entry.1.Proper) (ofKey : key.Proper)
    (ofQuery : query.Proper) :
    find? (erase entries key) query =
      if (query == key) = true then none else find? entries query := by
  induction entries with
  | nil => simp [erase]
  | cons entry rest ih =>
    rw [List.forall_mem_cons] at ofKeys
    have ih := ih ofKeys.2
    rw [erase_cons]
    by_cases same : (query == key) = true
    · rw [if_pos same] at ih ⊢
      split
      · exact ih
      · rename_i kept
        have differs : ¬ (entry.1 == query) = true := fun found =>
          kept (partialEquivOn_proper.trans ofKeys.1 ofQuery ofKey found same)
        rw [find?_cons, if_neg differs, ih]
    · rw [if_neg same] at ih ⊢
      split
      · rename_i removed
        have differs : ¬ (entry.1 == query) = true := fun found =>
          same (partialEquivOn_proper.trans ofQuery ofKeys.1 ofKey
            (partialEquivOn_proper.symm ofKeys.1 ofQuery found) removed)
        rw [ih, find?_cons, if_neg differs]
      · rw [find?_cons, find?_cons, ih]

/-- What is found is what stands behind a key that is equal. -/
theorem find?_eq_some_iff (distinct : entries.Distinct)
    (ofKeys : ∀ entry ∈ entries, entry.1.Proper) (ofQuery : query.Proper) {value : Value} :
    find? entries query = some value ↔
      ∃ stored, (stored, value) ∈ entries ∧ (stored == query) = true := by
  constructor
  · intro found
    obtain ⟨before, stored, after, rfl, same, _⟩ := exists_of_find? found
    exact ⟨stored, List.mem_append_right _ List.mem_cons_self, same⟩
  · rintro ⟨stored, mem, same⟩
    obtain ⟨before, after, rfl⟩ := List.append_of_mem mem
    refine find?_append_of_beq (find?_eq_none_iff.mpr fun earlier isKey => ?_) same
    obtain ⟨entry, isEarlier, rfl⟩ := List.mem_map.mp isKey
    have differs : (entry.1 == stored) = false :=
      (List.pairwise_append.mp distinct).2.2 entry isEarlier _ List.mem_cons_self
    -- An earlier key that is equal to the query is equal to the later one.
    by_contra found
    have found : (entry.1 == query) = true := by simpa using found
    have turned := partialEquivOn_proper.symm (ofKeys _ mem) ofQuery same
    have ofEarlier := ofKeys entry (List.mem_append_left _ isEarlier)
    rw [partialEquivOn_proper.trans ofEarlier ofQuery (ofKeys _ mem) found turned] at differs
    cases differs

/-- Of a key that is there, one entry is removed. -/
theorem erase_append_of_beq {before after : Entries} {old : Value}
    (distinct : Distinct (before ++ (stored, old) :: after))
    (ofKeys : ∀ entry ∈ before ++ (stored, old) :: after, entry.1.Proper) (ofKey : key.Proper)
    (absent : find? before key = none) (same : (stored == key) = true) :
    erase (before ++ (stored, old) :: after) key = before ++ after := by
  have ofStored : stored.Proper :=
    ofKeys (stored, old) (List.mem_append_right _ List.mem_cons_self)
  have later : find? after key = none := by
    refine find?_eq_none_iff.mpr fun other isKey => ?_
    obtain ⟨entry, isLater, rfl⟩ := List.mem_map.mp isKey
    have differs : (stored == entry.1) = false :=
      (List.pairwise_cons.mp (List.pairwise_append.mp distinct).2.1).1 entry isLater
    have ofLater := ofKeys entry (List.mem_append_right _ (List.mem_cons_of_mem _ isLater))
    by_contra found
    have found : (entry.1 == key) = true := by simpa using found
    have turned := partialEquivOn_proper.symm ofLater ofKey found
    rw [partialEquivOn_proper.trans ofStored ofKey ofLater same turned] at differs
    cases differs
  have kept : erase ((stored, old) :: after) key = erase after key := by
    rw [erase_cons, if_pos same]
  have cut : erase (before ++ (stored, old) :: after) key =
      erase before key ++ erase ((stored, old) :: after) key := List.filter_append _ _
  rw [cut, kept, erase_of_find?_eq_none absent, erase_of_find?_eq_none later]

end Laws

/-! ### Finite maps -/

/-- The laws of a finite map in which keys count up to equality, and the order in which the keys
have come in is kept. Keys and what is asked for are values of any kind, as long as the maps in
them have come about by the operations on maps. -/
structure IsFiniteMap (entries : Entries) : Prop where
  /-- No two entries have equal keys, whichever is compared with the other. -/
  keys_distinct : (keys entries).Pairwise fun earlier later =>
    (earlier == later) = false ∧ (later == earlier) = false
  /-- What is found are the values of the entries, under the keys equal to theirs. -/
  find?_iff : ∀ query, query.Built → ∀ value,
    find? entries query = some value ↔
      ∃ stored, (stored, value) ∈ entries ∧ (stored == query) = true
  contains_iff : ∀ query,
    contains entries query = true ↔ ∃ stored ∈ keys entries, (stored == query) = true
  /-- Keys and values stand in the order of the entries, and are as many. -/
  zip_keys_values : (keys entries).zip (values entries) = entries ∧
    (keys entries).length = entries.length ∧ (values entries).length = entries.length
  /-- A map is made again from its alternating keys and values. -/
  ofForms?_toForms : ofForms? (toForms entries) = some entries
  find?_insert : ∀ key query, key.Built → query.Built → ∀ value,
    find? (insert entries key value) query =
      if (query == key) = true then some value else find? entries query
  find?_erase : ∀ key query, key.Built → query.Built →
    find? (erase entries key) query =
      if (query == key) = true then none else find? entries query
  /-- A new key comes last, and removing it changes nothing. -/
  of_absent : ∀ key, contains entries key = false →
    (∀ value, insert entries key value = entries ++ [(key, value)]) ∧ erase entries key = entries
  /-- A value put under a key that is there replaces the one that stands there, behind the stored
  key; and removing the key removes that entry from among the others. -/
  of_present : ∀ key, key.Built → contains entries key = true →
    ∃ before stored old after, entries = before ++ (stored, old) :: after ∧
      (stored == key) = true ∧
      (∀ value, insert entries key value = before ++ (stored, value) :: after) ∧
      erase entries key = before ++ after

theorem Made.isFiniteMap {entries : Entries} (made : entries.Made) : entries.IsFiniteMap where
  keys_distinct := by
    have ofKeys := made.keys_proper
    rw [keys, List.pairwise_map]
    refine made.distinct.imp_of_mem fun {earlier later} isEarlier isLater differs => ?_
    refine ⟨differs, ?_⟩
    by_contra same
    have same : (later.1 == earlier.1) = true := by simpa using same
    have turned := partialEquivOn_proper.symm (ofKeys later isLater) (ofKeys earlier isEarlier) same
    rw [turned] at differs
    cases differs
  find?_iff query ofQuery value :=
    find?_eq_some_iff made.distinct made.keys_proper ofQuery.proper
  contains_iff query := by simp [contains, find?, keys]
  zip_keys_values := by simp [keys, values, List.zip_map']
  ofForms?_toForms := by
    rw [ofForms?, pairs?_toForms, Option.map_some]
    exact congrArg some (insertAll_append made.distinct)
  find?_insert key query ofKey ofQuery :=
    Entries.find?_insert made.keys_proper ofKey.proper ofQuery.proper
  find?_erase key query ofKey ofQuery :=
    Entries.find?_erase made.keys_proper ofKey.proper ofQuery.proper
  of_absent key absent := by
    have absent : find? entries key = none := by simpa [contains] using absent
    exact ⟨insert_of_find?_eq_none absent, erase_of_find?_eq_none absent⟩
  of_present key ofKey present := by
    obtain ⟨old, found⟩ := Option.isSome_iff_exists.mp present
    obtain ⟨before, stored, after, rfl, same, absent⟩ := exists_of_find? found
    refine ⟨before, stored, old, after, rfl, same, insert_append_of_beq absent same old, ?_⟩
    exact erase_append_of_beq made.distinct made.keys_proper ofKey.proper absent same

/-! ### The program's operations on maps -/

theorem Made.insertAll {entries more : Entries} (made : entries.Made)
    (ofMore : ∀ entry ∈ more, entry.1.Built) : (insertAll entries more).Made := by
  induction more generalizing entries with
  | nil => exact made
  | cons entry rest ih =>
    rw [List.forall_mem_cons] at ofMore
    exact ih (made.insert entry.2 ofMore.1) ofMore.2

theorem Made.eraseAll {entries : Entries} (made : entries.Made) (removed : List Value) :
    (removed.foldl Entries.erase entries).Made := by
  induction removed generalizing entries with
  | nil => exact made
  | cons key rest ih => exact ih (made.erase key)

theorem made_of_hashMap {forms : List Value} {result : Entries} (built : ∀ form ∈ forms, form.Built)
    (runs : Operation.run .hashMap forms = .ok (.map result)) : result.Made := by
  rw [Operation.run, Operation.entriesOf] at runs
  cases made : ofForms? forms with
  | none =>
    rw [made] at runs
    cases runs
  | some entries =>
    rw [made] at runs
    cases runs
    exact .ofForms built made

theorem Made.of_assoc {entries result : Entries} {forms : List Value} (made : entries.Made)
    (built : ∀ form ∈ forms, form.Built)
    (runs : Operation.run .assoc (.map entries :: forms) = .ok (.map result)) : result.Made := by
  rw [Operation.run, Operation.assocTo, Operation.entriesOf] at runs
  cases madeOfForms : ofForms? forms with
  | none =>
    rw [madeOfForms] at runs
    cases runs
  | some more =>
    rw [madeOfForms] at runs
    cases runs
    refine made.insertAll fun entry mem => ?_
    exact (Made.ofForms built madeOfForms).keys_built entry.1 (List.mem_map_of_mem mem)

theorem Made.of_dissoc {entries result : Entries} {removed : List Value} (made : entries.Made)
    (runs : Operation.run .dissoc (.map entries :: removed) = .ok (.map result)) : result.Made := by
  cases runs
  exact made.eraseAll removed

theorem made_of_braces {forms : List Value} {result : Entries} (built : ∀ form ∈ forms, form.Built)
    (builds : Form.Delimiters.braces.build forms = .ok (.map result)) : result.Made := by
  rw [Form.Delimiters.build] at builds
  cases made : ofForms? forms with
  | none =>
    rw [made] at builds
    cases builds
  | some entries =>
    rw [made] at builds
    cases builds
    exact .ofForms built made

/-- Evaluating the entries of a map puts the keys in as they are. -/
theorem leads_evaluateEntries (self : Task → Eval Value) (env : Env) {made entries : Entries}
    (ofMade : made.Made) (ofKeys : ∀ key ∈ keys entries, key.Built)
    (distinct : (keys made ++ keys entries).Pairwise fun earlier later =>
      (earlier == later) = false)
    (store : Store) :
    (evaluateEntries self env made entries).Leads store
      (fun result _ => result.Made ∧ keys result = keys made ++ keys entries) fun _ _ => True := by
  induction entries generalizing made store with
  | nil => exact ⟨ofMade, (List.append_nil _).symm⟩
  | cons entry rest ih =>
    obtain ⟨key, form⟩ := entry
    have ofKey : key.Built := ofKeys key List.mem_cons_self
    have ofRest : ∀ key ∈ keys rest, key.Built := fun other mem =>
      ofKeys other (List.mem_cons_of_mem key mem)
    rw [evaluateEntries, Eval.leads_bind, Eval.leads_iff]
    refine ⟨fun value after _ => ?_, fun _ _ _ => trivial⟩
    -- The key is new, for it differs from all keys before it.
    have absent : find? made key = none := by
      refine find?_eq_none_iff.mpr fun earlier isKey => ?_
      exact (List.pairwise_append.mp distinct).2.2 earlier isKey key List.mem_cons_self
    have keysNow : keys (made.insert key value) ++ keys rest =
        keys made ++ keys ((key, form) :: rest) := by
      rw [insert_of_find?_eq_none absent]
      simp [keys]
    have goesOn := ih (ofMade.insert value ofKey) ofRest (by rwa [keysNow]) after
    rwa [keysNow] at goesOn

/-- A map that has come about by the operations on maps, from keys of any kind, is a finite map up
to equality. What these operations, the functions of the language, the braces of a literal and its
evaluation make of it, or make anew, has come about so again; and what an operation gives does not
depend on the store, so that it stays the same when the contents of atoms change. -/
theorem made_isFiniteMap {entries : Entries} (made : entries.Made) :
    entries.IsFiniteMap ∧
    (∀ (forms : List Value) (result : Entries), (∀ form ∈ forms, form.Built) →
      (Operation.run .hashMap forms = .ok (.map result) → result.Made) ∧
      (Operation.run .assoc (.map entries :: forms) = .ok (.map result) → result.Made) ∧
      (Operation.run .dissoc (.map entries :: forms) = .ok (.map result) → result.Made) ∧
      (Form.Delimiters.braces.build forms = .ok (.map result) → result.Made)) ∧
    (∀ self env store, (evaluateEntries self env [] entries).Leads store
      (fun result _ => result.Made ∧ keys result = keys entries) fun _ _ => True) ∧
    ∀ self env operation arguments, ∃ outcome, ∀ store,
      runNative self env (.operation operation) arguments store =
        Eval.ofExcept outcome store := by
  refine ⟨made.isFiniteMap, fun forms result built => ⟨made_of_hashMap built, made.of_assoc built,
    made.of_dissoc, made_of_braces built⟩, fun self env store => ?_, ?_⟩
  · have distinct := distinct_iff.mp made.distinct
    exact leads_evaluateEntries self env .empty made.keys_built distinct store
  · intro self env operation arguments
    by_cases admitted : (Native.operation operation).arity.admits arguments.length = true
    · exact ⟨operation.run arguments, fun store => by rw [runNative, if_pos admitted]⟩
    · exact ⟨.error (.wrongCount (.operation operation) arguments.length), fun store => by
        rw [runNative, if_neg admitted]
        rfl⟩

/-- Lists and vectors with the same items are the same key. -/
theorem made_isFiniteMap_seq :
    Made (insert [] (.vector [.nil]) (.bool true)) ∧
      find? (insert (insert [] (.vector [.nil]) (.bool true)) (.list [.nil]) (.bool false))
        (.vector [.nil]) = some (.bool false) := by
  have ofNil : Value.nil.Built := .scalar rfl rfl
  have ofKey (kind : SeqKind) : (Value.seq kind [.nil]).Built := .seq (by simpa using ofNil)
  have made : Made (insert [] (.vector [.nil]) (.bool true)) := Made.empty.insert _ (ofKey .vector)
  refine ⟨made, ?_⟩
  rw [(made_isFiniteMap made).1.find?_insert (.list [.nil]) (.vector [.nil]) (ofKey .list)
    (ofKey .vector)]
  rfl

end Entries

end SmallLisp
