import SmallLisp.Proofs.Equality.FiniteMap
import SmallLisp.Proofs.Evaluation.Steps
import SmallLisp.Proofs.Reading.Incremental

/-!
# Entries put in together

`assoc` makes a map of its own from the keys and values that it is given, and then puts the entries
of that map into the one that it extends. The first step may bring keys together: a later value
takes the place of an earlier one, behind the key that came first. What comes out is nevertheless
what comes of putting the keys and values in one after the other. For a value that is replaced
before the entries are put in might as well be replaced afterwards, since the entries in between
have other keys and do not touch it. That they have other keys is symmetry and transitivity again;
a key that is not equal to itself comes in as often as it is given, either way.

## Main results

* `Entries.insert_insert_of_beq`: of two values under equal keys the second counts
* `Entries.insert_insert_comm`: a value can be replaced before or after another key comes in
* `Entries.insertAll_insertAll`: a map of some entries is put in as they are, one by one
* `Entries.assoc_inserts`: `assoc` puts keys and values in one after the other
-/

namespace SmallLisp.Entries

open Value (partialEquivOn_proper)

variable {entries made : Entries} {key other stored : Value}

/-- Of two values that are put under equal keys the second counts, and the key that came first is
the one that is stored. -/
theorem insert_insert_of_beq (ofKeys : ∀ entry ∈ entries, entry.1.Proper) (ofStored : stored.Proper)
    (ofKey : key.Proper) (same : (stored == key) = true) (old value : Value) :
    insert (insert entries stored old) key value = insert entries stored value := by
  induction entries with
  | nil => rw [insert, insert, insert, if_pos same]
  | cons entry rest ih =>
    obtain ⟨first, before⟩ := entry
    rw [List.forall_mem_cons] at ofKeys
    by_cases found : (first == stored) = true
    · have found' := partialEquivOn_proper.trans ofKeys.1 ofStored ofKey found same
      rw [insert, insert, if_pos found, if_pos found, insert, if_pos found']
    · -- What is equal to the second key is equal to the first one.
      have notFound : ¬ (first == key) = true := by
        intro found'
        have turned := partialEquivOn_proper.symm ofStored ofKey same
        exact found (partialEquivOn_proper.trans ofKeys.1 ofKey ofStored found' turned)
      rw [insert, insert, if_neg found, if_neg found, insert, if_neg notFound, ih ofKeys.2]

/-- A value that is there can be replaced before or after another key comes in. -/
theorem insert_insert_comm (ofKeys : ∀ entry ∈ entries, entry.1.Proper) (ofKey : key.Proper)
    (ofOther : other.Proper) (present : (find? entries key).isSome)
    (differs : ¬ (key == other) = true) (value more : Value) :
    insert (insert entries key value) other more =
      insert (insert entries other more) key value := by
  induction entries with
  | nil => cases present
  | cons entry rest ih =>
    obtain ⟨first, old⟩ := entry
    rw [List.forall_mem_cons] at ofKeys
    by_cases isKey : (first == key) = true
    · have notOther : ¬ (first == other) = true := by
        intro isOther
        have turned := partialEquivOn_proper.symm ofKeys.1 ofKey isKey
        exact differs (partialEquivOn_proper.trans ofKey ofKeys.1 ofOther turned isOther)
      rw [insert, if_pos isKey, insert, if_neg notOther, insert, if_neg notOther, insert,
        if_pos isKey]
    · rw [find?_cons, if_neg isKey] at present
      by_cases isOther : (first == other) = true
      · rw [insert, if_neg isKey, insert, if_pos isOther, insert, if_pos isOther, insert,
          if_neg isKey]
      · rw [insert, if_neg isKey, insert, if_neg isOther, insert, if_neg isOther, insert,
          if_neg isKey, ih ofKeys.2 present]

theorem keys_proper_insertAll {more : Entries} (ofKeys : ∀ entry ∈ entries, entry.1.Proper)
    (ofMore : ∀ entry ∈ more, entry.1.Proper) :
    ∀ entry ∈ insertAll entries more, entry.1.Proper := by
  intro entry mem
  rcases mem_keys_insertAll (List.mem_map_of_mem mem) with isKey | isKey
  · obtain ⟨earlier, isEarlier, same⟩ := List.mem_map.mp isKey
    exact same ▸ ofKeys earlier isEarlier
  · obtain ⟨later, isLater, same⟩ := List.mem_map.mp isKey
    exact same ▸ ofMore later isLater

theorem keys_proper_insert (ofKeys : ∀ entry ∈ entries, entry.1.Proper) (ofKey : key.Proper)
    (value : Value) : ∀ entry ∈ insert entries key value, entry.1.Proper := by
  have ofEntry : ∀ entry ∈ [(key, value)], entry.1.Proper := by
    rw [List.forall_mem_singleton]
    exact ofKey
  exact keys_proper_insertAll ofKeys ofEntry

theorem keys_proper_insertAll_nil {pairs : Entries} (ofPairs : ∀ pair ∈ pairs, pair.1.Proper) :
    ∀ entry ∈ insertAll [] pairs, entry.1.Proper := by
  apply keys_proper_insertAll _ ofPairs
  intro entry mem
  cases mem

/-- A value that is there can be replaced before or after entries with other keys come in. -/
theorem insertAll_insert_comm {more : Entries} (ofKeys : ∀ entry ∈ entries, entry.1.Proper)
    (ofMore : ∀ entry ∈ more, entry.1.Proper) (ofKey : key.Proper)
    (present : (find? entries key).isSome) (differs : ∀ entry ∈ more, ¬ (key == entry.1) = true)
    (value : Value) :
    insertAll (insert entries key value) more = insert (insertAll entries more) key value := by
  induction more generalizing entries with
  | nil => rfl
  | cons entry rest ih =>
    rw [List.forall_mem_cons] at ofMore differs
    have goesOn : ∀ earlier : Entries,
        insertAll earlier (entry :: rest) = insertAll (insert earlier entry.1 entry.2) rest :=
      fun earlier => rfl
    have ofKeys' := keys_proper_insert ofKeys ofMore.1 entry.2
    have present' : (find? (insert entries entry.1 entry.2) key).isSome := by
      rw [find?_insert ofKeys ofMore.1 ofKey]
      split
      · rfl
      · exact present
    calc insertAll (insert entries key value) (entry :: rest)
        = insertAll (insert (insert entries entry.1 entry.2) key value) rest := by
          rw [goesOn, insert_insert_comm ofKeys ofKey ofMore.1 present differs.1]
      _ = insert (insertAll entries (entry :: rest)) key value :=
          ih ofKeys' ofMore.2 present' differs.2

theorem insertAll_append_eq (before after : Entries) :
    insertAll entries (before ++ after) = insertAll (insertAll entries before) after :=
  List.foldl_append

/-- One more entry can be put into a map before the map is put into another one, or afterwards into
that one. -/
theorem insertAll_insert (ofKeys : ∀ entry ∈ entries, entry.1.Proper) (distinct : made.Distinct)
    (ofMade : ∀ entry ∈ made, entry.1.Proper) (ofKey : key.Proper) (value : Value) :
    insertAll entries (insert made key value) = insert (insertAll entries made) key value := by
  cases found : find? made key with
  | none =>
    rw [insert_of_find?_eq_none found, insertAll_append_eq]
    rfl
  | some old =>
    obtain ⟨before, stored, after, rfl, same, absent⟩ := exists_of_find? found
    have ofBefore : ∀ entry ∈ before, entry.1.Proper := fun entry mem =>
      ofMade entry (List.mem_append_left _ mem)
    have ofRest := fun entry mem => ofMade entry (List.mem_append_right before mem)
    rw [List.forall_mem_cons] at ofRest
    obtain ⟨ofStored, ofAfter⟩ := ofRest
    have ofBase := keys_proper_insertAll ofKeys ofBefore
    have ofBase' := keys_proper_insert ofBase ofStored old
    have turned := partialEquivOn_proper.symm ofStored ofKey same
    have present : (find? (insert (insertAll entries before) stored old) key).isSome := by
      rw [find?_insert ofBase ofStored ofKey, if_pos turned]
      rfl
    -- The entries behind the one that is replaced have other keys.
    have differs : ∀ entry ∈ after, ¬ (key == entry.1) = true := by
      intro entry isLater isKey
      have isStored := partialEquivOn_proper.trans ofStored ofKey (ofAfter entry isLater) same isKey
      have apart := (List.pairwise_append.mp distinct).2.1
      have notStored := (List.pairwise_cons.mp apart).1 entry isLater
      rw [isStored] at notStored
      cases notStored
    rw [insert_append_of_beq absent same]
    calc insertAll entries (before ++ (stored, value) :: after)
        = insertAll (insert (insertAll entries before) stored value) after :=
          insertAll_append_eq _ _
      _ = insertAll (insert (insert (insertAll entries before) stored old) key value) after := by
          rw [insert_insert_of_beq ofBase ofStored ofKey same]
      _ = insert (insertAll (insert (insertAll entries before) stored old) after) key value :=
          insertAll_insert_comm ofBase' ofAfter ofKey present differs value
      _ = insert (insertAll entries (before ++ (stored, old) :: after)) key value := by
          rw [insertAll_append_eq]
          rfl

/-- A map made of some entries is put into another one as the entries are, one by one. -/
theorem insertAll_insertAll {pairs : Entries} (ofKeys : ∀ entry ∈ entries, entry.1.Proper)
    (ofPairs : ∀ pair ∈ pairs, pair.1.Proper) :
    insertAll entries (insertAll [] pairs) = insertAll entries pairs := by
  -- The last pair is the last one to be put in, so the induction takes pairs off at the end.
  induction pairs using List.reverseRecOn with
  | nil => rfl
  | append_singleton pairs pair ih =>
    obtain ⟨ofEarlier, ofLast⟩ := List.forall_mem_append.mp ofPairs
    have ofPair : pair.1.Proper := ofLast pair (List.mem_singleton_self pair)
    have ofMade := keys_proper_insertAll_nil ofEarlier
    calc insertAll entries (insertAll [] (pairs ++ [pair]))
        = insertAll entries (insert (insertAll [] pairs) pair.1 pair.2) := by
          rw [insertAll_append_eq]
          rfl
      _ = insert (insertAll entries pairs) pair.1 pair.2 := by
          rw [insertAll_insert ofKeys (Distinct.insertAll .nil pairs) ofMade ofPair, ih ofEarlier]
      _ = insertAll entries (pairs ++ [pair]) := by
          rw [insertAll_append_eq]
          rfl

/-! ### Alternating keys and values -/

theorem toForms_append (pairs more : Entries) :
    toForms (pairs ++ more) = toForms pairs ++ toForms more :=
  List.flatMap_append

theorem ofForms?_toForms_eq (pairs : Entries) :
    ofForms? (toForms pairs) = some (insertAll [] pairs) :=
  ofForms?_eq_some_iff.mpr ⟨pairs, rfl, rfl⟩

theorem exists_toForms {forms : List Value} (even : forms.length % 2 = 0) :
    ∃ pairs, forms = toForms pairs := by
  have paired : (pairs? forms).isSome := by
    rw [isSome_pairs?, even]
    rfl
  obtain ⟨pairs, isPairs⟩ := Option.isSome_iff_exists.mp paired
  exact ⟨pairs, eq_toForms_of_pairs? isPairs⟩

theorem ofForms?_of_odd {forms : List Value} (odd : forms.length % 2 = 1) :
    ofForms? forms = none := by
  have unpaired : (pairs? forms).isSome = false := by
    rw [isSome_pairs?, odd]
    rfl
  rw [ofForms?, Option.not_isSome_iff_eq_none.mp (Bool.eq_false_iff.mp unpaired)]
  rfl

section Assoc

variable {self : Task → Eval Value} {env : Env}

/-- What `assoc` makes of a map and the keys and values that it is given. -/
theorem runNative_assoc (entries : Entries) (forms : List Value) :
    runNative self env (.operation .assoc) (.map entries :: forms) =
      match ofForms? forms with
      | some more => pure (.map (insertAll entries more))
      | none => Eval.fail (.keyWithoutValue forms.length) := by
  have admitted :
      (Native.operation .assoc).arity.admits (Value.map entries :: forms).length = true := by
    simp [Native.arity, Native.signature, Operation.signature, Arity.admits]
  have opened : Operation.run .assoc (.map entries :: forms) =
      (do return .map (insertAll entries (← Operation.entriesOf forms))) := rfl
  rw [runNative_operation admitted, opened, Operation.entriesOf]
  cases ofForms? forms <;> rfl

theorem runNative_assoc_toForms {pairs : Entries} (ofKeys : ∀ entry ∈ entries, entry.1.Proper)
    (ofPairs : ∀ pair ∈ pairs, pair.1.Built) :
    runNative self env (.operation .assoc) (.map entries :: toForms pairs) =
      pure (.map (insertAll entries pairs)) := by
  rw [runNative_assoc, ofForms?_toForms_eq]
  simp only [insertAll_insertAll ofKeys fun pair mem => (ofPairs pair mem).proper]

end Assoc

/-- **`assoc` puts keys and values in one after the other.** Of a map that has come about by the
operations on maps and any number of keys and values, whether or not the keys are equal to each
other, to keys of the map or to themselves, it makes exactly what comes of inserting the first value
under the first key, then the second under the second, and so on: the same entries, behind the same
keys, in the same order. A key without a value is an error. And the map of two runs of keys and
values is what `assoc` makes of the map of the first run and the second run. -/
theorem assoc_inserts {entries : Entries} (made : entries.Made) (self : Task → Eval Value)
    (env : Env) :
    (∀ forms : List Value, forms.length % 2 = 0 → ∃ pairs, forms = toForms pairs) ∧
    (∀ pairs : Entries, (∀ pair ∈ pairs, pair.1.Built) →
      runNative self env (.operation .assoc) (.map entries :: toForms pairs) =
        pure (.map (pairs.foldl (fun map pair => insert map pair.1 pair.2) entries))) ∧
    (∀ forms : List Value, forms.length % 2 = 1 →
      runNative self env (.operation .assoc) (.map entries :: forms) =
        Eval.fail (.keyWithoutValue forms.length)) ∧
    ∀ first second : Entries, (∀ pair ∈ first ++ second, pair.1.Built) →
      ∃ ofFirst ofBoth, ofForms? (toForms first) = some ofFirst ∧
        ofForms? (toForms first ++ toForms second) = some ofBoth ∧
        runNative self env (.operation .assoc) (.map ofFirst :: toForms second) =
          pure (.map ofBoth) := by
  refine ⟨fun forms => exists_toForms, fun pairs ofPairs => ?_, fun forms odd => ?_,
    fun first second built => ?_⟩
  · exact runNative_assoc_toForms made.keys_proper ofPairs
  · rw [runNative_assoc, ofForms?_of_odd odd]
  · obtain ⟨ofFirst, ofSecond⟩ := List.forall_mem_append.mp built
    have ofKeys := keys_proper_insertAll_nil fun pair mem => (ofFirst pair mem).proper
    refine ⟨insertAll [] first, insertAll [] (first ++ second), ofForms?_toForms_eq first, ?_, ?_⟩
    · rw [← toForms_append, ofForms?_toForms_eq]
    · rw [runNative_assoc_toForms ofKeys ofSecond, insertAll_append_eq]

/-- A list and a vector with the same items as a key that is there, and not-a-number twice. -/
theorem assoc_inserts_repeated :
    let entries : Entries := insert [] (.vector [.nil]) (.bool true)
    let pairs : Entries := [(.list [.nil], .bool false), (.number Float.nan, .nil),
      (.vector [.nil], .nil), (.number Float.nan, .bool true)]
    entries.Made ∧ (∀ pair ∈ pairs, pair.1.Built) ∧ ∀ self env,
      runNative self env (.operation .assoc) (.map entries :: toForms pairs) =
        pure (.map [(.vector [.nil], .nil), (.number Float.nan, .nil),
          (.number Float.nan, .bool true)]) := by
  intro entries pairs
  have ofSeq (kind : SeqKind) : (Value.seq kind [.nil]).Built :=
    .seq (by simpa using .scalar rfl rfl)
  have made : entries.Made := Made.empty.insert _ (ofSeq .vector)
  have built : ∀ pair ∈ pairs, pair.1.Built := by
    simp only [pairs, List.forall_mem_cons]
    exact ⟨ofSeq .list, .scalar rfl rfl, ofSeq .vector, .scalar rfl rfl, by simp⟩
  refine ⟨made, built, fun self env => ?_⟩
  rw [(assoc_inserts made self env).2.1 pairs built]
  rfl

end SmallLisp.Entries
