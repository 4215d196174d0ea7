import Mathlib.Algebra.Order.BigOperators.Group.List
import Mathlib.Algebra.Order.Group.Nat
import SmallLisp.Proofs.Equality.Transport
import SmallLisp.Proofs.Number.Integer
import SmallLisp.Proofs.Reading.Spelling

/-!
# What a printed value is read back as

The printer escapes the text of a string, and the reader leaves it as it stands between the quotes.
So a printed string is read back as its escaped text, wherever it lies in a value, and printing a
value and reading it is a function on values. It keeps apart what is not equal, for a text can be
had back from its escaped form, and it fixes exactly the values none of whose strings has anything
to escape: the strings of equal values are the same ones, and escaping lengthens a text that it
changes.

## Main definitions

* `Quoted.unescape`, `Quoted.isSpecial`: escaping undone, and the characters it concerns
* `Value.IsPrintable`: the values whose text is read as a value
* `Value.reread`: the value that is read
* `Value.strings`: the strings in a value

## Main results

* `Quoted.escape_inj`: different texts have different escaped forms
* `Value.reread_beq_reread`: values that are read back are equal when the values printed are
* `Value.reread_beq_iff`: the values that are read back as they were
-/

namespace SmallLisp

namespace Quoted

/-- The text whose escaped form is given. -/
def unescape : List Char → List Char
  | '\\' :: 'n' :: rest => '\n' :: unescape rest
  | '\\' :: c :: rest => c :: unescape rest
  | c :: rest => c :: unescape rest
  | [] => []

/-- The characters that are escaped. -/
def isSpecial (c : Char) : Bool := c == '\\' || c == '"' || c == '\n'

theorem unescape_plain {c : Char} (notBackslash : c ≠ '\\') (rest : List Char) :
    unescape (c :: rest) = c :: unescape rest := by
  rw [unescape]
  · rintro _ rfl
    exact absurd rfl notBackslash
  · rintro _ _ rfl
    exact absurd rfl notBackslash

theorem unescape_escape (text : List Char) : unescape (escape text) = text := by
  induction text with
  | nil => rfl
  | cons c rest ih =>
    rw [escape_cons]
    unfold escapeChar
    split
    · simp [unescape, ih]
    · simp [unescape, ih]
    · simp [unescape, ih]
    · rename_i notBackslash _ _
      rw [List.singleton_append, unescape_plain notBackslash, ih]

/-- Different texts have different escaped forms. -/
theorem escape_inj {first second : List Char} : escape first = escape second ↔ first = second := by
  refine ⟨fun same => ?_, fun same => same ▸ rfl⟩
  rw [← unescape_escape first, same, unescape_escape]

theorem escapeChar_of_plain {c : Char} (plain : isSpecial c = false) : escapeChar c = [c] := by
  simp only [isSpecial, Bool.or_eq_false_iff, beq_eq_false_iff_ne] at plain
  unfold escapeChar
  split <;> simp_all

theorem length_escapeChar (c : Char) :
    (escapeChar c).length = if isSpecial c then 2 else 1 := by
  unfold escapeChar isSpecial
  split <;> simp_all

theorem length_le_length_escape (text : List Char) : text.length ≤ (escape text).length := by
  induction text with
  | nil => exact Nat.le_refl 0
  | cons c rest ih =>
    rw [escape_cons, List.length_append, length_escapeChar, List.length_cons]
    split <;> omega

theorem escape_of_plain {text : List Char} (plain : ∀ c ∈ text, isSpecial c = false) :
    escape text = text := by
  induction text with
  | nil => rfl
  | cons c rest ih =>
    rw [List.forall_mem_cons] at plain
    rw [escape_cons, escapeChar_of_plain plain.1, ih plain.2, List.singleton_append]

/-- Escaping lengthens a text in which there is something to escape. -/
theorem plain_of_length_escape_le {text : List Char}
    (short : (escape text).length ≤ text.length) : ∀ c ∈ text, isSpecial c = false := by
  induction text with
  | nil => exact fun _ mem => absurd mem List.not_mem_nil
  | cons c rest ih =>
    have noShorter := length_le_length_escape rest
    rw [escape_cons, List.length_append, length_escapeChar, List.length_cons] at short
    rw [List.forall_mem_cons]
    split at short
    · omega
    · rename_i plain
      exact ⟨by simpa using plain, ih (by omega)⟩

end Quoted

namespace Value

/-! ### Printable values -/

/-- The names that are read as symbols: words that are no constants, keywords or numbers. -/
structure IsSymbolName (name : String) : Prop where
  isWord : Scan.IsWord name.toList
  notKeyword : name.toList.head? ≠ some ':'
  notConstant : Form.constant? name = none
  notNumber : Number.ofText? name.toList = none

/-- The values whose text is read as a value. The keys of a map are distinct, as they always are in
maps that programs make. -/
inductive IsPrintable : Value → Prop where
  | nil : IsPrintable .nil
  | bool (b : Bool) : IsPrintable (.bool b)
  | number {x : Float} {n : Int} : Binary64.integer? x = some n →
      n.natAbs < Number.integerLimit → IsPrintable (.number x)
  | string (text : String) : IsPrintable (.string text)
  | keyword {name : String} : (∀ c ∈ name.toList, Scan.isRunChar c = true) →
      IsPrintable (.keyword name)
  | symbol {name : String} : IsSymbolName name → IsPrintable (.symbol name)
  | seq {kind : SeqKind} {items : List Value} :
      (∀ item ∈ items, IsPrintable item) → IsPrintable (.seq kind items)
  | map {entries : Entries} : entries.Distinct → (∀ entry ∈ entries, IsPrintable entry.1) →
      (∀ entry ∈ entries, IsPrintable entry.2) → IsPrintable (.map entries)

mutual

/-- The value that is read from the text of a value: strings stay escaped, and a number is the
double nearest the integer it is, so that of the two zeros there is only the positive one. -/
def reread : Value → Value
  | .number x => .number (((Binary64.integer? x).map Binary64.ofInteger).getD x)
  | .string text => .string (String.ofList (Quoted.escape text.toList))
  | .seq kind items => .seq kind (rereadItems items)
  | .map entries => .map (rereadEntries entries)
  | value => value

/-- The items that are read from the texts of items. -/
def rereadItems : List Value → List Value
  | [] => []
  | item :: rest => reread item :: rereadItems rest

/-- The entries that are read from the texts of entries. -/
def rereadEntries : List (Value × Value) → List (Value × Value)
  | [] => []
  | (key, value) :: rest => (reread key, reread value) :: rereadEntries rest

end

mutual

/-- The strings in a value, in the order in which they are printed. -/
def strings : Value → List String
  | .string text => [text]
  | .seq _ items => itemStrings items
  | .map entries => entryStrings entries
  | _ => []

/-- The strings in a run of values. -/
def itemStrings : List Value → List String
  | [] => []
  | item :: rest => strings item ++ itemStrings rest

/-- The strings in keys and values. -/
def entryStrings : List (Value × Value) → List String
  | [] => []
  | (key, value) :: rest => strings key ++ strings value ++ entryStrings rest

end

theorem rereadItems_eq (items : List Value) : rereadItems items = items.map reread := by
  induction items with
  | nil => rfl
  | cons item rest ih => rw [rereadItems, ih, List.map_cons]

theorem rereadEntries_eq (entries : Entries) :
    rereadEntries entries = entries.map (Prod.map reread reread) := by
  induction entries with
  | nil => rfl
  | cons entry rest ih =>
    rw [rereadEntries, ih, List.map_cons]
    rfl

@[simp] theorem reread_seq (kind : SeqKind) (items : List Value) :
    reread (.seq kind items) = .seq kind (items.map reread) := by
  rw [reread, rereadItems_eq]

@[simp] theorem reread_map (entries : Entries) :
    reread (.map entries) = .map (entries.map (Prod.map reread reread)) := by
  rw [reread, rereadEntries_eq]

theorem itemStrings_eq (items : List Value) : itemStrings items = items.flatMap strings := by
  induction items with
  | nil => rfl
  | cons item rest ih => rw [itemStrings, ih, List.flatMap_cons]

/-- The strings in the key and in the value of an entry. -/
def stringsOfEntry (entry : Value × Value) : List String := strings entry.1 ++ strings entry.2

theorem entryStrings_eq (entries : Entries) :
    entryStrings entries = entries.flatMap stringsOfEntry := by
  induction entries with
  | nil => rfl
  | cons entry rest ih =>
    rw [entryStrings, ih, List.flatMap_cons]
    rfl

@[simp] theorem strings_seq (kind : SeqKind) (items : List Value) :
    strings (.seq kind items) = items.flatMap strings := by
  rw [strings, itemStrings_eq]

@[simp] theorem strings_map (entries : Entries) :
    strings (.map entries) = entries.flatMap stringsOfEntry := by
  rw [strings, entryStrings_eq]

/-! ### Equality of the values read -/

theorem IsPrintable.proper {value : Value} (printable : value.IsPrintable) : value.Proper := by
  induction printable with
  | seq _ ofItems => exact .seq ofItems
  | map distinct _ _ ofKeys ofValues => exact .map distinct ofKeys ofValues
  | _ => exact .scalar rfl rfl

theorem reread_number {x : Float} {n : Int} (isInteger : Binary64.integer? x = some n) :
    reread (.number x) = .number (Binary64.ofInteger n) := by
  rw [reread, isInteger]
  rfl

/-- A number is read back as an equal one. -/
theorem reread_number_beq {x : Float} {n : Int} (isInteger : Binary64.integer? x = some n)
    (small : n.natAbs < Number.integerLimit) : (reread (.number x) == .number x) = true := by
  have short : Number.integerLimit < 2 ^ 52 := by decide
  change equal _ _ = true
  rw [reread_number isInteger, equal, number?, Option.any_some]
  exact Binary64.ofInteger_beq isInteger (by omega)

theorem isNil_reread (value : Value) : value.reread.isNil = value.isNil := by
  cases value <;> rfl

theorem bool?_reread (value : Value) : value.reread.bool? = value.bool? := by
  cases value <;> rfl

theorem keyword?_reread (value : Value) : value.reread.keyword? = value.keyword? := by
  cases value <;> rfl

theorem symbol?_reread (value : Value) : value.reread.symbol? = value.symbol? := by
  cases value <;> rfl

/-- Values that are read back are equal when the values printed are. -/
theorem reread_beq_reread {a b : Value} (ofA : a.IsPrintable) (ofB : b.IsPrintable) :
    (a.reread == b.reread) = (a == b) := by
  change equal _ _ = equal _ _
  induction ofA generalizing b with
  | nil => exact isNil_reread b
  | bool truth => exact congrArg (Option.any (truth == ·)) (bool?_reread b)
  | @keyword name _ => exact congrArg (Option.any (name == ·)) (keyword?_reread b)
  | @symbol name _ => exact congrArg (Option.any (name == ·)) (symbol?_reread b)
  | number isInteger small =>
    -- Negative zero is read back as the positive one, so the number may be another, yet equal.
    have scalar {x : Float} : (Value.number x).Proper := .scalar rfl rfl
    have first := reread_number_beq isInteger small
    rw [reread_number isInteger] at first ⊢
    cases ofB with
    | number isInteger' small' =>
      have second := reread_number_beq isInteger' small'
      rw [reread_number isInteger'] at second ⊢
      exact beq_congr scalar scalar scalar scalar first second
    | _ =>
      rw [equal, equal]
      simp only [reread, number?, Option.any_none]
  | string text =>
    rw [reread, equal, equal]
    cases ofB with
    | string other =>
      rw [reread, string?, string?, Option.any_some, Option.any_some, Bool.eq_iff_iff, beq_iff_eq,
        beq_iff_eq, String.ofList_inj, Quoted.escape_inj, String.toList_inj]
    | _ => simp only [reread, string?, Option.any_none]
  | seq _ ih =>
    cases ofB with
    | seq ofOthers =>
      rw [reread_seq, reread_seq]
      exact seq_beq_map fun item isItem other isOther => ih item isItem (ofOthers other isOther)
    | _ =>
      rw [reread_seq, equal, equal]
      simp only [reread, items?, Option.any_none]
  | map _ _ _ ihKeys ihValues =>
    cases ofB with
    | map _ ofKeys ofValues =>
      rw [reread_map, reread_map]
      exact map_beq_map (fun a isA b isB => ihKeys a isA (ofKeys b isB))
        (fun a isA b isB => ihValues a isA (ofValues b isB))
    | _ =>
      rw [reread_map, equal, equal]
      simp only [reread, entries?, Option.any_none]

theorem distinct_reread {entries : Entries} (distinct : entries.Distinct)
    (ofKeys : ∀ entry ∈ entries, IsPrintable entry.1) :
    Entries.Distinct (entries.map (Prod.map reread reread)) :=
  (distinct_map fun a isA b isB => reread_beq_reread (ofKeys a isA) (ofKeys b isB)).mpr distinct

theorem IsPrintable.proper_reread {value : Value} (printable : value.IsPrintable) :
    value.reread.Proper := by
  induction printable with
  | seq _ ofItems =>
    rw [reread_seq]
    refine .seq fun item mem => ?_
    obtain ⟨_, isItem, rfl⟩ := List.mem_map.mp mem
    exact ofItems _ isItem
  | map distinct keys _ ofKeys ofValues =>
    rw [reread_map]
    refine .map (distinct_reread distinct keys) (fun entry mem => ?_) (fun entry mem => ?_)
    · obtain ⟨_, isEntry, rfl⟩ := List.mem_map.mp mem
      exact ofKeys _ isEntry
    · obtain ⟨_, isEntry, rfl⟩ := List.mem_map.mp mem
      exact ofValues _ isEntry
  | _ => exact .scalar rfl rfl

/-! ### The values that are read back as they were -/

theorem perm_flatMap_of_forall₂ {α : Type} {R : α → α → Prop} {f : α → List String}
    {items others : List α} (related : List.Forall₂ R items others)
    (same : ∀ a ∈ items, ∀ b ∈ others, R a b → List.Perm (f a) (f b)) :
    List.Perm (items.flatMap f) (others.flatMap f) := by
  induction related with
  | nil => exact .refl _
  | @cons a b as bs first _ ih =>
    rw [List.flatMap_cons, List.flatMap_cons]
    refine (same a List.mem_cons_self b List.mem_cons_self first).append (ih ?_)
    exact fun x isX y isY => same x (List.mem_cons_of_mem a isX) y (List.mem_cons_of_mem b isY)

/-- Equal values have the same strings, but for their order. -/
theorem perm_strings_of_beq {a b : Value} (ofA : a.Proper) (ofB : b.Proper)
    (same : (a == b) = true) : List.Perm a.strings b.strings := by
  induction ofA generalizing b with
  | seq _ ih =>
    obtain ⟨kind, others, rfl, related⟩ := seq_beq_iff.mp same
    rw [strings_seq, strings_seq]
    exact perm_flatMap_of_forall₂ related fun item isItem other isOther =>
      ih item isItem (proper_seq_iff.mp ofB other isOther)
  | map distinct ofKeys _ ihKeys ihValues =>
    obtain ⟨others, rfl, _⟩ := map_beq_iff.mp same
    obtain ⟨distinct', ofKeys', ofValues'⟩ := proper_map_iff.mp ofB
    obtain ⟨matched, perm, related⟩ :=
      (partialEquivOn_proper.map_beq_map_iff distinct distinct' ofKeys ofKeys').mp same
    rw [strings_map, strings_map]
    refine .trans ?_ (perm.flatMap_right stringsOfEntry)
    refine perm_flatMap_of_forall₂ related fun entry isEntry other isMatched sameEntry => ?_
    have isOther := perm.mem_iff.mp isMatched
    exact (ihKeys entry isEntry (ofKeys' other isOther) sameEntry.1).append
      (ihValues entry isEntry (ofValues' other isOther) sameEntry.2)
  | @scalar value notSeq notMap =>
    change equal value b = true at same
    cases value <;> cases b <;>
      simp_all [equal, isNil, bool?, number?, string?, symbol?, keyword?, items?, entries?, cell?,
        native?, procedure?, strings]

/-- The escaped form of a text. -/
def escaped (text : String) : String := String.ofList (Quoted.escape text.toList)

mutual

theorem strings_reread (value : Value) : value.reread.strings = value.strings.map escaped := by
  cases value with
  | seq kind items =>
    rw [reread, strings, strings]
    exact itemStrings_reread items
  | map entries =>
    rw [reread, strings, strings]
    exact entryStrings_reread entries
  | _ => rfl

theorem itemStrings_reread (items : List Value) :
    itemStrings (rereadItems items) = (itemStrings items).map escaped := by
  cases items with
  | nil => rfl
  | cons item rest =>
    rw [rereadItems, itemStrings, itemStrings, List.map_append, strings_reread item,
      itemStrings_reread rest]

theorem entryStrings_reread (entries : List (Value × Value)) :
    entryStrings (rereadEntries entries) = (entryStrings entries).map escaped := by
  cases entries with
  | nil => rfl
  | cons entry rest =>
    obtain ⟨key, value⟩ := entry
    rw [rereadEntries, entryStrings, entryStrings, List.map_append, List.map_append,
      strings_reread key, strings_reread value, entryStrings_reread rest]

end

/-- Texts that are the same as their escaped forms, but for their order, have nothing to escape:
together they would become longer. -/
theorem plain_of_perm_escaped {texts : List String} (perm : List.Perm (texts.map escaped) texts) :
    ∀ text ∈ texts, ∀ c ∈ text.toList, Quoted.isSpecial c = false := by
  have total : (texts.map fun text => (escaped text).toList.length).sum =
      (texts.map fun text => text.toList.length).sum := by
    have sums := (perm.map fun text => text.toList.length).sum_eq
    rwa [List.map_map] at sums
  have noShorter (text : String) : text.toList.length ≤ (escaped text).toList.length := by
    rw [escaped, String.toList_ofList]
    exact Quoted.length_le_length_escape text.toList
  intro text isText
  refine Quoted.plain_of_length_escape_le (Nat.le_of_not_lt fun longer => ?_)
  have isLonger : text.toList.length < (escaped text).toList.length := by
    rw [escaped, String.toList_ofList]
    exact longer
  have more := List.sum_lt_sum _ _ (fun text _ => noShorter text) ⟨text, isText, isLonger⟩
  rw [total] at more
  exact Nat.lt_irrefl _ more

/-- The values that are read back as they were are those none of whose strings has anything to
escape. -/
theorem reread_beq_iff {value : Value} (printable : value.IsPrintable) :
    (value.reread == value) = true ↔
      ∀ text ∈ value.strings, ∀ c ∈ text.toList, Quoted.isSpecial c = false := by
  constructor
  · intro same
    have perm := perm_strings_of_beq printable.proper_reread printable.proper same
    rw [strings_reread] at perm
    exact plain_of_perm_escaped perm
  · intro plain
    induction printable with
    | nil => exact beq_self_of_scalar rfl rfl rfl
    | bool _ => exact beq_self_of_scalar rfl rfl rfl
    | number isInteger small => exact reread_number_beq isInteger small
    | string text =>
      have plain := plain text (List.mem_singleton_self text)
      rw [reread, Quoted.escape_of_plain plain, String.ofList_toList]
      exact beq_self_of_scalar rfl rfl rfl
    | keyword _ => exact beq_self_of_scalar rfl rfl rfl
    | symbol _ => exact beq_self_of_scalar rfl rfl rfl
    | seq _ ih =>
      rw [strings_seq] at plain
      rw [reread_seq, seq_beq_iff]
      refine ⟨_, _, rfl, List.forall₂_map_left_iff.mpr (List.forall₂_same.mpr fun item mem => ?_)⟩
      exact ih item mem fun text isText =>
        plain text (List.mem_flatMap_of_mem mem isText)
    | map distinct ofKeys ofValues ihKeys ihValues =>
      rw [strings_map] at plain
      have properKeys := fun entry mem => (ofKeys entry mem).proper
      have rereadProper := (IsPrintable.map distinct ofKeys ofValues).proper_reread
      rw [reread_map, proper_map_iff] at rereadProper
      rw [reread_map, partialEquivOn_proper.map_beq_map_iff rereadProper.1 distinct rereadProper.2.1
        properKeys]
      refine ⟨_, .refl _, List.forall₂_map_left_iff.mpr (List.forall₂_same.mpr fun entry mem => ?_)⟩
      have ofEntry (text : String) (isText : text ∈ stringsOfEntry entry) :=
        plain text (List.mem_flatMap_of_mem mem isText)
      exact ⟨ihKeys entry mem fun text isText => ofEntry text (List.mem_append_left _ isText),
        ihValues entry mem fun text isText => ofEntry text (List.mem_append_right _ isText)⟩

end Value

end SmallLisp
