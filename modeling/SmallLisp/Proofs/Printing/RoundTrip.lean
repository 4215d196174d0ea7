import SmallLisp.Proofs.Equality.FiniteMap
import SmallLisp.Proofs.Printing.Reread
import SmallLisp.Store

/-!
# The readable text of a value is read back

The text of a printable value spells what it is read back as, by induction on the value: a constant,
a number, a keyword and a symbol are each one word, a string is one quoted text, and the texts of
the parts of a sequence or map, with spaces between them, spell the parts that are read back. The
reader builds a map anew from its keys and values, and finds every key there is, for the keys that
are read back are as distinct as those printed.

## Main results

* `Value.spells_renderWith`: the readable text of a printable value spells what is read back
* `Value.read_readableText`: it is read to its end, with equality kept, and strings escaped
-/

namespace SmallLisp

/-! ### Words -/

namespace Scan

/-- A digit can stand anywhere in a word. -/
theorem wordStart_of_isDigit {c : Char} (isDigit : c.isDigit = true) :
    isRunChar c = true ∧ isLeadingMark c = false ∧ c ≠ '~' := by
  have digits : ∀ k : Fin 10, isRunChar (Char.ofNat (48 + k)) = true ∧
      isLeadingMark (Char.ofNat (48 + k)) = false ∧ Char.ofNat (48 + k) ≠ '~' := by decide
  obtain ⟨low, high⟩ := Char.isDigit_iff_toNat.mp isDigit
  have low : 48 ≤ c.toNat := low
  have high : c.toNat ≤ 57 := high
  have ofDigit := digits ⟨c.toNat - 48, by omega⟩
  rwa [Nat.add_sub_cancel' low, Char.ofNat_toNat] at ofDigit

theorem isWord_of_isDigits {digits : List Char} (areDigits : Number.isDigits digits = true) :
    IsWord digits ∧ IsWord ('-' :: digits) := by
  simp only [Number.isDigits, Bool.and_eq_true, Bool.not_eq_true', List.isEmpty_eq_false_iff,
    List.all_eq_true] at areDigits
  obtain ⟨nonempty, areDigits⟩ := areDigits
  have isRun : ∀ c ∈ digits, isRunChar c = true :=
    fun c mem => (wordStart_of_isDigit (areDigits c mem)).1
  constructor
  · obtain ⟨c, rest, rfl⟩ := List.exists_cons_of_ne_nil nonempty
    obtain ⟨_, notMark, notTilde⟩ := wordStart_of_isDigit (areDigits c List.mem_cons_self)
    exact ⟨c, rest, rfl, notMark, notTilde, isRun⟩
  · exact ⟨'-', digits, rfl, by decide, by decide, List.forall_mem_cons.mpr ⟨by decide, isRun⟩⟩

/-- What denotes a number is a word. -/
theorem isWord_of_ofText? {text : List Char} {x : Float} (isNumber : Number.ofText? text = some x) :
    IsWord text := by
  unfold Number.ofText? at isNumber
  split at isNumber
  · split at isNumber
    · rename_i areDigits
      exact (isWord_of_isDigits areDigits).2
    · cases isNumber
  · split at isNumber
    · rename_i areDigits
      exact (isWord_of_isDigits areDigits).1
    · cases isNumber

theorem isWord_keyword {name : List Char} (isRun : ∀ c ∈ name, isRunChar c = true) :
    IsWord (':' :: name) :=
  ⟨':', name, rfl, by decide, by decide, List.forall_mem_cons.mpr ⟨by decide, isRun⟩⟩

end Scan

namespace Form

theorem ofLexeme?_keyword (name : String) : ofLexeme? (":" ++ name) = some (.keyword name) := by
  have first : (":" ++ name).toList = ':' :: name.toList := by
    rw [String.toList_append]
    rfl
  have denotes := Denotes.keyword first
  rw [String.ofList_toList] at denotes
  exact denotes.ofLexeme?

theorem ofLexeme?_symbol {name : String} (isName : Value.IsSymbolName name) :
    ofLexeme? name = some (.symbol name) := by
  obtain ⟨⟨c, rest, first, _, _, isRun⟩, notKeyword, notConstant, notNumber⟩ := isName
  have notQuote : name.toList.head? ≠ some '"' := by
    rw [first, List.head?_cons]
    rintro ⟨⟩
    exact absurd (isRun '"' (first ▸ List.mem_cons_self)) (by decide)
  rw [ofLexeme?_of_plain notConstant notKeyword, notNumber, literalOrSymbol?_of_plain notQuote]
  rfl

theorem spells_constant {name : String} {value : Value} (isWord : Scan.IsWord name.toList)
    (named : constant? name = some value) : Spells name.toList value := by
  refine spells_word isWord ?_
  rw [String.ofList_toList, ofLexeme?, named]

theorem spells_nil : Spells "nil".toList .nil := by
  have isRun : ∀ c ∈ ['n', 'i', 'l'], Scan.isRunChar c = true := List.all_eq_true.mp (by decide)
  exact spells_constant ⟨_, _, rfl, by decide, by decide, isRun⟩ rfl

theorem spells_true : Spells "true".toList (.bool true) := by
  have isRun : ∀ c ∈ ['t', 'r', 'u', 'e'], Scan.isRunChar c = true :=
    List.all_eq_true.mp (by decide)
  exact spells_constant ⟨_, _, rfl, by decide, by decide, isRun⟩ rfl

theorem spells_false : Spells "false".toList (.bool false) := by
  have isRun : ∀ c ∈ ['f', 'a', 'l', 's', 'e'], Scan.isRunChar c = true :=
    List.all_eq_true.mp (by decide)
  exact spells_constant ⟨_, _, rfl, by decide, by decide, isRun⟩ rfl

end Form

/-- Distinct keys and their values, alternating, are read as the entries they come from. -/
theorem Entries.ofForms?_toForms {entries : Entries} (distinct : entries.Distinct) :
    ofForms? (toForms entries) = some entries := by
  have whole : insertAll [] entries = [] ++ entries := insertAll_append distinct
  rw [ofForms?, pairs?_toForms, Option.map_some, whole, List.nil_append]

theorem Entries.toForms_map (f : Value → Value) (entries : Entries) :
    toForms (entries.map (Prod.map f f)) = (toForms entries).map f := by
  induction entries with
  | nil => rfl
  | cons entry rest ih =>
    change f entry.1 :: f entry.2 :: toForms (rest.map (Prod.map f f)) = _
    rw [ih]
    rfl

/-- The marks around the items of a sequence. -/
def SeqKind.delimiters : SeqKind → Form.Delimiters
  | list => .parens
  | vector => .brackets

namespace Value

variable (cellText : CellId → String)

theorem render_number {x : Float} {n : Int} (isInteger : Binary64.integer? x = some n)
    (small : n.natAbs < Number.integerLimit) : Number.render x = Number.integerText n := by
  rw [Number.render, isInteger]
  exact if_pos small

theorem renderEntries_eq (style : Style) (entries : Entries) :
    renderEntries cellText style entries = renderItems cellText style entries.toForms := by
  induction entries with
  | nil => rfl
  | cons entry rest ih =>
    obtain ⟨key, value⟩ := entry
    change _ = renderItems cellText style (key :: value :: Entries.toForms rest)
    rw [renderEntries, ih, renderItems, renderItems]

theorem spells_renderItems {items : List Value}
    (spell : ∀ item ∈ items,
      Form.Spells (renderWith cellText .readable item).toList item.reread) :
    List.Forall₂ Form.Spells ((renderItems cellText .readable items).map String.toList)
      (items.map reread) := by
  induction items with
  | nil => exact .nil
  | cons item rest ih =>
    rw [List.forall_mem_cons] at spell
    rw [renderItems]
    exact .cons spell.1 (ih spell.2)

/-- The texts of items, with spaces between them and marks around them, spell what is made of the
items that are read back. -/
theorem spells_enclosed {items : List Value}
    (spell : ∀ item ∈ items, Form.Spells (renderWith cellText .readable item).toList item.reread)
    (delimiters : Form.Delimiters) {value : Value}
    (built : delimiters.build (items.map reread) = .ok value) :
    Form.Spells (delimiters.openingMark ::
      (" ".intercalate (renderItems cellText .readable items)).toList ++ [delimiters.mark])
      value := by
  rw [String.toList_intercalate]
  exact (Form.spellsItems_intercalate (spells_renderItems cellText spell)).enclose delimiters built

/-- The readable text of a printable value spells what is read back. -/
theorem spells_renderWith {value : Value} (printable : value.IsPrintable) :
    Form.Spells (renderWith cellText .readable value).toList value.reread := by
  induction printable with
  | nil => exact Form.spells_nil
  | bool b =>
    cases b with
    | false => exact Form.spells_false
    | true => exact Form.spells_true
  | @number x n isInteger small =>
    rw [renderWith, render_number isInteger small, reread_number isInteger]
    have denotes := Number.ofText?_integerText n
    refine Form.spells_word (Scan.isWord_of_ofText? denotes) ?_
    rw [String.ofList_toList]
    exact (Form.denotes_of_number denotes).ofLexeme?
  | string text =>
    rw [renderWith, Style.text, Quoted.encode, String.toList_ofList]
    exact Form.spells_quoted text.toList
  | @keyword name isRun =>
    have text : (":" ++ name).toList = ':' :: name.toList := by
      rw [String.toList_append]
      rfl
    rw [renderWith]
    refine Form.spells_word (text ▸ Scan.isWord_keyword isRun) ?_
    rw [String.ofList_toList]
    exact Form.ofLexeme?_keyword name
  | @symbol name isName =>
    refine Form.spells_word isName.isWord ?_
    rw [renderWith, String.ofList_toList]
    exact Form.ofLexeme?_symbol isName
  | @seq kind items _ ih =>
    have built : kind.delimiters.build (items.map reread) = .ok (.seq kind (items.map reread)) := by
      cases kind <;> rfl
    rw [reread_seq, renderWith, String.toList_append, String.toList_append]
    cases kind with
    | list => exact spells_enclosed cellText ih .parens built
    | vector => exact spells_enclosed cellText ih .brackets built
  | @map entries distinct ofKeys _ ihKeys ihValues =>
    -- Keys and values alternate between the braces, and are paired again by the reader.
    have spell : ∀ form ∈ Entries.toForms entries,
        Form.Spells (renderWith cellText .readable form).toList form.reread := by
      intro form mem
      obtain ⟨entry, isEntry, isPart⟩ := List.mem_flatMap.mp mem
      rcases List.mem_pair.mp isPart with rfl | rfl
      · exact ihKeys entry isEntry
      · exact ihValues entry isEntry
    have built : Form.Delimiters.braces.build ((Entries.toForms entries).map reread) =
        .ok (.map (entries.map (Prod.map reread reread))) := by
      rw [Form.Delimiters.build, ← Entries.toForms_map,
        Entries.ofForms?_toForms (distinct_reread distinct ofKeys)]
    rw [reread_map, renderWith, renderEntries_eq, String.toList_append, String.toList_append]
    exact spells_enclosed cellText spell .braces built

/-- The readable text of a printable value is read back, to its end, as the value with its strings
escaped. What is read back from two values is equal when the values are, numbers are read back as
equal ones, and a value is read back as an equal one when none of its strings has anything to
escape. -/
theorem read_readableText (store : Store) {value : Value} (printable : value.IsPrintable) :
    Form.ofText (store.readableText value) = .ok value.reread ∧
      (Form.read (Token.scan (store.readableText value))).rest = [] ∧
      (∀ other : Value, other.IsPrintable → (value.reread == other.reread) = (value == other)) ∧
      (∀ x, (Value.number x).IsPrintable → (reread (.number x) == .number x) = true) ∧
      ((value.reread == value) = true ↔
        ∀ text ∈ value.strings, ∀ c ∈ text.toList, Quoted.isSpecial c = false) := by
  have whole : Form.read (Token.scan (store.readableText value)) = ⟨.ok value.reread, []⟩ :=
    (spells_renderWith _ printable).read_scan
  refine ⟨?_, ?_, fun other => reread_beq_reread printable, fun x isNumber => ?_,
    reread_beq_iff printable⟩
  · rw [Form.ofText, whole]
  · rw [whole]
  · cases isNumber with
    | number isInteger small => exact reread_number_beq isInteger small

/-- A map from a string with a quote in it to a vector that holds negative zero. -/
theorem read_readableText_map :
    let value : Value :=
      .map [(.string "a\"", .vector [.number (Binary64.ofNegatedNat 0), .symbol "x~"])]
    value.IsPrintable ∧ Form.ofText ((Store.initial fun _ => none).readableText value) =
      .ok (.map [(.string "a\\\"", .vector [.number (Binary64.ofNat 0), .symbol "x~"])]) := by
  intro value
  have isRun : ∀ c ∈ ['x', '~'], Scan.isRunChar c = true := List.all_eq_true.mp (by decide)
  have isName : IsSymbolName "x~" :=
    ⟨⟨'x', ['~'], rfl, by decide, by decide, isRun⟩, by decide, rfl, rfl⟩
  have isZero : Binary64.integer? (Binary64.ofNegatedNat 0) = some 0 := by decide +kernel
  have ofItems : ∀ item ∈ [Value.number (Binary64.ofNegatedNat 0), .symbol "x~"],
      item.IsPrintable := by
    simp only [List.forall_mem_cons, List.not_mem_nil, false_imp_iff, implies_true, and_true]
    exact ⟨.number isZero (by decide), .symbol isName⟩
  have printable : value.IsPrintable :=
    .map (List.pairwise_singleton _ _) (by simpa using IsPrintable.string _)
      (by simpa using IsPrintable.seq ofItems)
  have reads : value.reread =
      .map [(.string "a\\\"", .vector [.number (Binary64.ofInteger 0), .symbol "x~"])] := by
    simp only [value, reread_map, reread_seq, List.map_cons, List.map_nil, Prod.map_apply,
      reread_number isZero]
    rfl
  refine ⟨printable, ?_⟩
  rw [(read_readableText (Store.initial fun _ => none) printable).1, reads]
  rfl

end Value

end SmallLisp
