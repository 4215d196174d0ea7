import Mathlib.Data.Finset.Card
import SmallLisp.Proofs.Printing.RoundTrip

/-!
# The text of a value that holds itself

An atom can hold itself, by way of sequences, of maps and of other atoms. The rules of writing keep
the cells that have been entered on the way down from the top: an atom whose cell is among them is
abbreviated, and any other is written with its contents, inside its cell. The parts of a sequence or
map are all written inside the same cells. From every value, in every store, these rules come to an
end: each cell is entered at most once on the way down, and between two cells the way leads down
through a finite value. So they give every value one text, and this is what is printed.

## Main definitions

* `Value.row?`: the marks around a sequence or map, and what stands between them
* `Writes`: the text of a value that lies inside some cells
* `Stands`: what stands at a place in the text of a value, and inside which cells

## Main results

* `Writes.unique`: a value has one text
* `Store.exists_writes`: every value has a text, inside whatever cells it lies
* `Stands.exists_writes`: what stands at a place of a text is written there
* `Store.render_abbreviates_cycles`: printing ends, and abbreviates atoms inside themselves only
-/

namespace SmallLisp

/-! ### The rules of writing -/

namespace Value

/-- A row of values between two marks. -/
structure Row where
  opening : String
  items : List Value
  closing : String

/-- A sequence or map as the row that it is written as. The keys and values of a map alternate. -/
def row? : Value → Option Row
  | seq kind items => some ⟨kind.opening, items, kind.closing⟩
  | map entries => some ⟨"\x7b", Entries.toForms entries, "\x7d"⟩
  | _ => none

/-- The text of a row, given the texts of the values in it. -/
def Row.text (row : Row) (textOf : Value → String) : String :=
  row.opening ++ " ".intercalate (row.items.map textOf) ++ row.closing

end Value

section Rules

variable (contents : CellId → Value) (style : Style)

/-- The text of a value that lies inside some cells, given the contents of all cells. -/
inductive Writes : List CellId → Value → String → Prop where
  | nil {path : List CellId} : Writes path .nil "nil"
  | bool {path : List CellId} (b : Bool) : Writes path (.bool b) (if b then "true" else "false")
  | number {path : List CellId} (x : Float) : Writes path (.number x) (Number.render x)
  | string {path : List CellId} (text : String) : Writes path (.string text) (style.text text)
  | symbol {path : List CellId} (name : String) : Writes path (.symbol name) name
  | keyword {path : List CellId} (name : String) : Writes path (.keyword name) (":" ++ name)
  | native {path : List CellId} (f : Native) :
      Writes path (.native f) ("#<native " ++ f.name ++ ">")
  | function {path : List CellId} (id : ProcedureId) (parameters : List Value) (body : Value)
      (env : Env) : Writes path (.procedure .function id parameters body env) "#<function>"
  | expander {path : List CellId} (id : ProcedureId) (parameters : List Value) (body : Value)
      (env : Env) : Writes path (.procedure .expander id parameters body env) "#<macro>"
  /-- All parts of a sequence or map are written inside the cells that it lies in itself. -/
  | row {path : List CellId} {value : Value} {row : Value.Row} (textOf : Value → String)
      (isRow : value.row? = some row) (each : ∀ item ∈ row.items, Writes path item (textOf item)) :
      Writes path value (row.text textOf)
  /-- An atom inside itself is abbreviated. -/
  | again {path : List CellId} {cell : CellId} (isInside : cell ∈ path) :
      Writes path (.atom cell) "(atom ...)"
  /-- The contents of any other atom are written, inside its cell. -/
  | entered {path : List CellId} {cell : CellId} {text : String} (isNew : cell ∉ path)
      (inner : Writes (cell :: path) (contents cell) text) :
      Writes path (.atom cell) ("(atom " ++ text ++ ")")

/-- What stands at a place in the text of a value: the cells that have been entered on the way down
to it, innermost first, and the texts in front of it and behind it. -/
inductive Stands (top : Value) : List CellId → Value → String → String → Prop where
  | top : Stands top [] top "" ""
  /-- A part of a sequence or map has the parts around it at its sides. -/
  | item {path : List CellId} {value item : Value} {before after : String} {row : Value.Row}
      {front behind : List Value} (textOf : Value → String)
      (outer : Stands top path value before after) (isRow : value.row? = some row)
      (divided : row.items = front ++ item :: behind)
      (each : ∀ other ∈ front ++ behind, Writes contents style path other (textOf other)) :
      Stands top path item
        (before ++ row.opening ++ String.join (front.map fun other => textOf other ++ " "))
        (String.join (behind.map fun other => " " ++ textOf other) ++ row.closing ++ after)
  /-- Contents stand inside the atom that has them, unless that is inside itself already. -/
  | contents {path : List CellId} {cell : CellId} {before after : String}
      (outer : Stands top path (.atom cell) before after) (isNew : cell ∉ path) :
      Stands top (cell :: path) (contents cell) (before ++ "(atom ") (")" ++ after)

end Rules

variable {contents : CellId → Value} {style : Style} {path : List CellId} {value : Value}

/-! ### A value has one text -/

namespace Writes

theorem exists_of_row {text : String} {row : Value.Row} (isRow : value.row? = some row)
    (written : Writes contents style path value text) :
    ∃ textOf, (∀ item ∈ row.items, Writes contents style path item (textOf item)) ∧
      text = row.text textOf := by
  cases written with
  | row textOf isRow' each =>
    cases isRow.symm.trans isRow'
    exact ⟨textOf, each, rfl⟩
  | _ => cases isRow

theorem atom_cases {cell : CellId} {text : String}
    (written : Writes contents style path (.atom cell) text) :
    (cell ∈ path ∧ text = "(atom ...)") ∨
      cell ∉ path ∧ ∃ inner, Writes contents style (cell :: path) (contents cell) inner ∧
        text = "(atom " ++ inner ++ ")" := by
  cases written with
  | row textOf isRow => cases isRow
  | again isInside => exact .inl ⟨isInside, rfl⟩
  | entered isNew inner => exact .inr ⟨isNew, _, inner, rfl⟩

/-- A value has one text. -/
theorem unique {text other : String} (written : Writes contents style path value text)
    (writtenToo : Writes contents style path value other) : text = other := by
  -- The induction is on the rule of the first text; the rule of the second is the same one.
  induction written generalizing other with
  | row textOf isRow _ ih =>
    obtain ⟨textOf', each, rfl⟩ := writtenToo.exists_of_row isRow
    have same := List.map_congr_left fun item mem => ih item mem (each item mem)
    rw [Value.Row.text, same, Value.Row.text]
  | again isInside =>
    obtain ⟨_, rfl⟩ | ⟨isNew, _⟩ := writtenToo.atom_cases
    · rfl
    · exact absurd isInside isNew
  | entered isNew _ ih =>
    obtain ⟨isInside, _⟩ | ⟨_, inner, writtenInner, rfl⟩ := writtenToo.atom_cases
    · exact absurd isInside isNew
    · rw [ih writtenInner]
  | _ =>
    -- What is no row and no atom has a rule to itself.
    cases writtenToo with
    | row textOf isRow => cases isRow
    | _ => rfl

end Writes

/-! ### Every value has a text -/

namespace Value

theorem renderItems_eq_map (cellText : CellId → String) (style : Style) (items : List Value) :
    renderItems cellText style items = items.map (renderWith cellText style) := by
  induction items with
  | nil => rfl
  | cons item rest ih => rw [renderItems, ih, List.map_cons]

theorem sizeOf_lt_of_mem_toForms {entries : Entries} {form : Value}
    (mem : form ∈ Entries.toForms entries) : sizeOf form < sizeOf (Value.map entries) := by
  obtain ⟨entry, isEntry, isPart⟩ := List.mem_flatMap.mp mem
  rcases List.mem_pair.mp isPart with rfl | rfl
  · exact (sizeOf_lt_of_mem_entries isEntry).1
  · exact (sizeOf_lt_of_mem_entries isEntry).2

/-- A value is written by the rules where the atoms in it are. -/
theorem writes_renderWith {cellText : CellId → String}
    (ofCell : ∀ cell, Writes contents style path (.atom cell) (cellText cell)) (value : Value) :
    Writes contents style path value (renderWith cellText style value) := by
  match value with
  | nil => exact .nil
  | bool true => exact .bool true
  | bool false => exact .bool false
  | number x => exact .number x
  | string text => exact .string text
  | symbol name => exact .symbol name
  | keyword name => exact .keyword name
  | seq kind items =>
    rw [renderWith, renderItems_eq_map]
    have isRow : row? (.seq kind items) = some ⟨kind.opening, items, kind.closing⟩ := rfl
    exact .row _ isRow fun item mem => writes_renderWith ofCell item
  | map entries =>
    rw [renderWith, renderEntries_eq, renderItems_eq_map]
    have isRow : row? (.map entries) = some ⟨"\x7b", Entries.toForms entries, "\x7d"⟩ := rfl
    exact .row _ isRow fun form mem => writes_renderWith ofCell form
  | atom cell => exact ofCell cell
  | native f => exact .native f
  | procedure .function id parameters body env => exact .function id parameters body env
  | procedure .expander id parameters body env => exact .expander id parameters body env
termination_by sizeOf value
decreasing_by
  · exact sizeOf_lt_of_mem_items kind mem
  · exact sizeOf_lt_of_mem_toForms mem

end Value

namespace Store

/-- How many cells of a store have not been entered. -/
def unentered (s : Store) (path : List CellId) : Nat :=
  ((Finset.range s.cells.size).filter (· ∉ path)).card

theorem unentered_cons_lt {s : Store} {cell : CellId} (isCell : cell < s.cells.size)
    (isNew : cell ∉ path) : s.unentered (cell :: path) < s.unentered path := by
  have others : (Finset.range s.cells.size).filter (· ∉ cell :: path) =
      ((Finset.range s.cells.size).filter (· ∉ path)).erase cell := by
    ext other
    simp only [Finset.mem_filter, Finset.mem_erase, List.mem_cons, not_or]
    exact and_left_comm
  rw [unentered, others]
  exact Finset.card_erase_lt_of_mem
    (Finset.mem_filter.mpr ⟨Finset.mem_range.mpr isCell, isNew⟩)

/-- The text of a cell is written by the rules, to a depth of more cells than there are left to
enter. -/
theorem writes_renderCell (s : Store) (style : Style) {depth : Nat} {path : List CellId}
    (deep : s.unentered path < depth) (cell : CellId) :
    Writes s.contents style path (.atom cell)
      (Value.renderCell s.contents style depth path cell) := by
  -- What a cell holds is written inside one cell more: one less is left to enter, and one level
  -- less is needed.
  induction depth generalizing path cell with
  | zero => exact absurd deep (Nat.not_lt_zero _)
  | succ depth ih =>
    rw [Value.renderCell]
    split
    · exact .again ‹_›
    · rename_i isNew
      refine .entered isNew ?_
      by_cases isCell : cell < s.cells.size
      · have deeper : s.unentered (cell :: path) < depth :=
          Nat.lt_of_lt_of_le (unentered_cons_lt isCell isNew) (Nat.le_of_lt_succ deep)
        exact Value.writes_renderWith (ih deeper) (s.contents cell)
      · -- A cell that there is not has nothing in it, so no depth is needed.
        rw [contents, Array.getElem?_eq_none (Nat.le_of_not_lt isCell)]
        exact .nil

/-- Every value has a text, inside whatever cells it lies. -/
theorem exists_writes (s : Store) (style : Style) (path : List CellId) (value : Value) :
    ∃ text, Writes s.contents style path value text :=
  ⟨_, Value.writes_renderWith (s.writes_renderCell style (Nat.lt_succ_self _)) value⟩

/-- The text of a value that lies in no cell. -/
theorem writes_render (s : Store) (style : Style) (value : Value) :
    Writes s.contents style [] value (s.render style value) := by
  have deep : s.unentered [] < s.cells.size + 1 := by
    have atMost := Finset.card_filter_le (Finset.range s.cells.size) (· ∉ ([] : List CellId))
    rw [Finset.card_range] at atMost
    exact Nat.lt_succ_of_le atMost
  exact Value.writes_renderWith (s.writes_renderCell style deep) value

end Store

/-! ### What stands in a text -/

theorem intercalate_cons (separator text : String) (behind : List String) :
    separator.intercalate (text :: behind) = text ++ String.join (behind.map (separator ++ ·)) := by
  induction behind generalizing text with
  | nil => simp
  | cons next behind ih =>
    rw [String.intercalate_cons_cons, ih, List.map_cons, String.join_cons, String.append_assoc,
      String.append_assoc]

theorem intercalate_append_cons (separator text : String) (front behind : List String) :
    separator.intercalate (front ++ text :: behind) =
      String.join (front.map (· ++ separator)) ++ text ++
        String.join (behind.map (separator ++ ·)) := by
  induction front with
  | nil => simpa using intercalate_cons separator text behind
  | cons first front ih =>
    rw [List.cons_append, String.intercalate_cons_of_ne_nil (by simp), ih, List.map_cons,
      String.join_cons]
    simp only [String.append_assoc]

/-- What stands at a place in the text of a value is written there, inside the cells on the way. -/
theorem Stands.exists_writes {top : Value} {whole before after : String}
    (written : Writes contents style [] top whole)
    (stands : Stands contents style top path value before after) :
    ∃ text, Writes contents style path value text ∧ whole = before ++ text ++ after := by
  -- The text of what stands further out is known, and is taken apart by its rule.
  induction stands with
  | top => exact ⟨whole, written, by simp⟩
  | @item path value item before after row front behind textOf _ isRow divided each ih =>
    obtain ⟨text, ofValue, rfl⟩ := ih
    obtain ⟨textOf', each', rfl⟩ := ofValue.exists_of_row isRow
    rw [divided] at each'
    have ofItem := each' item (by simp)
    -- The parts at the sides have one text, so it does not matter how the texts are named.
    have same : ∀ other ∈ front ++ behind, textOf' other = textOf other := by
      intro other mem
      have isPart : other ∈ front ++ item :: behind := by
        simpa [or_left_comm] using Or.inr (List.mem_append.mp mem)
      exact (each' other isPart).unique (each other mem)
    have sameFront := List.map_congr_left fun other mem => same other (List.mem_append_left _ mem)
    have sameBehind := List.map_congr_left fun other mem => same other (List.mem_append_right _ mem)
    refine ⟨textOf' item, ofItem, ?_⟩
    rw [Value.Row.text, divided, List.map_append, List.map_cons, sameFront, sameBehind,
      intercalate_append_cons, List.map_map, List.map_map]
    simp only [String.append_assoc]
    rfl
  | contents _ isNew ih =>
    obtain ⟨text, ofAtom, rfl⟩ := ih
    obtain ⟨isInside, _⟩ | ⟨_, inner, ofContents, rfl⟩ := ofAtom.atom_cases
    · exact absurd isInside isNew
    · exact ⟨inner, ofContents, by simp only [String.append_assoc]⟩

/-- Each part of a sequence or map stands somewhere in the text, inside the same cells. -/
theorem Store.exists_stands_item (s : Store) {top item : Value} {before after : String}
    {row : Value.Row} (stands : Stands s.contents style top path value before after)
    (isRow : value.row? = some row) (mem : item ∈ row.items) :
    ∃ before' after', Stands s.contents style top path item before' after' := by
  obtain ⟨front, behind, divided⟩ := List.mem_iff_append.mp mem
  choose textOf written using s.exists_writes style path
  exact ⟨_, _, .item textOf stands isRow divided fun other _ => written other⟩

/-- Printing comes to an end in every store, whatever the cells hold: the text of a value is the one
that the rules of writing give it. At each place in that text, an atom is abbreviated when its cell
has been entered on the way down to this place, and is written with its contents otherwise. (So an
atom that holds the symbol `...` has the text of an abbreviation, and is written in full.) A
sequence or map is written as its parts, with single spaces between them, and all of them inside the
same cells as it is itself. -/
theorem Store.render_abbreviates_cycles (s : Store) (style : Style) (top : Value) :
    (∀ text, s.render style top = text ↔ Writes s.contents style [] top text) ∧
    ∀ path value before after, Stands s.contents style top path value before after →
      ∃ text, (∀ other, Writes s.contents style path value other ↔ other = text) ∧
        s.render style top = before ++ text ++ after ∧
        (∀ cell, value = .atom cell →
          (cell ∈ path → text = "(atom ...)") ∧
          (cell ∉ path → ∃ inner,
            Writes s.contents style (cell :: path) (s.contents cell) inner ∧
              text = "(atom " ++ inner ++ ")")) ∧
        ∀ row, value.row? = some row → ∃ textOf, text = row.text textOf ∧
          ∀ item ∈ row.items, Writes s.contents style path item (textOf item) ∧
            ∃ before' after', Stands s.contents style top path item before' after' := by
  have written := s.writes_render style top
  refine ⟨fun text => ⟨fun printed => printed ▸ written, written.unique⟩, ?_⟩
  intro path value before after stands
  obtain ⟨text, ofValue, whole⟩ := stands.exists_writes written
  refine ⟨text, fun other => ⟨fun ofOther => ofOther.unique ofValue, fun same => same ▸ ofValue⟩,
    whole, fun cell isAtom => ?_, fun row isRow => ?_⟩
  · subst isAtom
    obtain ⟨isInside, abbreviated⟩ | ⟨isNew, inFull⟩ := ofValue.atom_cases
    · exact ⟨fun _ => abbreviated, fun isNew => absurd isInside isNew⟩
    · exact ⟨fun isInside => absurd isInside isNew, fun _ => inFull⟩
  · obtain ⟨textOf, each, inRow⟩ := ofValue.exists_of_row isRow
    exact ⟨textOf, inRow, fun item mem =>
      ⟨each item mem, s.exists_stands_item stands isRow mem⟩⟩

/-- Two atoms of one cell, which holds a list with an atom of the cell in it: the second one is
written in full, like the first. -/
theorem Store.render_abbreviates_cycles_shared :
    let s : Store :=
      { Store.initial (fun _ => none) with cells := #[.list [.bool true, .atom 0]] }
    s.render .readable (.list [.atom 0, .atom 0]) =
        "((atom (true (atom ...))) (atom (true (atom ...))))" ∧
      Stands s.contents .readable (.list [.atom 0, .atom 0]) [] (.atom 0)
        "((atom (true (atom ...))) " ")" ∧
      ∃ inner, Writes s.contents .readable [0] (s.contents 0) inner ∧
        s.render .readable (.list [.atom 0, .atom 0]) =
          "((atom (true (atom ...))) " ++ ("(atom " ++ inner ++ ")") ++ ")" := by
  intro s
  have first : Writes s.contents .readable [] (.atom 0) "(atom (true (atom ...)))" :=
    s.writes_render .readable (.atom 0)
  have isRow : Value.row? (.list [.atom 0, .atom 0]) = some ⟨"(", [.atom 0, .atom 0], ")"⟩ := rfl
  have divided : [Value.atom 0, .atom 0] = [.atom 0] ++ .atom 0 :: [] := rfl
  have second : Stands s.contents .readable (.list [.atom 0, .atom 0]) [] (.atom 0)
      "((atom (true (atom ...))) " ")" :=
    .item (fun _ => "(atom (true (atom ...)))") .top isRow divided (by simpa using first)
  obtain ⟨text, _, whole, ofAtom, _⟩ :=
    (s.render_abbreviates_cycles .readable (.list [.atom 0, .atom 0])).2 _ _ _ _ second
  obtain ⟨inner, ofContents, rfl⟩ := (ofAtom 0 rfl).2 List.not_mem_nil
  exact ⟨rfl, second, inner, ofContents, whole⟩

end SmallLisp
