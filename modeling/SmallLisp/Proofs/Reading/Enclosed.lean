import Mathlib.Data.List.Forall2
import SmallLisp.Proofs.Reading.Nested

/-!
# Texts between parentheses

A text is put between the parentheses of a `do` form, as the prelude does with the text of a file.
When all forms of the text can be read, the whole is read as the form of all of them. Otherwise it
can still be read: a parenthesis in the text that closes nothing closes the `do` form, and what
follows it is not looked at.

Tokens stand in other places in the longer text, and a literal that the text leaves open goes on
behind it. Neither changes what is read, only where an error is reported.

## Main definitions

* `Form.Alike`: tokens that are alike to the reader
* `Form.enclosed`: a text between the parentheses of a `do` form

## Main results

* `Form.readWithin_of_alike`: from tokens that are alike the same form is read
* `Form.ofText_enclosed_eq_ok_iff`: when a text between parentheses is read, and as what
-/

namespace SmallLisp.Form

/-! ### Tokens that are read alike -/

/-- Tokens that are alike to the reader, wherever they stand. -/
def Alike (token other : Token) : Prop :=
  token.kind = other.kind ∧ ofLexeme? token.lexeme = ofLexeme? other.lexeme

theorem Alike.symm {token other : Token} (alike : Alike token other) : Alike other token :=
  ⟨alike.1.symm, alike.2.symm⟩

theorem Alike.start_eq_advanced {token other : Token} (alike : Alike token other)
    {around : List Unfinished} {progress : Progress}
    (reads : start token around = .advanced progress) :
    start other around = .advanced progress := by
  unfold start ofAtom at reads ⊢
  rw [← alike.1, ← alike.2]
  revert reads
  cases token.kind with
  | atom => cases ofLexeme? token.lexeme <;> simp
  | _ => simp

theorem Alike.step_eq_advanced {token other : Token} (alike : Alike token other)
    {around : List Unfinished} {progress : Progress}
    (reads : step token around = .advanced progress) : step other around = .advanced progress := by
  cases around with
  | nil => exact alike.start_eq_advanced reads
  | cons inner outer =>
    cases inner with
    | sequence delimiters reversed =>
      simp only [step] at reads ⊢
      rw [← alike.1]
      split at reads
      · rename_i closes
        rwa [if_pos closes]
      · rename_i notCloser
        rw [if_neg notCloser]
        split at reads
        · cases reads
        · rename_i notClosing
          rw [if_neg notClosing]
          exact alike.start_eq_advanced reads
    | _ => exact alike.start_eq_advanced reads

/-- From tokens that are alike the same form is read. -/
theorem readWithin_of_alike {around : List Unfinished} {tokens others rest : List Token}
    {form : Value} (alike : List.Forall₂ Alike tokens others)
    (complete : readWithin around tokens = ⟨.ok form, rest⟩) :
    ∃ rest', readWithin around others = ⟨.ok form, rest'⟩ ∧ List.Forall₂ Alike rest rest' := by
  induction alike generalizing around with
  | nil => cases complete
  | @cons token other following following' first alike ih =>
    rw [readWithin_cons] at complete ⊢
    cases reads : step token around with
    | advanced progress =>
      rw [reads] at complete
      rw [first.step_eq_advanced reads]
      cases progress with
      | finished form =>
        cases complete
        exact ⟨following', rfl, alike⟩
      | unfinished inner => exact ih complete
    | failed error =>
      rw [reads] at complete
      cases complete
    | refused error =>
      rw [reads] at complete
      cases complete

/-- The tokens of pieces are alike wherever these stand. -/
theorem alike_locate (place place' : Position) (pieces : List Piece) :
    List.Forall₂ Alike (Scan.locate place pieces) (Scan.locate place' pieces) := by
  induction pieces generalizing place place' with
  | nil => exact .nil
  | cons piece rest ih =>
    cases piece with
    | lexeme text => exact .cons ⟨rfl, rfl⟩ (ih _ _)
    | separator c => exact ih _ _
    | comment text => exact ih _ _

/-- Literals that do not end are alike. -/
theorem alike_of_isOpen {reversed reversed' : List Char} (isOpen : Scan.IsOpen reversed)
    (isOpen' : Scan.IsOpen reversed') (place place' : Position) :
    Alike (Token.ofLexeme (String.ofList reversed.reverse) place)
      (Token.ofLexeme (String.ofList reversed'.reverse) place') :=
  ⟨(kind_of_isOpen isOpen place).trans (kind_of_isOpen isOpen' place').symm,
    (ofLexeme?_eq_none isOpen).trans (ofLexeme?_eq_none isOpen').symm⟩

/-! ### A text between the parentheses of a `do` form -/

/-- A text put behind the head of a `do` form, with a line break in front of the parenthesis that
closes it. -/
def enclosed (content : String) : String := "(do " ++ content ++ "\n)"

theorem exists_scan_enclosed (content : String) :
    ∃ opening head tokens, Token.scan (enclosed content) = opening :: head :: tokens ∧
      (∀ rest, readWithin [] (opening :: head :: rest) =
        readWithin [.sequence .parens [.symbol "do"]] rest) ∧
      (List.Forall₂ Alike tokens (Token.scan content ++ [⟨.rightParen, ")", .start⟩]) ∨
        Scan.EndsOpen content.toList ∧ List.Forall₂ Alike tokens (Token.scan content)) := by
  have characters : (enclosed content).toList =
      '(' :: 'd' :: 'o' :: ' ' :: (content.toList ++ '\n' :: [')']) := by
    simp [enclosed]
  have begins (rest : List Char) : Scan.pieces ('(' :: 'd' :: 'o' :: ' ' :: rest) =
      .lexeme ['('] :: .lexeme ['d', 'o'] :: .separator ' ' :: Scan.pieces rest := rfl
  have scanned : Token.scan (enclosed content) =
      Token.ofLexeme "(" ⟨1, 1⟩ :: Token.ofLexeme "do" ⟨1, 2⟩ ::
        Scan.locate ⟨1, 5⟩ (Scan.pieces (content.toList ++ '\n' :: [')'])) := by
    rw [Token.scan, characters, begins]
    rfl
  refine ⟨_, _, _, scanned, fun rest => rfl, ?_⟩
  by_cases endsOpen : Scan.EndsOpen content.toList
  · right
    refine ⟨endsOpen, ?_⟩
    obtain ⟨reversed, ends⟩ := endsOpen
    have starts : Scan.Mode.start.KeepsOpen := trivial
    have isOpen := Scan.keepsOpen_reached starts content.toList
    rw [ends] at isOpen
    -- The literal goes on to the end of the whole text, and does not end there either.
    have isOpen' : Scan.IsOpen (')' :: '\n' :: reversed) :=
      .plain (by decide) (by decide) (.plain (by decide) (by decide) isOpen)
    rw [Token.scan, Scan.pieces, Scan.pieces, Scan.piecesFrom_append, Scan.locate_append,
      Scan.piecesFrom_eq .start content.toList, ends, Scan.locate_append]
    exact List.rel_append (alike_locate _ _ _) (.cons (alike_of_isOpen isOpen' isOpen _ _) .nil)
  · left
    rw [Scan.pieces_append_newline endsOpen, Scan.locate_append]
    exact List.rel_append (alike_locate _ _ _) (.cons ⟨rfl, rfl⟩ .nil)

theorem exists_advanced_of_readWithin {around : List Unfinished} {tokens rest : List Token}
    {form : Value} (complete : readWithin around tokens = ⟨.ok form, rest⟩) {token : Token}
    (mem : token ∈ tokens) :
    token ∈ rest ∨ ∃ around progress, step token around = .advanced progress := by
  induction tokens generalizing around with
  | nil => cases mem
  | cons first following ih =>
    rw [readWithin_cons] at complete
    cases reads : step first around with
    | advanced progress =>
      rw [reads] at complete
      rcases List.mem_cons.mp mem with rfl | mem
      · exact .inr ⟨around, progress, reads⟩
      · cases progress with
        | finished other =>
          cases complete
          exact .inl mem
        | unfinished inner => exact ih complete mem
    | failed error =>
      rw [reads] at complete
      cases complete
    | refused error =>
      rw [reads] at complete
      cases complete

/-- When all forms are read, each token has been. -/
theorem exists_advanced_of_readAll {tokens : List Token} {forms : List Value}
    (reads : readAll tokens = .ok forms) {token : Token} (mem : token ∈ tokens) :
    ∃ around progress, step token around = .advanced progress := by
  induction tokens using readAll.induct generalizing forms with
  | case1 tokens isEmpty =>
    obtain rfl := List.isEmpty_iff.mp isEmpty
    cases mem
  | case2 tokens notEmpty error rest fails =>
    have notEmpty : tokens ≠ [] := by simpa using notEmpty
    rw [readAll_eq_of_ne_nil notEmpty, fails] at reads
    cases reads
  | case3 tokens notEmpty form rest complete _ ih =>
    have notEmpty : tokens ≠ [] := by simpa using notEmpty
    obtain ⟨_, _, others, complete', readsRest, rfl⟩ := (readAll_eq_ok_iff notEmpty).mp reads
    cases complete.symm.trans complete'
    rcases exists_advanced_of_readWithin complete mem with mem | advanced
    · exact ih readsRest mem
    · exact advanced

/-- A literal that does not end keeps the forms of a text from being read. -/
theorem not_endsOpen_of_allOfText {content : String} {forms : List Value}
    (reads : allOfText content = .ok forms) : ¬ Scan.EndsOpen content.toList := by
  intro endsOpen
  obtain ⟨before, reversed, place, isOpen, scanned, _⟩ := Token.exists_scan_of_endsOpen endsOpen
  rw [allOfText, scanned] at reads
  obtain ⟨around, progress, advanced⟩ := exists_advanced_of_readAll reads
    (List.mem_append_right before (List.mem_singleton_self _))
  rw [step_of_isOpen isOpen] at advanced
  cases advanced

theorem forall₂_alike_symm {tokens others : List Token} (alike : List.Forall₂ Alike tokens others) :
    List.Forall₂ Alike others tokens :=
  alike.flip.imp fun _ _ => Alike.symm

/-- A text between the parentheses of a `do` form is read as the form of all its forms, or of those
in front of a parenthesis that closes nothing. -/
theorem ofText_enclosed_eq_ok_iff {content : String} {form : Value} :
    ofText (enclosed content) = .ok form ↔
      ∃ forms, form = call "do" forms ∧ (allOfText content = .ok forms ∨
        ∃ before closing rest, Token.scan content = before ++ closing :: rest ∧
          closing.kind = .rightParen ∧ readAll before = .ok forms) := by
  obtain ⟨opening, head, tokens, scanned, begins, alike⟩ := exists_scan_enclosed content
  have ofAlike {others before rest : List Token} {closing : Token} {forms : List Value}
      (alike : List.Forall₂ Alike tokens others) (cut : others = before ++ closing :: rest)
      (isParen : closing.kind = .rightParen) (reads : readAll before = .ok forms) :
      ofText (enclosed content) = .ok (call "do" forms) := by
    have complete : readWithin [.sequence .parens [.symbol "do"]] others =
        ⟨.ok (call "do" forms), rest⟩ :=
      readWithin_list_eq_ok_iff.mpr ⟨before, closing, forms, cut, isParen, reads, rfl⟩
    obtain ⟨rest', complete', _⟩ := readWithin_of_alike (forall₂_alike_symm alike) complete
    rw [ofText, scanned, read, begins, complete']
  constructor
  · intro complete
    rw [ofText, scanned, read, begins] at complete
    obtain ⟨rest, complete⟩ : ∃ rest, readWithin [.sequence .parens [.symbol "do"]] tokens =
        ⟨.ok form, rest⟩ := ⟨_, by rw [← complete]⟩
    rcases alike with alike | ⟨_, alike⟩
    · obtain ⟨rest', complete', _⟩ := readWithin_of_alike alike complete
      obtain ⟨before, closing, forms, cut, isParen, reads, rfl⟩ :=
        readWithin_list_eq_ok_iff.mp complete'
      refine ⟨forms, rfl, ?_⟩
      -- The parenthesis is the last one, or one in the text.
      rcases List.eq_nil_or_concat rest' with rfl | ⟨rest'', last, rfl⟩
      · obtain ⟨rfl, _⟩ := List.append_inj' cut rfl
        exact .inl reads
      · rw [List.concat_eq_append, ← List.cons_append, ← List.append_assoc] at cut
        exact .inr ⟨before, closing, rest'', (List.append_inj' cut rfl).1, isParen, reads⟩
    · obtain ⟨rest', complete', _⟩ := readWithin_of_alike alike complete
      obtain ⟨before, closing, forms, cut, isParen, reads, rfl⟩ :=
        readWithin_list_eq_ok_iff.mp complete'
      exact ⟨forms, rfl, .inr ⟨before, closing, rest', cut, isParen, reads⟩⟩
  · rintro ⟨forms, rfl, reads | ⟨before, closing, rest, cut, isParen, reads⟩⟩
    · have alike := alike.resolve_right fun h => not_endsOpen_of_allOfText reads h.1
      exact ofAlike alike rfl rfl reads
    · rcases alike with alike | ⟨_, alike⟩
      · exact ofAlike alike (by rw [cut, List.append_assoc, List.cons_append]) isParen reads
      · exact ofAlike alike cut isParen reads

end SmallLisp.Form
