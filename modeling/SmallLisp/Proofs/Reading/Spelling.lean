import Mathlib.Data.List.Forall2
import SmallLisp.Proofs.Reading.Atoms
import SmallLisp.Proofs.Reading.Nested
import SmallLisp.Text.Quoted

/-!
# Spellings

Characters spell a value when they are read as it wherever they stand, in front of the end of the
text or of a character that does not lengthen a word. A word spells the atom that it denotes, a
quoted text spells the string of what stands between the quotes, and spellings with spaces between
them and marks around them spell a sequence.

A quoted text is one lexeme, for the quotes and backslashes in it are escaped: its characters up to
the last quote are those of a literal that is still open.

## Main definitions

* `Scan.IsWord`, `Scan.Cuts`: words, and what does not lengthen them
* `Form.Spells`, `Form.SpellsItems`: characters that are read as a value, or as several

## Main results

* `Form.spells_word`, `Form.spells_quoted`: what words and quoted texts spell
* `Form.spellsItems_intercalate`, `Form.SpellsItems.enclose`: spellings of sequences
* `Form.Spells.read_scan`: a spelling that is a whole text is read as the value
-/

namespace SmallLisp

namespace Scan

/-- What follows a word does not lengthen it: it is the end of the text, or begins with a character
that is no part of words. -/
def Cuts (following : List Char) : Prop := ∀ c ∈ following.head?, isRunChar c = false

theorem cuts_nil : Cuts [] := by simp [Cuts]

theorem cuts_cons {c : Char} (notRun : isRunChar c = false) (rest : List Char) :
    Cuts (c :: rest) := by
  simpa [Cuts] using notRun

/-- A word: a run of characters whose first one is not a mark where a token starts. -/
def IsWord (word : List Char) : Prop :=
  ∃ c rest, word = c :: rest ∧ isLeadingMark c = false ∧ c ≠ '~' ∧ ∀ c ∈ word, isRunChar c = true

theorem begin_of_isRunChar {c : Char} (isRun : isRunChar c = true)
    (notMark : isLeadingMark c = false) (notTilde : c ≠ '~') : begin c = (.run [c], []) := by
  simp only [isRunChar, Bool.not_eq_true', Bool.or_eq_false_iff, beq_eq_false_iff_ne] at isRun
  obtain ⟨⟨⟨notSeparator, notMark'⟩, notQuote⟩, notSemicolon⟩ := isRun
  simp [begin, notSeparator, notMark', notMark, notTilde, notQuote, notSemicolon]

theorem piecesFrom_run {word : List Char} (isRun : ∀ c ∈ word, isRunChar c = true)
    (reversed : List Char) {following : List Char} (cuts : Cuts following) :
    piecesFrom (.run reversed) (word ++ following) =
      .lexeme (reversed.reverse ++ word) :: pieces following := by
  induction word generalizing reversed with
  | nil =>
    cases following with
    | nil => simp [piecesFrom, finish, pieces]
    | cons c rest =>
      have notRun : isRunChar c = false := cuts c rfl
      rw [List.nil_append, piecesFrom, step, notRun, if_neg Bool.false_ne_true, List.append_nil]
      rfl
  | cons c rest ih =>
    rw [List.forall_mem_cons] at isRun
    rw [List.cons_append, piecesFrom, step, if_pos isRun.1]
    simp only [List.nil_append]
    rw [ih isRun.2, List.reverse_cons, List.append_assoc, List.singleton_append]

/-- A word that nothing lengthens is a lexeme. -/
theorem pieces_word {word : List Char} (isWord : IsWord word) {following : List Char}
    (cuts : Cuts following) :
    pieces (word ++ following) = .lexeme word :: pieces following := by
  obtain ⟨c, rest, rfl, notMark, notTilde, isRun⟩ := isWord
  rw [List.forall_mem_cons] at isRun
  rw [pieces, List.cons_append, piecesFrom, step, begin_of_isRunChar isRun.1 notMark notTilde]
  exact piecesFrom_run isRun.2 [c] cuts

/-- A mark is a lexeme wherever a token starts. -/
theorem pieces_mark {c : Char} (mark : begin c = (.start, [.lexeme [c]])) (following : List Char) :
    pieces (c :: following) = .lexeme [c] :: pieces following := by
  rw [pieces, piecesFrom, step, mark]
  rfl

theorem pieces_space (following : List Char) :
    pieces (' ' :: following) = .separator ' ' :: pieces following := rfl

theorem piecesFrom_literal_plain {c : Char} (notQuote : c ≠ '"') (notBackslash : c ≠ '\\')
    (reversed rest : List Char) :
    piecesFrom (.literal reversed) (c :: rest) = piecesFrom (.literal (c :: reversed)) rest := by
  rw [piecesFrom, step, if_neg notQuote, if_neg notBackslash]
  rfl

theorem piecesFrom_literal_escaped {c : Char} (notNewline : c ≠ '\n')
    (reversed rest : List Char) :
    piecesFrom (.literal reversed) ('\\' :: c :: rest) =
      piecesFrom (.literal (c :: '\\' :: reversed)) rest := by
  rw [piecesFrom, step, if_neg (by decide), if_pos rfl]
  simp only [List.nil_append]
  rw [piecesFrom, step, if_neg notNewline]
  rfl

theorem piecesFrom_literal (text reversed following : List Char) :
    piecesFrom (.literal reversed) (Quoted.escape text ++ '"' :: following) =
      .lexeme (reversed.reverse ++ Quoted.escape text ++ ['"']) :: pieces following := by
  induction text generalizing reversed with
  | nil =>
    rw [Quoted.escape_nil, List.nil_append, piecesFrom, step, if_pos rfl]
    simp [pieces]
  | cons c rest ih =>
    rw [Quoted.escape_cons]
    unfold Quoted.escapeChar
    split
    · exact (piecesFrom_literal_escaped (by decide) _ _).trans ((ih _).trans (by simp))
    · exact (piecesFrom_literal_escaped (by decide) _ _).trans ((ih _).trans (by simp))
    · exact (piecesFrom_literal_escaped (by decide) _ _).trans ((ih _).trans (by simp))
    · rename_i notBackslash notQuote _
      exact (piecesFrom_literal_plain notQuote notBackslash _ _).trans ((ih _).trans (by simp))

/-- A quoted text is a lexeme, whatever follows it. -/
theorem pieces_quoted (text following : List Char) :
    pieces ('"' :: Quoted.escape text ++ '"' :: following) =
      .lexeme ('"' :: Quoted.escape text ++ ['"']) :: pieces following :=
  piecesFrom_literal text ['"'] following

theorem isOpen_escape (text : List Char) {reversed : List Char} (isOpen : IsOpen reversed) :
    IsOpen ((Quoted.escape text).reverse ++ reversed) := by
  induction text generalizing reversed with
  | nil => exact isOpen
  | cons c rest ih =>
    rw [Quoted.escape_cons, List.reverse_append, List.append_assoc]
    apply ih
    unfold Quoted.escapeChar
    split
    · exact .escaped isOpen
    · exact .escaped isOpen
    · exact .escaped isOpen
    · rename_i notBackslash notQuote _
      exact .plain notQuote notBackslash isOpen

end Scan

namespace Form

/-! ### Atoms -/

theorem kind_of_isWord {word : List Char} (isWord : Scan.IsWord word) (place : Position) :
    (Token.ofLexeme (String.ofList word) place).kind = .atom := by
  obtain ⟨c, rest, rfl, notMark, notTilde, isRun⟩ := isWord
  have isRun := isRun c List.mem_cons_self
  simp only [Scan.isRunChar, Scan.isMark, Scan.isLeadingMark, Bool.not_eq_true',
    Bool.or_eq_false_iff, beq_eq_false_iff_ne] at isRun notMark
  simp only [Token.ofLexeme, TokenKind.ofLexeme, String.toList_ofList]
  split <;> simp_all

theorem kind_quoted (body : List Char) (place : Position) :
    (Token.ofLexeme (String.ofList ('"' :: body)) place).kind = .atom := by
  simp only [Token.ofLexeme, TokenKind.ofLexeme, String.toList_ofList]
  split <;> simp_all

/-- A quoted text is read as the string of what stands between its quotes. -/
theorem ofLexeme?_quoted (text : List Char) :
    ofLexeme? (String.ofList ('"' :: Quoted.escape text ++ ['"'])) =
      some (.string (String.ofList (Quoted.escape text))) := by
  have closed : PairsUp (Quoted.escape text) := by
    have even := even_backslashes (Scan.isOpen_escape text .quote)
    rwa [takeWhile_backslash_concat, ← pairsUp_iff] at even
  exact (Denotes.string (String.toList_ofList) closed).ofLexeme?

/-! ### Spellings -/

/-- The characters of a text spell a value: wherever they stand, in front of what does not lengthen
a word, they are tokens of which a form is read that is the value. -/
def Spells (text : List Char) (value : Value) : Prop :=
  ∃ pieces, (∀ following, Scan.Cuts following →
      Scan.pieces (text ++ following) = pieces ++ Scan.pieces following) ∧
    ∀ place around more, readWithin around (Scan.locate place pieces ++ more) =
      (deliver value around).resume more

/-- The characters of a text spell the items of a sequence. -/
def SpellsItems (text : List Char) (items : List Value) : Prop :=
  ∃ pieces, (∀ following, Scan.Cuts following →
      Scan.pieces (text ++ following) = pieces ++ Scan.pieces following) ∧
    ∀ place delimiters reversed around more,
      readWithin (.sequence delimiters reversed :: around) (Scan.locate place pieces ++ more) =
        readWithin (.sequence delimiters (items.reverse ++ reversed) :: around) more

theorem spells_of_lexeme {text : List Char} {value : Value}
    (single : ∀ following, Scan.Cuts following →
      Scan.pieces (text ++ following) = .lexeme text :: Scan.pieces following)
    (isAtom : ∀ place, (Token.ofLexeme (String.ofList text) place).kind = .atom)
    (denotes : ofLexeme? (String.ofList text) = some value) : Spells text value := by
  refine ⟨[.lexeme text], single, fun place around more => ?_⟩
  have isValue : ofAtom (Token.ofLexeme (String.ofList text) place) = .ok value := by
    rw [ofAtom, Token.ofLexeme]
    simp only [denotes]
  rw [Scan.locate, List.cons_append, readWithin_cons, step_of_atom (isAtom place), start,
    isAtom place]
  simp only [isValue]
  rfl

theorem spells_word {word : List Char} {value : Value} (isWord : Scan.IsWord word)
    (denotes : ofLexeme? (String.ofList word) = some value) : Spells word value :=
  spells_of_lexeme (fun _ => Scan.pieces_word isWord) (kind_of_isWord isWord) denotes

theorem spells_quoted (text : List Char) :
    Spells ('"' :: Quoted.escape text ++ ['"']) (.string (String.ofList (Quoted.escape text))) := by
  refine spells_of_lexeme (fun following _ => ?_) (kind_quoted _) (ofLexeme?_quoted text)
  rw [← Scan.pieces_quoted, List.append_assoc, List.singleton_append]

theorem spellsItems_nil : SpellsItems [] [] :=
  ⟨[], fun _ _ => rfl, fun _ _ _ _ _ => rfl⟩

theorem SpellsItems.cons {text texts : List Char} {item : Value} {items : List Value}
    (first : Spells text item) (others : SpellsItems texts items) :
    SpellsItems (text ++ ' ' :: texts) (item :: items) := by
  obtain ⟨pieces, cut, reads⟩ := first
  obtain ⟨pieces', cut', reads'⟩ := others
  refine ⟨pieces ++ .separator ' ' :: pieces', fun following cuts => ?_, ?_⟩
  · have space : Scan.Cuts (' ' :: (texts ++ following)) := Scan.cuts_cons (by decide) _
    rw [List.append_assoc, List.cons_append, cut _ space, Scan.pieces_space, cut' _ cuts,
      List.append_assoc, List.cons_append]
  · intro place delimiters reversed around more
    rw [Scan.locate_append, List.append_assoc, reads]
    change readWithin (.sequence delimiters (item :: reversed) :: around)
      (Scan.locate _ pieces' ++ more) = _
    rw [reads', List.reverse_cons, List.append_assoc, List.singleton_append]

theorem Spells.items {text : List Char} {item : Value} (spells : Spells text item) :
    SpellsItems text [item] := by
  obtain ⟨pieces, cut, reads⟩ := spells
  exact ⟨pieces, cut, fun place delimiters reversed around more => reads place _ more⟩

/-- Spellings with a space between each two of them spell the items. -/
theorem spellsItems_intercalate {texts : List (List Char)} {items : List Value}
    (spell : List.Forall₂ Spells texts items) : SpellsItems ([' '].intercalate texts) items := by
  induction spell with
  | nil => exact spellsItems_nil
  | @cons text item rest items first others ih =>
    cases others with
    | nil => simpa using first.items
    | cons second others =>
      rw [List.intercalate_cons_cons, List.append_assoc, List.singleton_append]
      exact ih.cons first

/-- The mark that opens a sequence. -/
def Delimiters.openingMark : Delimiters → Char
  | parens => '('
  | brackets => '['
  | braces => '\x7b'

theorem pieces_openingMark (delimiters : Delimiters) (following : List Char) :
    Scan.pieces (delimiters.openingMark :: following) =
      .lexeme [delimiters.openingMark] :: Scan.pieces following :=
  Scan.pieces_mark (by cases delimiters <;> decide) following

theorem pieces_mark (delimiters : Delimiters) (following : List Char) :
    Scan.pieces (delimiters.mark :: following) =
      .lexeme [delimiters.mark] :: Scan.pieces following :=
  Scan.pieces_mark (by cases delimiters <;> decide) following

theorem step_openingMark (delimiters : Delimiters) (place : Position) (around : List Unfinished) :
    step (Token.ofLexeme (String.ofList [delimiters.openingMark]) place) around =
      .advanced (.unfinished (.sequence delimiters [] :: around)) := by
  rw [step_of_not_closing (by cases delimiters <;> rfl)]
  cases delimiters <;> rfl

theorem step_mark {delimiters : Delimiters} {reversed : List Value} {value : Value}
    (built : delimiters.build reversed.reverse = .ok value) (place : Position)
    (around : List Unfinished) :
    step (Token.ofLexeme (String.ofList [delimiters.mark]) place)
        (.sequence delimiters reversed :: around) =
      .advanced (deliver value around) := by
  have kind :
      (Token.ofLexeme (String.ofList [delimiters.mark]) place).kind = delimiters.closer := by
    cases delimiters <;> rfl
  rw [step, if_pos kind, close, built]

/-- Items between the marks of a sequence spell its value. -/
theorem SpellsItems.enclose {text : List Char} {items : List Value}
    (spells : SpellsItems text items) (delimiters : Delimiters) {value : Value}
    (built : delimiters.build items = .ok value) :
    Spells (delimiters.openingMark :: text ++ [delimiters.mark]) value := by
  obtain ⟨pieces, cut, reads⟩ := spells
  refine ⟨.lexeme [delimiters.openingMark] :: pieces ++ [.lexeme [delimiters.mark]],
    fun following _ => ?_, fun place around more => ?_⟩
  · have closes : Scan.Cuts (delimiters.mark :: following) :=
      Scan.cuts_cons (by cases delimiters <;> decide) _
    rw [List.cons_append, List.cons_append, pieces_openingMark, List.append_assoc,
      List.singleton_append, cut _ closes, pieces_mark]
    simp
  · rw [List.cons_append, Scan.locate, List.cons_append, readWithin_cons, step_openingMark,
      Scan.locate_append, List.append_assoc]
    simp only [Progress.resume]
    rw [reads, List.append_nil, Scan.locate, List.cons_append, readWithin_cons, step_mark]
    · rfl
    · rw [List.reverse_reverse, built]

/-- A spelling that is a whole text is read as the value, and nothing is left. -/
theorem Spells.read_scan {text : String} {value : Value} (spells : Spells text.toList value) :
    read (Token.scan text) = ⟨.ok value, []⟩ := by
  obtain ⟨pieces, cut, reads⟩ := spells
  have scanned := cut [] Scan.cuts_nil
  have nothing : Scan.pieces [] = [] := rfl
  rw [List.append_nil, nothing, List.append_nil] at scanned
  have whole := reads Position.start [] []
  rwa [List.append_nil, ← scanned] at whole

end Form

end SmallLisp
