import SmallLisp.Form
import SmallLisp.Proofs.Reading.Seam

/-!
# Reading a text line by line

A text is read as far as its first form goes. While the form is unfinished, more lines can finish
it; once it is complete, or once something is wrong with it, more lines change nothing. Only an
open string literal is reported as wrong although further lines might end it.

What makes a form complete is its stack of unfinished forms alone, and every stack can be worked
off: an atom can be read wherever a form is awaited, and a sequence can be closed once its keys and
values pair up.

## Main definitions

* `Form.IsReadError`: the errors of reading
* `Form.Completable`: unfinished forms that some text completes

## Main results

* `Form.readWithin_append`: what has been decided stays so when more tokens follow
* `Form.completable`: all unfinished forms can be completed
* `Form.ofText_append_newline`: how a text is read when more lines follow
-/

namespace SmallLisp

namespace Entries

theorem isSome_pairs? (forms : List Value) : (pairs? forms).isSome = (forms.length % 2 == 0) := by
  induction forms using pairs?.induct with
  | case1 => rfl
  | case2 key => rfl
  | case3 key value rest ih =>
    have sameParity : (key :: value :: rest).length % 2 = rest.length % 2 := by
      rw [List.length_cons, List.length_cons]
      omega
    rw [pairs?, Option.isSome_map, ih, sameParity]

/-- Forms pair up as keys and values when their number is even. -/
theorem exists_ofForms? {forms : List Value} (even : forms.length % 2 = 0) :
    ∃ entries, ofForms? forms = some entries := by
  have paired := isSome_pairs? forms
  rw [even] at paired
  obtain ⟨pairs, isPairs⟩ := Option.isSome_iff_exists.mp paired
  exact ⟨insertAll [] pairs, by rw [ofForms?, isPairs, Option.map_some]⟩

end Entries

namespace Form

/-! ### Reading more tokens -/

/-- What can be wrong with a token or with what it closes. -/
def IsFault : Error → Prop
  | .unreadable .. | .keyWithoutValue _ => True
  | _ => False

/-- A token that is not read has a fault. -/
def Step.Faults : Step → Prop
  | .advanced _ => True
  | .failed error | .refused error => IsFault error

theorem faults_start (token : Token) (around : List Unfinished) : (start token around).Faults := by
  unfold start
  split
  case h_13 =>
    unfold ofAtom
    cases ofLexeme? token.lexeme with
    | some value => trivial
    | none => trivial
  all_goals trivial

theorem faults_close (delimiters : Delimiters) (reversed : List Value) (around : List Unfinished) :
    (close delimiters reversed around).Faults := by
  cases delimiters with
  | parens => trivial
  | brackets => trivial
  | braces =>
    rw [close, Delimiters.build]
    cases Entries.ofForms? reversed.reverse with
    | some entries => trivial
    | none => trivial

theorem faults_step (token : Token) (around : List Unfinished) : (step token around).Faults := by
  unfold step
  split
  · split
    · exact faults_close _ _ _
    · split
      · trivial
      · exact faults_start token _
  · exact faults_start token _

/-- What has been decided stays so when more tokens follow. -/
theorem readWithin_append {around : List Unfinished} {tokens : List Token}
    (decided : (readWithin around tokens).outcome ≠ .error .incomplete) (more : List Token) :
    (readWithin around (tokens ++ more)).outcome = (readWithin around tokens).outcome := by
  induction tokens generalizing around with
  | nil => exact absurd rfl decided
  | cons token rest ih =>
    rw [List.cons_append]
    unfold readWithin at decided ⊢
    cases reads : step token around with
    | advanced progress =>
      rw [reads] at decided
      cases progress with
      | finished form => rfl
      | unfinished inner => exact ih decided
    | failed error => rfl
    | refused error => rfl

/-- What is incomplete is read on inside the forms that are unfinished. -/
theorem exists_readWithin_append {around : List Unfinished} {tokens : List Token}
    (incomplete : (readWithin around tokens).outcome = .error .incomplete) :
    ∃ inner, ∀ more, readWithin around (tokens ++ more) = readWithin inner more := by
  induction tokens generalizing around with
  | nil => exact ⟨around, fun _ => rfl⟩
  | cons token rest ih =>
    -- A token that fails has a fault, and to be incomplete is none.
    have faults := faults_step token around
    unfold readWithin at incomplete
    cases reads : step token around with
    | advanced progress =>
      rw [reads] at incomplete
      cases progress with
      | finished form => cases incomplete
      | unfinished inner =>
        obtain ⟨innermost, goesOn⟩ := ih incomplete
        refine ⟨innermost, fun more => ?_⟩
        rw [List.cons_append, readWithin, reads]
        exact goesOn more
    | failed error =>
      rw [reads] at incomplete faults
      cases incomplete
      exact faults.elim
    | refused error =>
      rw [reads] at incomplete faults
      cases incomplete
      exact faults.elim

/-! ### Open literals -/

theorem even_backslashes {reversed : List Char} (isOpen : Scan.IsOpen reversed) :
    (reversed.takeWhile (· == '\\')).length % 2 = 0 := by
  induction isOpen with
  | quote => rfl
  | @plain c reversed _ notBackslash _ ih =>
    have differs : (c == '\\') = false := by simpa using notBackslash
    rw [List.takeWhile_cons, differs]
    rfl
  | @escaped c reversed _ ih =>
    by_cases isBackslash : c = '\\'
    · rw [isBackslash]
      simp only [List.takeWhile_cons, beq_self_eq_true, if_true, List.length_cons]
      omega
    · have differs : (c == '\\') = false := by simpa using isBackslash
      rw [List.takeWhile_cons, differs]
      rfl

theorem takeWhile_backslash_concat (text : List Char) :
    (text ++ ['"']).takeWhile (· == '\\') = text.takeWhile (· == '\\') := by
  induction text with
  | nil => rfl
  | cons c rest ih => rw [List.cons_append, List.takeWhile_cons, List.takeWhile_cons, ih]

theorem getLast?_of_isOpen {reversed : List Char} (isOpen : Scan.IsOpen reversed) :
    reversed.getLast? = some '"' := by
  induction isOpen with
  | quote => rfl
  | @plain c reversed _ _ _ ih => rw [List.getLast?_cons, ih, Option.getD_some]
  | @escaped c reversed _ ih =>
    rw [List.getLast?_cons, List.getLast?_cons, ih, Option.getD_some, Option.getD_some]

/-- A literal that does not end is not closed, even if its last character is a quote: the
backslashes in front of that do not pair up. -/
theorem isClosedLiteral_eq_false {reversed : List Char} (isOpen : Scan.IsOpen reversed) :
    isClosedLiteral reversed.reverse = false := by
  cases isOpen with
  | quote => rfl
  | @plain c reversed notQuote _ _ =>
    have last : ((c :: reversed).reverse.getLast? == some '"') = false := by
      rw [List.getLast?_reverse]
      simpa using notQuote
    rw [isClosedLiteral, last]
    simp
  | @escaped c reversed isOpen =>
    -- In front of the last character stand an even number of backslashes and the one that
    -- escapes it.
    have even := even_backslashes isOpen
    obtain ⟨inside, rfl⟩ := List.getLast?_eq_some_iff.mp (getLast?_of_isOpen isOpen)
    rw [takeWhile_backslash_concat] at even
    have body :
        (literalBody (c :: '\\' :: (inside ++ ['"'])).reverse).reverse = '\\' :: inside := by
      simp [literalBody]
    have odd : ((('\\' :: inside).takeWhile (· == '\\')).length % 2 == 0) = false := by
      simp only [List.takeWhile_cons, beq_self_eq_true, if_true, List.length_cons]
      rw [beq_eq_false_iff_ne]
      omega
    rw [isClosedLiteral, body, odd, Bool.and_false]

/-- A literal that does not end has no value. -/
theorem ofLexeme?_eq_none {reversed : List Char} (isOpen : Scan.IsOpen reversed) :
    ofLexeme? (String.ofList reversed.reverse) = none := by
  have notClosed := isClosedLiteral_eq_false isOpen
  obtain ⟨inside, rfl⟩ := List.getLast?_eq_some_iff.mp (getLast?_of_isOpen isOpen)
  rw [List.reverse_append, List.reverse_singleton, List.singleton_append] at notClosed ⊢
  have differs (name : String) (otherFirst : name.toList.head? ≠ some '"') :
      String.ofList ('"' :: inside.reverse) ≠ name := by
    rintro rfl
    rw [String.toList_ofList] at otherFirst
    exact otherFirst rfl
  have noConstant : constant? (String.ofList ('"' :: inside.reverse)) = none := by
    rw [constant?, if_neg (differs "nil" (by decide)), if_neg (differs "true" (by decide)),
      if_neg (differs "false" (by decide))]
  rw [ofLexeme?, noConstant, String.toList_ofList]
  simp only [literalOrSymbol?, String.toList_ofList, notClosed]
  rfl

theorem kind_of_isOpen {reversed : List Char} (isOpen : Scan.IsOpen reversed) (place : Position) :
    (Token.ofLexeme (String.ofList reversed.reverse) place).kind = .atom := by
  obtain ⟨inside, rfl⟩ := List.getLast?_eq_some_iff.mp (getLast?_of_isOpen isOpen)
  rw [List.reverse_append, List.reverse_singleton, List.singleton_append, Token.ofLexeme]
  simp only [TokenKind.ofLexeme, String.toList_ofList]
  split <;> simp_all

/-- An atom is read wherever it stands. -/
theorem step_of_atom {token : Token} (isAtom : token.kind = .atom) (around : List Unfinished) :
    step token around = start token around := by
  unfold step
  split
  · rename_i delimiters reversed outer
    have notCloser : ¬ token.kind = delimiters.closer := by
      rw [isAtom]
      cases delimiters <;> decide
    rw [if_neg notCloser, isAtom]
    rfl
  · rfl

/-- Reading a literal that does not end fails, wherever it stands. -/
theorem step_of_isOpen {reversed : List Char} (isOpen : Scan.IsOpen reversed) (place : Position)
    (around : List Unfinished) :
    step (Token.ofLexeme (String.ofList reversed.reverse) place) around =
      .failed (.unreadable place .openString) := by
  have isAtom := kind_of_isOpen isOpen place
  have noValue : ofLexeme? (Token.ofLexeme (String.ofList reversed.reverse) place).lexeme = none :=
    ofLexeme?_eq_none isOpen
  rw [step_of_atom isAtom, start, isAtom]
  simp only [ofAtom, noValue]
  rfl

/-! ### Working off the unfinished forms -/

/-- Some text completes the forms that are unfinished, wherever it begins. -/
def Completable (around : List Unfinished) : Prop :=
  ∃ text, ∀ place, ∃ form,
    (readWithin around (Scan.locate place (Scan.pieces text))).outcome = .ok form

/-- The form is complete, or some text completes it. -/
def Progress.Completable : Progress → Prop
  | .finished _ => True
  | .unfinished around => Form.Completable around

/-- A word that is read takes the forms that are unfinished as far as it goes; a line break keeps
it apart from what follows. -/
theorem completable_of_word {around : List Unfinished} {progress : Progress} (word : List Char)
    (closed : ¬ Scan.EndsOpen word) (single : Scan.pieces word = [.lexeme word])
    (reads : ∀ place, step (Token.ofLexeme (String.ofList word) place) around = .advanced progress)
    (rest : progress.Completable) : Completable around := by
  cases progress with
  | finished form =>
    refine ⟨word, fun place => ⟨form, ?_⟩⟩
    rw [single, Scan.locate, readWithin, reads]
  | unfinished inner =>
    obtain ⟨text, completes⟩ := rest
    refine ⟨word ++ '\n' :: text, fun place => ?_⟩
    obtain ⟨form, complete⟩ := completes ((place.after word).after ['\n'])
    refine ⟨form, ?_⟩
    rw [Scan.pieces_append_newline closed, single, List.singleton_append, Scan.locate, readWithin,
      reads]
    exact complete

/-- A form can be put wherever one is awaited. -/
theorem completable_of_deliver {around : List Unfinished}
    (rest : (deliver .nil around).Completable) : Completable around := by
  refine completable_of_word ['n', 'i', 'l'] ?_ (by decide) (fun place => ?_) rest
  · rintro ⟨reversed, ends⟩
    cases ends
  · rw [step_of_atom rfl]
    rfl

/-- The mark that closes a sequence. -/
def Delimiters.mark : Delimiters → Char
  | parens => ')'
  | brackets => ']'
  | braces => '\x7d'

/-- A sequence can be closed when it has a value and what is around it can be completed. -/
theorem completable_of_build {delimiters : Delimiters} {reversed : List Value}
    {around : List Unfinished} {value : Value}
    (built : delimiters.build reversed.reverse = .ok value)
    (rest : (deliver value around).Completable) :
    Completable (.sequence delimiters reversed :: around) := by
  refine completable_of_word [delimiters.mark] ?_ ?_ (fun place => ?_) rest
  · rintro ⟨reversed, ends⟩
    cases delimiters <;> cases ends
  · cases delimiters <;> decide
  · have kind :
        (Token.ofLexeme (String.ofList [delimiters.mark]) place).kind = delimiters.closer := by
      cases delimiters <;> rfl
    rw [step, if_pos kind, close, built]

/-- A sequence can be closed, if need be after one more form. -/
theorem completable_sequence (delimiters : Delimiters) (reversed : List Value)
    {around : List Unfinished} (rest : ∀ value, (deliver value around).Completable) :
    Completable (.sequence delimiters reversed :: around) := by
  cases delimiters with
  | parens => exact completable_of_build rfl (rest _)
  | brackets => exact completable_of_build rfl (rest _)
  | braces =>
    have ofEven (items : List Value) (even : items.length % 2 = 0) :
        Completable (.sequence .braces items :: around) := by
      have evenReversed : items.reverse.length % 2 = 0 := by rw [List.length_reverse, even]
      obtain ⟨entries, made⟩ := Entries.exists_ofForms? evenReversed
      refine completable_of_build ?_ (rest (.map entries))
      rw [Delimiters.build, made]
    rcases Nat.mod_two_eq_zero_or_one reversed.length with even | odd
    · exact ofEven reversed even
    · -- A value for the last key makes the number of forms even.
      apply completable_of_deliver
      apply ofEven
      rw [List.length_cons]
      omega

/-- A form that is handed to unfinished ones leaves forms that can be completed. -/
theorem completable_deliver (form : Value) (around : List Unfinished) :
    (deliver form around).Completable := by
  -- Each of the forms around is worked off before the ones around it.
  induction around generalizing form with
  | nil => trivial
  | cons inner outer ih =>
    cases inner with
    | sequence delimiters reversed => exact completable_sequence delimiters (form :: reversed) ih
    | marked name => exact ih (call name [form])
    | noteMark => exact completable_of_deliver (ih (call "with-meta" [.nil, form]))
    | noted note => exact ih (call "with-meta" [form, note])

/-- All unfinished forms can be completed. -/
theorem completable (around : List Unfinished) : Completable around :=
  completable_of_deliver (completable_deliver .nil around)

/-! ### Texts -/

theorem ofText_eq_of_decided {text : String} (decided : ofText text ≠ .error .incomplete)
    (notOpen : ∀ place, ofText text ≠ .error (.unreadable place .openString)) (more : String) :
    ofText (text ++ "\n" ++ more) = ofText text := by
  by_cases endsOpen : Scan.EndsOpen text.toList
  · -- The open literal has not been looked at, or it would have been reported.
    obtain ⟨before, reversed, place, isOpen, scanned, scansMore⟩ :=
      Token.exists_scan_of_endsOpen endsOpen
    obtain ⟨after, scannedMore⟩ := scansMore more
    have decidedBefore : (readWithin [] before).outcome ≠ .error .incomplete := by
      intro incomplete
      obtain ⟨inner, goesOn⟩ := exists_readWithin_append incomplete
      apply notOpen place
      rw [ofText, read, scanned, goesOn, readWithin, step_of_isOpen isOpen]
    rw [ofText, ofText, read, read, scanned, scannedMore, readWithin_append decidedBefore,
      readWithin_append decidedBefore]
  · rw [ofText, Token.scan_append_newline endsOpen, read, readWithin_append decided]
    rfl

theorem exists_ofText_of_incomplete {text : String}
    (incomplete : ofText text = .error .incomplete) :
    ∃ more form, ofText (text ++ "\n" ++ more) = .ok form := by
  have closed : ¬ Scan.EndsOpen text.toList := by
    intro endsOpen
    obtain ⟨before, reversed, place, isOpen, scanned, _⟩ := Token.exists_scan_of_endsOpen endsOpen
    rw [ofText, read, scanned] at incomplete
    by_cases goesOn : (readWithin [] before).outcome = .error .incomplete
    · obtain ⟨inner, goesOn⟩ := exists_readWithin_append goesOn
      rw [goesOn, readWithin, step_of_isOpen isOpen] at incomplete
      cases incomplete
    · rw [readWithin_append goesOn] at incomplete
      exact goesOn incomplete
  obtain ⟨inner, goesOn⟩ := exists_readWithin_append incomplete
  obtain ⟨more, completes⟩ := completable inner
  obtain ⟨form, complete⟩ := completes ((Position.start.after text.toList).next '\n')
  refine ⟨String.ofList more, form, ?_⟩
  rw [ofText, Token.scan_append_newline closed, read, goesOn, String.toList_ofList]
  exact complete

/-- A text is read as before when more lines follow, once it has a form or something is wrong with
it; while it is incomplete, there are lines that complete it. Open string literals apart, a text is
incomplete exactly when it has no form and more lines can give it one. -/
theorem ofText_append_newline (text : String) :
    (∀ form, ofText text = .ok form → ∀ more, ofText (text ++ "\n" ++ more) = .ok form) ∧
    (ofText text = .error .incomplete →
      ∃ more form, ofText (text ++ "\n" ++ more) = .ok form) ∧
    (∀ count, ofText text = .error (.keyWithoutValue count) →
      ∀ more, ofText (text ++ "\n" ++ more) = .error (.keyWithoutValue count)) ∧
    (∀ place fault, fault ≠ .openString → ofText text = .error (.unreadable place fault) →
      ∀ more, ofText (text ++ "\n" ++ more) = .error (.unreadable place fault)) ∧
    ((∀ place, ofText text ≠ .error (.unreadable place .openString)) →
      (ofText text = .error .incomplete ↔ (∀ form, ofText text ≠ .ok form) ∧
        ∃ more form, ofText (text ++ "\n" ++ more) = .ok form)) := by
  refine ⟨fun form reads more => ?_, exists_ofText_of_incomplete, fun count fails more => ?_,
    fun place fault notOpen fails more => ?_, fun notOpen => ⟨fun incomplete => ?_, ?_⟩⟩
  · rw [ofText_eq_of_decided (by simp [reads]) (by simp [reads]), reads]
  · rw [ofText_eq_of_decided (by simp [fails]) (by simp [fails]), fails]
  · rw [ofText_eq_of_decided (by simp [fails]) (by simp [fails, notOpen]), fails]
  · exact ⟨by simp [incomplete], exists_ofText_of_incomplete incomplete⟩
  · rintro ⟨noForm, more, form, reads⟩
    apply Classical.byContradiction
    intro decided
    rw [ofText_eq_of_decided decided notOpen] at reads
    exact noForm form reads

/-- A list that has begun. -/
theorem ofText_append_newline_list :
    ofText "(a" = .error .incomplete ∧ ∃ more form, ofText ("(a" ++ "\n" ++ more) = .ok form :=
  ⟨by rfl, (ofText_append_newline "(a").2.1 (by rfl)⟩

end Form

end SmallLisp
