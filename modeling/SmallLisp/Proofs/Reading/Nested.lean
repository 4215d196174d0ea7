import SmallLisp.Proofs.Reading.Incremental

/-!
# Reading inside unfinished forms

A form is read in the same way wherever it stands: a token sees the innermost unfinished form only,
and a form that is complete is handed to those around it. So the items of a sequence are read as
forms are at top level, up to the mark that closes the sequence.

## Main definitions

* `Form.Progress.within`, `Form.Reading.within`: what is read, with unfinished forms around it
* `Form.Progress.resume`: reading on from where reading has come

## Main results

* `Form.readWithin_append_around`: a form is read in the same way wherever it stands
* `Form.readWithin_sequence`: several forms are read in a sequence as they are at top level
* `Form.readWithin_sequence_eq_ok_iff`: what a sequence that has begun is read as
-/

namespace SmallLisp.Form

/-! ### Unfinished forms around unfinished forms -/

/-- What has been read so far, with more unfinished forms around it. -/
def Progress.within (outer : List Unfinished) : Progress → Progress
  | .finished form => deliver form outer
  | .unfinished inner => .unfinished (inner ++ outer)

/-- What a token does, with more unfinished forms around it. -/
def Step.within (outer : List Unfinished) : Step → Step
  | .advanced progress => .advanced (progress.within outer)
  | .failed error => .failed error
  | .refused error => .refused error

/-- Reads on from where reading has come. -/
def Progress.resume : Progress → List Token → Reading
  | .finished form, rest => ⟨.ok form, rest⟩
  | .unfinished around, rest => readWithin around rest

/-- What is read, with unfinished forms around it that it is then handed to. -/
def Reading.within (outer : List Unfinished) : Reading → Reading
  | ⟨.ok form, rest⟩ => (deliver form outer).resume rest
  | ⟨.error error, rest⟩ => ⟨.error error, rest⟩

theorem readWithin_cons (around : List Unfinished) (token : Token) (rest : List Token) :
    readWithin around (token :: rest) =
      match step token around with
      | .advanced progress => progress.resume rest
      | .failed error => ⟨.error error, rest⟩
      | .refused error => ⟨.error error, token :: rest⟩ := by
  rw [readWithin]
  cases step token around with
  | advanced progress => cases progress <;> rfl
  | failed error => rfl
  | refused error => rfl

theorem deliver_append (form : Value) (inner outer : List Unfinished) :
    deliver form (inner ++ outer) = (deliver form inner).within outer := by
  induction inner generalizing form with
  | nil => rfl
  | cons innermost rest ih =>
    cases innermost with
    | sequence delimiters reversed => rfl
    | marked name => exact ih _
    | noteMark => rfl
    | noted note => exact ih _

theorem start_append (token : Token) (inner outer : List Unfinished) :
    start token (inner ++ outer) = (start token inner).within outer := by
  unfold start
  split
  case h_13 =>
    split
    · rw [deliver_append]
      rfl
    · rfl
  all_goals rfl

theorem close_append (delimiters : Delimiters) (reversed : List Value)
    (inner outer : List Unfinished) :
    close delimiters reversed (inner ++ outer) =
      (close delimiters reversed inner).within outer := by
  unfold close
  split
  · rw [deliver_append]
    rfl
  · rfl

/-- Only a closing mark is read otherwise inside a sequence than elsewhere. -/
theorem step_of_not_closing {token : Token} (notClosing : token.kind.isClosing = false)
    (around : List Unfinished) : step token around = start token around := by
  cases around with
  | nil => rfl
  | cons innermost rest =>
    cases innermost with
    | sequence delimiters reversed =>
      have notCloser : ¬ token.kind = delimiters.closer := by
        intro closes
        rw [closes] at notClosing
        cases delimiters <;> cases notClosing
      rw [step, if_neg notCloser, notClosing]
      rfl
    | _ => rfl

/-- A token sees the innermost unfinished form only. -/
theorem step_append {token : Token} {inner : List Unfinished}
    (inside : inner ≠ [] ∨ token.kind.isClosing = false) (outer : List Unfinished) :
    step token (inner ++ outer) = (step token inner).within outer := by
  cases inner with
  | nil =>
    have notClosing : token.kind.isClosing = false := inside.resolve_left fun h => h rfl
    rw [step_of_not_closing notClosing, step_of_not_closing notClosing, start_append]
  | cons innermost rest =>
    cases innermost with
    | sequence delimiters reversed =>
      simp only [step, List.cons_append]
      split
      · exact close_append delimiters reversed rest outer
      · split
        · rfl
        · exact start_append token (.sequence delimiters reversed :: rest) outer
    | marked name => exact start_append token (.marked name :: rest) outer
    | noteMark => exact start_append token (.noteMark :: rest) outer
    | noted note => exact start_append token (.noted note :: rest) outer

theorem ne_nil_of_deliver {form : Value} {around inner : List Unfinished}
    (delivered : deliver form around = .unfinished inner) : inner ≠ [] := by
  induction around generalizing form with
  | nil => cases delivered
  | cons innermost rest ih =>
    cases innermost with
    | sequence delimiters reversed =>
      cases delivered
      exact List.cons_ne_nil _ _
    | marked name => exact ih delivered
    | noteMark =>
      cases delivered
      exact List.cons_ne_nil _ _
    | noted note => exact ih delivered

theorem ne_nil_of_start {token : Token} {around inner : List Unfinished}
    (reads : start token around = .advanced (.unfinished inner)) : inner ≠ [] := by
  unfold start at reads
  split at reads
  case h_13 =>
    split at reads
    · exact ne_nil_of_deliver (Step.advanced.inj reads)
    · cases reads
  all_goals cases reads
  all_goals exact List.cons_ne_nil _ _

/-- What is unfinished after a token is something. -/
theorem ne_nil_of_step {token : Token} {around inner : List Unfinished}
    (reads : step token around = .advanced (.unfinished inner)) : inner ≠ [] := by
  unfold step at reads
  split at reads
  · split at reads
    · unfold close at reads
      split at reads
      · exact ne_nil_of_deliver (Step.advanced.inj reads)
      · cases reads
    · split at reads
      · cases reads
      · exact ne_nil_of_start reads
  · exact ne_nil_of_start reads

/-- A form is read in the same way wherever it stands, and is then handed to the forms around
it. -/
theorem readWithin_append_around {inner : List Unfinished} (notEmpty : inner ≠ [])
    (outer : List Unfinished) (tokens : List Token) :
    readWithin (inner ++ outer) tokens = (readWithin inner tokens).within outer := by
  induction tokens generalizing inner with
  | nil => rfl
  | cons token rest ih =>
    rw [readWithin_cons, readWithin_cons, step_append (.inl notEmpty)]
    cases reads : step token inner with
    | advanced progress =>
      cases progress with
      | finished form => rfl
      | unfinished innermost => exact ih (ne_nil_of_step reads)
    | failed error => rfl
    | refused error => rfl

theorem readWithin_eq_within {token : Token} (notClosing : token.kind.isClosing = false)
    (outer : List Unfinished) (rest : List Token) :
    readWithin outer (token :: rest) = (read (token :: rest)).within outer := by
  have inside : ([] : List Unfinished) ≠ [] ∨ token.kind.isClosing = false := .inr notClosing
  have steps := step_append inside outer
  rw [List.nil_append] at steps
  rw [read, readWithin_cons, readWithin_cons, steps]
  cases reads : step token [] with
  | advanced progress =>
    cases progress with
    | finished form => rfl
    | unfinished inner => exact readWithin_append_around (ne_nil_of_step reads) outer rest
  | failed error => rfl
  | refused error => rfl

/-! ### Reading several forms -/

/-- The tokens of a complete form are not affected by what follows them. -/
theorem exists_of_readWithin_ok {around : List Unfinished} {tokens rest : List Token} {form : Value}
    (complete : readWithin around tokens = ⟨.ok form, rest⟩) :
    ∃ token used, tokens = token :: (used ++ rest) ∧
      ∀ more, readWithin around (token :: (used ++ more)) = ⟨.ok form, more⟩ := by
  induction tokens generalizing around with
  | nil => cases complete
  | cons token following ih =>
    rw [readWithin_cons] at complete
    cases reads : step token around with
    | advanced progress =>
      rw [reads] at complete
      cases progress with
      | finished other =>
        cases complete
        refine ⟨token, [], rfl, fun more => ?_⟩
        rw [readWithin_cons, reads]
        rfl
      | unfinished inner =>
        obtain ⟨next, used, rfl, same⟩ := ih complete
        refine ⟨token, next :: used, rfl, fun more => ?_⟩
        rw [readWithin_cons, reads]
        exact same more
    | failed error =>
      rw [reads] at complete
      cases complete
    | refused error =>
      rw [reads] at complete
      cases complete

theorem readAll_eq_of_ne_nil {tokens : List Token} (notEmpty : tokens ≠ []) :
    readAll tokens =
      match read tokens with
      | ⟨.error error, _⟩ => .error error
      | ⟨.ok form, rest⟩ => (readAll rest).map (form :: ·) := by
  have isEmpty : tokens.isEmpty = false := by simpa using notEmpty
  rw [readAll, isEmpty, if_neg Bool.false_ne_true]
  split <;> rename_i reads
  · rw [reads]
  · simp only [reads]

theorem start_of_isClosing {token : Token} (closes : token.kind.isClosing = true)
    (around : List Unfinished) :
    start token around = .refused (.unreadable token.position (.unexpected token.lexeme)) := by
  rw [start]
  revert closes
  cases token.kind <;> simp [TokenKind.isClosing]

/-- A closing mark begins no form. -/
theorem read_of_isClosing {token : Token} (closes : token.kind.isClosing = true)
    (rest : List Token) :
    read (token :: rest) =
      ⟨.error (.unreadable token.position (.unexpected token.lexeme)), token :: rest⟩ := by
  have starts : step token [] = start token [] := rfl
  rw [read, readWithin_cons, starts, start_of_isClosing closes]

theorem map_eq_ok_iff {α β : Type} {f : α → β} {result : Except Error α} {value : β} :
    result.map f = .ok value ↔ ∃ content, result = .ok content ∧ f content = value := by
  cases result with
  | ok content => simp [Except.map]
  | error error => simp [Except.map]

theorem readAll_nil : readAll [] = .ok [] := by rw [readAll, List.isEmpty_nil, if_pos rfl]

/-- All forms are read when one is, and then all those after it. -/
theorem readAll_eq_ok_iff {tokens : List Token} {forms : List Value} (notEmpty : tokens ≠ []) :
    readAll tokens = .ok forms ↔
      ∃ form rest others, read tokens = ⟨.ok form, rest⟩ ∧ readAll rest = .ok others ∧
        forms = form :: others := by
  rw [readAll_eq_of_ne_nil notEmpty]
  obtain ⟨outcome, rest⟩ := read tokens
  cases outcome with
  | error error => simp
  | ok form =>
    simp only [map_eq_ok_iff, Reading.mk.injEq, Except.ok.injEq]
    constructor
    · rintro ⟨others, reads, rfl⟩
      exact ⟨form, rest, others, ⟨rfl, rfl⟩, reads, rfl⟩
    · rintro ⟨_, _, others, ⟨rfl, rfl⟩, reads, rfl⟩
      exact ⟨others, reads, rfl⟩

/-- A token on which a form has been read is no closing mark. -/
theorem isClosing_eq_false_of_read {token : Token} {rest following : List Token} {form : Value}
    (complete : read (token :: following) = ⟨.ok form, rest⟩) : token.kind.isClosing = false := by
  cases closes : token.kind.isClosing with
  | false => rfl
  | true =>
    rw [read_of_isClosing closes] at complete
    cases complete

/-- Several forms are read in a sequence as they are read at top level. -/
theorem readWithin_sequence {before : List Token} {forms : List Value}
    (reads : readAll before = .ok forms) (delimiters : Delimiters) (reversed : List Value)
    (around : List Unfinished) (more : List Token) :
    readWithin (.sequence delimiters reversed :: around) (before ++ more) =
      readWithin (.sequence delimiters (forms.reverse ++ reversed) :: around) more := by
  induction before using readAll.induct generalizing forms reversed with
  | case1 tokens isEmpty =>
    obtain rfl := List.isEmpty_iff.mp isEmpty
    rw [readAll_nil] at reads
    cases reads
    rfl
  | case2 tokens notEmpty error rest fails =>
    have notEmpty : tokens ≠ [] := by simpa using notEmpty
    rw [readAll_eq_of_ne_nil notEmpty, fails] at reads
    cases reads
  | case3 tokens notEmpty form rest complete _ ih =>
    have notEmpty : tokens ≠ [] := by simpa using notEmpty
    obtain ⟨_, _, others, complete', readsRest, rfl⟩ := (readAll_eq_ok_iff notEmpty).mp reads
    cases complete.symm.trans complete'
    obtain ⟨token, used, rfl, same⟩ := exists_of_readWithin_ok complete
    have notClosing := isClosing_eq_false_of_read complete
    rw [List.cons_append, List.append_assoc, readWithin_eq_within notClosing, read, same]
    -- The form joins the items of the sequence, and reading goes on behind it.
    change readWithin (.sequence delimiters (form :: reversed) :: around) (rest ++ more) = _
    rw [ih readsRest, List.reverse_cons, List.append_assoc, List.singleton_append]

/-- Tokens as far as forms can be read from them at top level. -/
theorem exists_readAll_prefix (tokens : List Token) :
    ∃ before rest forms, tokens = before ++ rest ∧ readAll before = .ok forms ∧
      (rest = [] ∨ ∃ error, (read rest).outcome = .error error) := by
  induction tokens using readAll.induct with
  | case1 tokens isEmpty =>
    obtain rfl := List.isEmpty_iff.mp isEmpty
    exact ⟨[], [], [], rfl, readAll_nil, .inl rfl⟩
  | case2 tokens notEmpty error rest fails =>
    exact ⟨[], tokens, [], rfl, readAll_nil, .inr ⟨error, by rw [fails]⟩⟩
  | case3 tokens notEmpty form rest complete _ ih =>
    obtain ⟨before, last, forms, rfl, reads, stops⟩ := ih
    obtain ⟨token, used, rfl, same⟩ := exists_of_readWithin_ok complete
    refine ⟨token :: (used ++ before), last, form :: forms, ?_, ?_, stops⟩
    · rw [List.cons_append, List.append_assoc]
    · rw [readAll_eq_ok_iff (List.cons_ne_nil _ _)]
      exact ⟨form, before, forms, same before, reads, rfl⟩

/-- The mark that closes a sequence ends it. -/
theorem readWithin_closer {delimiters : Delimiters} {closing : Token}
    (isCloser : closing.kind = delimiters.closer) (reversed : List Value)
    (following : List Token) :
    readWithin [.sequence delimiters reversed] (closing :: following) =
      ⟨delimiters.build reversed.reverse, following⟩ := by
  rw [readWithin_cons, step, if_pos isCloser, close]
  cases delimiters.build reversed.reverse with
  | ok value => rfl
  | error error => rfl

/-- Another closing mark is left where it stands. -/
theorem readWithin_mismatched {delimiters : Delimiters} {closing : Token}
    (notCloser : closing.kind ≠ delimiters.closer) (isClosing : closing.kind.isClosing = true)
    (reversed : List Value) (following : List Token) :
    readWithin [.sequence delimiters reversed] (closing :: following) =
      ⟨.error (.unreadable closing.position (.mismatched closing.lexeme)),
        closing :: following⟩ := by
  rw [readWithin_cons, step, if_neg notCloser, if_pos isClosing]

/-- What is read inside a sequence that has begun, up to its end, are forms that can be read at top
level and the mark that closes it. -/
theorem readWithin_sequence_eq_ok_iff {delimiters : Delimiters} {tokens rest : List Token}
    {reversed : List Value} {form : Value} :
    readWithin [.sequence delimiters reversed] tokens = ⟨.ok form, rest⟩ ↔
      ∃ before closing forms, tokens = before ++ closing :: rest ∧
        closing.kind = delimiters.closer ∧ readAll before = .ok forms ∧
          delimiters.build (reversed.reverse ++ forms) = .ok form := by
  have closes {closing : Token} (isCloser : closing.kind = delimiters.closer)
      (reversed : List Value) (following : List Token) :
      readWithin [.sequence delimiters reversed] (closing :: following) = ⟨.ok form, rest⟩ ↔
        delimiters.build reversed.reverse = .ok form ∧ following = rest := by
    rw [readWithin_closer isCloser, Reading.mk.injEq]
  constructor
  · intro complete
    obtain ⟨before, last, forms, rfl, reads, stops⟩ := exists_readAll_prefix tokens
    rw [readWithin_sequence reads] at complete
    cases last with
    | nil => cases complete
    | cons closing following =>
      obtain ⟨error, fails⟩ := stops.resolve_left (List.cons_ne_nil _ _)
      by_cases isCloser : closing.kind = delimiters.closer
      · obtain ⟨built, rfl⟩ := (closes isCloser _ _).mp complete
        rw [List.reverse_append, List.reverse_reverse] at built
        exact ⟨before, closing, forms, rfl, isCloser, reads, built⟩
      · exfalso
        by_cases isClosing : closing.kind.isClosing = true
        · rw [readWithin_mismatched isCloser isClosing] at complete
          cases complete
        · rw [readWithin_eq_within (by simpa using isClosing)] at complete
          revert fails complete
          obtain ⟨outcome, left⟩ := read (closing :: following)
          rintro complete rfl
          cases complete
  · rintro ⟨before, closing, forms, rfl, isCloser, reads, built⟩
    rw [readWithin_sequence reads, closes isCloser, List.reverse_append, List.reverse_reverse]
    exact ⟨built, rfl⟩

/-- What is read inside a list that has begun, up to its end, are forms that can be read at top
level and the parenthesis behind them. -/
theorem readWithin_list_eq_ok_iff {tokens rest : List Token} {reversed : List Value}
    {form : Value} :
    readWithin [.sequence .parens reversed] tokens = ⟨.ok form, rest⟩ ↔
      ∃ before closing forms, tokens = before ++ closing :: rest ∧ closing.kind = .rightParen ∧
        readAll before = .ok forms ∧ form = .list (reversed.reverse ++ forms) := by
  simp only [readWithin_sequence_eq_ok_iff, Delimiters.closer, Delimiters.build, Except.ok.injEq,
    eq_comm (a := Value.list _)]

end SmallLisp.Form
