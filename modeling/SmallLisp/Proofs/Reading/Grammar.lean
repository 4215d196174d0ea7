import Mathlib.Data.List.Forall2
import SmallLisp.Proofs.Reading.Atoms
import SmallLisp.Proofs.Reading.Nested

/-!
# The grammar of forms

A form is an atom, a mark in front of a form, a note in front of a form, or forms between the marks
of a sequence. The grammar says nothing about a stack of unfinished forms or about the order in
which tokens are looked at. It is shown to be what the reader accepts: a derivation is followed by
induction on it, and a form that has been read is taken apart at its first token, behind which
fewer tokens are left. As the reader finds one form at most, the grammar is not ambiguous.

## Main definitions

* `Form.Derives`, `Form.DerivesEach`: the tokens that make up a form, or several in a row

## Main results

* `Form.Derives.read_append`: tokens that make up a form are read as it, whatever follows them
* `Form.derives_of_read`: what is read as a form are tokens that make it up
* `Form.read_iff_derives`: the reader accepts exactly the grammar, which is not ambiguous
-/

namespace SmallLisp.Form

/-! ### Derivations -/

/-- The name of the call that a mark in front of a form abbreviates. -/
def abbreviation? : TokenKind → Option String
  | .quote => some "quote"
  | .backquote => some "quasiquote"
  | .tilde => some "unquote"
  | .tildeAt => some "splice-unquote"
  | .atSign => some "deref"
  | _ => none

mutual

/-- The tokens make up the form. -/
inductive Derives : List Token → Value → Prop where
  | atom {token : Token} {value : Value} (isAtom : token.kind = .atom)
      (denotes : Denotes token.lexeme value) : Derives [token] value
  | abbreviated {mark : Token} {name : String} {tokens : List Token} {form : Value}
      (abbreviates : abbreviation? mark.kind = some name) (derives : Derives tokens form) :
      Derives (mark :: tokens) (call name [form])
  /-- The note comes before the form that it is on, and after it in the call. -/
  | noted {mark : Token} {ofNote ofForm : List Token} {note form : Value}
      (isMark : mark.kind = .caret) (first : Derives ofNote note) (second : Derives ofForm form) :
      Derives (mark :: (ofNote ++ ofForm)) (call "with-meta" [form, note])
  | list {opening closing : Token} {tokens : List Token} {forms : List Value}
      (opens : opening.kind = .leftParen) (closes : closing.kind = .rightParen)
      (items : DerivesEach tokens forms) :
      Derives (opening :: (tokens ++ [closing])) (.list forms)
  | vector {opening closing : Token} {tokens : List Token} {forms : List Value}
      (opens : opening.kind = .leftBracket) (closes : closing.kind = .rightBracket)
      (items : DerivesEach tokens forms) :
      Derives (opening :: (tokens ++ [closing])) (.vector forms)
  /-- Keys and values alternate, and come into the map in order. -/
  | map {opening closing : Token} {tokens : List Token} {pairs : Entries}
      (opens : opening.kind = .leftBrace) (closes : closing.kind = .rightBrace)
      (items : DerivesEach tokens pairs.toForms) :
      Derives (opening :: (tokens ++ [closing])) (.map (Entries.insertAll [] pairs))

/-- The tokens make up the forms, one after the other. -/
inductive DerivesEach : List Token → List Value → Prop where
  | nil : DerivesEach [] []
  | cons {tokens following : List Token} {form : Value} {forms : List Value}
      (first : Derives tokens form) (others : DerivesEach following forms) :
      DerivesEach (tokens ++ following) (form :: forms)

end

theorem Derives.ne_nil {tokens : List Token} {form : Value} (derives : Derives tokens form) :
    tokens ≠ [] := by
  cases derives <;> exact List.cons_ne_nil _ _

/-- Forms in a row divide the tokens between them. -/
theorem derivesEach_iff {tokens : List Token} {forms : List Value} :
    DerivesEach tokens forms ↔
      ∃ spans : List (List Token), spans.flatten = tokens ∧ List.Forall₂ Derives spans forms := by
  constructor
  · intro each
    induction forms generalizing tokens with
    | nil =>
      cases each
      exact ⟨[], rfl, .nil⟩
    | cons form forms ih =>
      cases each with
      | cons first others =>
        obtain ⟨spans, rfl, derive⟩ := ih others
        exact ⟨_ :: spans, rfl, .cons first derive⟩
  · rintro ⟨spans, rfl, derive⟩
    induction derive with
    | nil => exact .nil
    | cons first _ ih => exact .cons first ih

/-! ### Reading as a descent -/

section Descent

variable {token : Token} {following rest : List Token} {form : Value}

theorem within_eq_ok_iff {outer : List Unfinished} {reading : Reading} :
    reading.within outer = ⟨.ok form, rest⟩ ↔
      ∃ inner middle, reading = ⟨.ok inner, middle⟩ ∧
        (deliver inner outer).resume middle = ⟨.ok form, rest⟩ := by
  obtain ⟨outcome, middle⟩ := reading
  cases outcome with
  | ok inner => simp [Reading.within]
  | error error => simp [Reading.within]

/-- Behind a mark that waits for a form, a form is read as it is at top level. -/
theorem readWithin_waiting {innermost : Unfinished} {outer : List Unfinished}
    (waits : ∀ token, step token (innermost :: outer) = start token (innermost :: outer))
    (tokens : List Token) :
    readWithin (innermost :: outer) tokens = (read tokens).within (innermost :: outer) := by
  cases tokens with
  | nil => rfl
  | cons token following =>
    cases closes : token.kind.isClosing with
    | false => exact readWithin_eq_within closes _ following
    | true =>
      rw [read_of_isClosing closes, readWithin_cons, waits, start_of_isClosing closes]
      rfl

theorem read_cons_of_start {inner : List Unfinished}
    (opens : start token [] = .advanced (.unfinished inner)) (following : List Token) :
    read (token :: following) = readWithin inner following := by
  have starts : step token [] = start token [] := rfl
  rw [read, readWithin_cons, starts, opens]
  rfl

theorem read_atom (isAtom : token.kind = .atom) (following : List Token) :
    read (token :: following) = ⟨ofAtom token, following⟩ := by
  rw [read, readWithin_cons, step_of_not_closing (by rw [isAtom]; rfl), start, isAtom]
  cases ofAtom token with
  | ok value => rfl
  | error error => rfl

theorem read_atom_iff (isAtom : token.kind = .atom) :
    read (token :: following) = ⟨.ok form, rest⟩ ↔
      Denotes token.lexeme form ∧ following = rest := by
  rw [← ofLexeme?_eq_some_iff, read_atom isAtom, ofAtom]
  cases ofLexeme? token.lexeme with
  | some value => simp
  | none => simp

theorem read_abbreviated {name : String} (abbreviates : abbreviation? token.kind = some name)
    (following : List Token) :
    read (token :: following) = (read following).within [.marked name] := by
  have opens : start token [] = .advanced (.unfinished [.marked name]) := by
    rw [start]
    revert abbreviates
    cases token.kind <;> (intro abbreviates; cases abbreviates) <;> rfl
  rw [read_cons_of_start opens, readWithin_waiting fun _ => rfl]

theorem read_abbreviated_iff {name : String} (abbreviates : abbreviation? token.kind = some name) :
    read (token :: following) = ⟨.ok form, rest⟩ ↔
      ∃ inner, read following = ⟨.ok inner, rest⟩ ∧ call name [inner] = form := by
  rw [read_abbreviated abbreviates, within_eq_ok_iff]
  constructor
  · rintro ⟨inner, middle, reads, ⟨⟩⟩
    exact ⟨inner, reads, rfl⟩
  · rintro ⟨inner, reads, rfl⟩
    exact ⟨inner, rest, reads, rfl⟩

theorem read_noted (isMark : token.kind = .caret) (following : List Token) :
    read (token :: following) = (read following).within [.noteMark] := by
  have opens : start token [] = .advanced (.unfinished [.noteMark]) := by rw [start, isMark]
  rw [read_cons_of_start opens, readWithin_waiting fun _ => rfl]

/-- The form behind a note is read where the note has been. -/
theorem resume_noteMark (note : Value) (middle : List Token) :
    (deliver note [.noteMark]).resume middle = (read middle).within [.noted note] :=
  readWithin_waiting (fun _ => rfl) middle

theorem read_noted_iff (isMark : token.kind = .caret) :
    read (token :: following) = ⟨.ok form, rest⟩ ↔
      ∃ note middle inner, read following = ⟨.ok note, middle⟩ ∧
        read middle = ⟨.ok inner, rest⟩ ∧ call "with-meta" [inner, note] = form := by
  rw [read_noted isMark, within_eq_ok_iff]
  simp only [resume_noteMark, within_eq_ok_iff]
  constructor
  · rintro ⟨note, middle, reads, inner, last, reads', ⟨⟩⟩
    exact ⟨note, middle, inner, reads, reads', rfl⟩
  · rintro ⟨note, middle, inner, reads, reads', rfl⟩
    exact ⟨note, middle, reads, inner, rest, reads', rfl⟩

theorem read_sequence {delimiters : Delimiters} (opens : token.kind = delimiters.opener)
    (following : List Token) :
    read (token :: following) = readWithin [.sequence delimiters []] following := by
  have opens : start token [] = .advanced (.unfinished [.sequence delimiters []]) := by
    rw [start, opens]
    cases delimiters <;> rfl
  exact read_cons_of_start opens following

theorem read_sequence_iff {delimiters : Delimiters} (opens : token.kind = delimiters.opener) :
    read (token :: following) = ⟨.ok form, rest⟩ ↔
      ∃ before closing forms, following = before ++ closing :: rest ∧
        closing.kind = delimiters.closer ∧ readAll before = .ok forms ∧
          delimiters.build forms = .ok form := by
  rw [read_sequence opens, readWithin_sequence_eq_ok_iff]
  rfl

theorem read_enclosed (delimiters : Delimiters) {opening closing : Token} {tokens : List Token}
    {forms : List Value} (opens : opening.kind = delimiters.opener)
    (closes : closing.kind = delimiters.closer) (reads : readAll tokens = .ok forms)
    (built : delimiters.build forms = .ok form) (rest : List Token) :
    read (opening :: (tokens ++ [closing]) ++ rest) = ⟨.ok form, rest⟩ := by
  rw [List.cons_append, List.append_assoc, List.singleton_append]
  exact (read_sequence_iff opens).mpr ⟨tokens, closing, forms, rfl, closes, reads, built⟩

end Descent

/-! ### What is derived is read -/

mutual

/-- Tokens that make up a form are read as it, whatever follows them. -/
theorem Derives.read_append {tokens : List Token} {form : Value} :
    Derives tokens form → ∀ rest, read (tokens ++ rest) = ⟨.ok form, rest⟩
  | .atom isAtom denotes, rest => (read_atom_iff isAtom).mpr ⟨denotes, rfl⟩
  | .abbreviated abbreviates derives, rest =>
    (read_abbreviated_iff abbreviates).mpr ⟨_, derives.read_append rest, rfl⟩
  | .noted isMark first second, rest => by
    rw [List.cons_append, List.append_assoc]
    exact (read_noted_iff isMark).mpr
      ⟨_, _, _, first.read_append _, second.read_append rest, rfl⟩
  | .list opens closes items, rest => read_enclosed .parens opens closes items.readAll_eq rfl rest
  | .vector opens closes items, rest =>
    read_enclosed .brackets opens closes items.readAll_eq rfl rest
  | .map opens closes items, rest => by
    refine read_enclosed .braces opens closes items.readAll_eq ?_ rest
    rw [Delimiters.build, Entries.ofForms?_eq_some_iff.mpr ⟨_, rfl, rfl⟩]

/-- Tokens that make up several forms in a row are read as all of them. -/
theorem DerivesEach.readAll_eq {tokens : List Token} {forms : List Value} :
    DerivesEach tokens forms → readAll tokens = .ok forms
  | .nil => readAll_nil
  | .cons first others => by
    refine (readAll_eq_ok_iff ?_).mpr ⟨_, _, _, first.read_append _, others.readAll_eq, rfl⟩
    exact List.append_ne_nil_of_left_ne_nil first.ne_nil _

end

/-! ### What is read is derived -/

/-- The kinds of tokens, by what stands on them. -/
theorem kind_cases (kind : TokenKind) :
    kind = .atom ∨ (∃ name, abbreviation? kind = some name) ∨ kind = .caret ∨
      (∃ delimiters : Delimiters, kind = delimiters.opener) ∨ kind.isClosing = true := by
  cases kind with
  | atom => exact .inl rfl
  | caret => exact .inr (.inr (.inl rfl))
  | leftParen => exact .inr (.inr (.inr (.inl ⟨.parens, rfl⟩)))
  | leftBracket => exact .inr (.inr (.inr (.inl ⟨.brackets, rfl⟩)))
  | leftBrace => exact .inr (.inr (.inr (.inl ⟨.braces, rfl⟩)))
  | rightParen | rightBracket | rightBrace => exact .inr (.inr (.inr (.inr rfl)))
  | quote | backquote | tilde | tildeAt | atSign => exact .inr (.inl ⟨_, rfl⟩)

/-- A sequence of derived forms is derived. -/
theorem Derives.sequence {delimiters : Delimiters} {opening closing : Token} {tokens : List Token}
    {forms : List Value} {form : Value} (opens : opening.kind = delimiters.opener)
    (closes : closing.kind = delimiters.closer) (items : DerivesEach tokens forms)
    (built : delimiters.build forms = .ok form) :
    Derives (opening :: (tokens ++ [closing])) form := by
  cases delimiters with
  | parens =>
    cases built
    exact .list opens closes items
  | brackets =>
    cases built
    exact .vector opens closes items
  | braces =>
    rw [Delimiters.build] at built
    split at built
    · rename_i made
      cases built
      obtain ⟨pairs, rfl, rfl⟩ := Entries.ofForms?_eq_some_iff.mp made
      exact .map opens closes items
    · cases built

/-- All forms are derived when one at a time is. -/
theorem derivesEach_of_readAll {tokens : List Token} {forms : List Value}
    (derives : ∀ (shorter : List Token) (form : Value) (rest : List Token),
      shorter.length ≤ tokens.length → read shorter = ⟨.ok form, rest⟩ →
        ∃ used, shorter = used ++ rest ∧ Derives used form)
    (reads : readAll tokens = .ok forms) : DerivesEach tokens forms := by
  induction forms generalizing tokens with
  | nil =>
    cases tokens with
    | nil => exact .nil
    | cons token following =>
      obtain ⟨_, _, _, _, _, isCons⟩ := (readAll_eq_ok_iff (List.cons_ne_nil _ _)).mp reads
      cases isCons
  | cons form forms ih =>
    have notEmpty : tokens ≠ [] := by
      rintro rfl
      rw [readAll_nil] at reads
      cases reads
    obtain ⟨_, rest, _, readsFirst, readsOthers, isCons⟩ := (readAll_eq_ok_iff notEmpty).mp reads
    cases isCons
    -- Behind the first form there are fewer tokens, of which the same holds.
    have fewer := read_length_lt readsFirst
    obtain ⟨used, rfl, first⟩ := derives tokens form rest le_rfl readsFirst
    exact .cons first (ih (fun shorter form rest short => derives shorter form rest (by omega))
      readsOthers)

/-- What is read as a form are tokens that make it up. -/
theorem derives_of_read {tokens rest : List Token} {form : Value}
    (reads : read tokens = ⟨.ok form, rest⟩) :
    ∃ used, tokens = used ++ rest ∧ Derives used form := by
  -- Everything inside a form stands behind its first token, so there is less of it.
  induction size : tokens.length using Nat.strong_induction_on generalizing tokens form rest with
  | _ _ ih =>
    subst size
    cases tokens with
    | nil => cases reads
    | cons token following =>
      have shorter {tokens : List Token} (short : tokens.length ≤ following.length) :
          tokens.length < (token :: following).length := Nat.lt_succ_of_le short
      rcases kind_cases token.kind with isAtom | ⟨name, abbreviates⟩ | isMark |
        ⟨delimiters, opens⟩ | closes
      · obtain ⟨denotes, rfl⟩ := (read_atom_iff isAtom).mp reads
        exact ⟨[token], rfl, .atom isAtom denotes⟩
      · obtain ⟨inner, readsInner, rfl⟩ := (read_abbreviated_iff abbreviates).mp reads
        obtain ⟨used, rfl, derives⟩ := ih _ (shorter le_rfl) readsInner rfl
        exact ⟨token :: used, rfl, .abbreviated abbreviates derives⟩
      · obtain ⟨note, middle, inner, readsNote, readsInner, rfl⟩ := (read_noted_iff isMark).mp reads
        have fewer := read_length_lt readsNote
        obtain ⟨ofNote, rfl, first⟩ := ih _ (shorter le_rfl) readsNote rfl
        obtain ⟨ofForm, rfl, second⟩ := ih _ (shorter fewer.le) readsInner rfl
        refine ⟨token :: (ofNote ++ ofForm), ?_, .noted isMark first second⟩
        rw [List.cons_append, List.append_assoc]
      · obtain ⟨before, closing, forms, rfl, closes, readsItems, built⟩ :=
          (read_sequence_iff opens).mp reads
        have items : DerivesEach before forms := by
          refine derivesEach_of_readAll (fun tokens form rest short readsItem => ?_) readsItems
          refine ih _ (shorter ?_) readsItem rfl
          rw [List.length_append]
          omega
        refine ⟨token :: (before ++ [closing]), ?_, .sequence opens closes items built⟩
        rw [List.cons_append, List.append_assoc, List.singleton_append]
      · rw [read_of_isClosing closes] at reads
        cases reads

/-! ### The reader and its grammar -/

theorem read_eq_ok_iff {tokens rest : List Token} {form : Value} :
    read tokens = ⟨.ok form, rest⟩ ↔
      ∃ used, used ≠ [] ∧ tokens = used ++ rest ∧ Derives used form := by
  constructor
  · intro reads
    obtain ⟨used, cut, derives⟩ := derives_of_read reads
    exact ⟨used, derives.ne_nil, cut, derives⟩
  · rintro ⟨used, _, rfl, derives⟩
    exact derives.read_append rest

theorem readAll_eq_ok_iff_derivesEach {tokens : List Token} {forms : List Value} :
    readAll tokens = .ok forms ↔ DerivesEach tokens forms :=
  ⟨derivesEach_of_readAll fun _ _ _ _ reads => derives_of_read reads, DerivesEach.readAll_eq⟩

/-- The grammar is not ambiguous: of all tokens from a place on, one run at most makes up a form,
and it makes up one form. -/
theorem Derives.unique {first second rest rest' : List Token} {form form' : Value}
    (derives : Derives first form) (derives' : Derives second form')
    (same : first ++ rest = second ++ rest') : first = second ∧ form = form' := by
  -- Both are what the reader finds in the same tokens.
  have reads := derives.read_append rest
  rw [same, derives'.read_append rest'] at reads
  cases reads
  exact ⟨List.append_cancel_right same, rfl⟩

theorem derives_spans_unique {spans spans' : List (List Token)} {forms forms' : List Value}
    (derive : List.Forall₂ Derives spans forms) (derive' : List.Forall₂ Derives spans' forms')
    (same : spans.flatten = spans'.flatten) : spans = spans' ∧ forms = forms' := by
  induction derive generalizing spans' forms' with
  | nil =>
    cases derive' with
    | nil => exact ⟨rfl, rfl⟩
    | cons first _ => exact absurd (List.append_eq_nil_iff.mp same.symm).1 first.ne_nil
  | cons first _ ih =>
    cases derive' with
    | nil => exact absurd (List.append_eq_nil_iff.mp same).1 first.ne_nil
    | cons first' others' =>
      -- The first runs stand in front of the same tokens.
      rw [List.flatten_cons, List.flatten_cons] at same
      obtain ⟨rfl, rfl⟩ := first.unique first' same
      obtain ⟨rfl, rfl⟩ := ih others' (List.append_cancel_left same)
      exact ⟨rfl, rfl⟩

/-- The reader accepts exactly the grammar. A form is read, and tokens are left behind it, when the
tokens before those make up the form; one run of tokens at most does, and it makes up one form, so
what follows the form does not matter. All tokens are read as forms when they divide into runs that
make up the forms; there is one way at most to divide them, and when there is none reading fails. -/
theorem read_iff_derives :
    (∀ tokens form rest, read tokens = ⟨.ok form, rest⟩ ↔
      ∃ used, used ≠ [] ∧ tokens = used ++ rest ∧ Derives used form) ∧
    (∀ first second rest rest' form form', Derives first form → Derives second form' →
      first ++ rest = second ++ rest' → first = second ∧ form = form') ∧
    (∀ used form rest, read (used ++ rest) = ⟨.ok form, rest⟩ →
      ∀ more, read (used ++ more) = ⟨.ok form, more⟩) ∧
    (∀ tokens forms, readAll tokens = .ok forms ↔
      ∃ spans : List (List Token), spans.flatten = tokens ∧ List.Forall₂ Derives spans forms) ∧
    (∀ (spans spans' : List (List Token)) forms forms', List.Forall₂ Derives spans forms →
      List.Forall₂ Derives spans' forms' → spans.flatten = spans'.flatten →
        spans = spans' ∧ forms = forms') ∧
    (∀ tokens, (∃ error, readAll tokens = .error error) ↔
      ¬ ∃ (spans : List (List Token)) (forms : List Value),
        spans.flatten = tokens ∧ List.Forall₂ Derives spans forms) := by
  have divided (tokens : List Token) (forms : List Value) : readAll tokens = .ok forms ↔
      ∃ spans : List (List Token), spans.flatten = tokens ∧ List.Forall₂ Derives spans forms := by
    rw [readAll_eq_ok_iff_derivesEach, derivesEach_iff]
  refine ⟨fun _ _ _ => read_eq_ok_iff, fun _ _ _ _ _ _ => Derives.unique, ?_, divided,
    fun _ _ _ _ => derives_spans_unique, ?_⟩
  · intro used form rest reads more
    obtain ⟨first, _, cut, derives⟩ := read_eq_ok_iff.mp reads
    obtain rfl := List.append_cancel_right cut
    exact derives.read_append more
  · intro tokens
    constructor
    · rintro ⟨error, fails⟩ ⟨spans, forms, derive⟩
      rw [(divided tokens forms).mpr ⟨spans, derive⟩] at fails
      cases fails
    · intro undivided
      cases reads : readAll tokens with
      | error error => exact ⟨error, rfl⟩
      | ok forms =>
        obtain ⟨spans, derive⟩ := (divided tokens forms).mp reads
        exact absurd ⟨spans, forms, derive⟩ undivided

/-- A vector with a note on it, and a symbol. -/
theorem read_iff_derives_noted :
    let tokens := Token.scan "^a [1 'b] c"
    let form := call "with-meta"
      [.vector [.number (Binary64.ofNat 1), call "quote" [.symbol "b"]], .symbol "a"]
    (∃ used rest, used ++ rest = tokens ∧ Derives used form ∧
      ∀ other rest' form', Derives other form' → other ++ rest' = tokens →
        other = used ∧ form' = form) ∧
    ∃ spans : List (List Token), spans.flatten = tokens ∧
      List.Forall₂ Derives spans [form, .symbol "c"] := by
  intro tokens form
  obtain ⟨accepts, unique, _, divides, _, _⟩ := read_iff_derives
  obtain ⟨rest, reads, readsRest⟩ :
      ∃ rest, read tokens = ⟨.ok form, rest⟩ ∧ read rest = ⟨.ok (.symbol "c"), []⟩ := ⟨_, rfl, rfl⟩
  constructor
  · obtain ⟨used, _, cut, derives⟩ := (accepts _ _ _).mp reads
    refine ⟨used, rest, cut.symm, derives, fun other rest' form' derives' same => ?_⟩
    exact unique _ _ _ _ _ _ derives' derives (same.trans cut)
  · have readsLast : readAll rest = .ok [.symbol "c"] := by
      refine (readAll_eq_ok_iff ?_).mpr ⟨_, _, _, readsRest, readAll_nil, rfl⟩
      rintro rfl
      cases readsRest
    refine (divides _ _).mp ((readAll_eq_ok_iff ?_).mpr ⟨_, _, _, reads, readsLast, rfl⟩)
    exact List.cons_ne_nil _ _

end SmallLisp.Form
