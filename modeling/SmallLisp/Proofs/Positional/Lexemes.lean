import SmallLisp.Proofs.Positional.Slices
import SmallLisp.Proofs.Reading.Tiling

/-!
# Scanning by position

The scanner once more, as it is told by matches where in a text the comments and the lexemes stand.
It cuts them out of the text. To know the place of a lexeme it cuts out what stands between the
lexeme and the one before, and counts the characters and line breaks in there. All of this goes by
numbers of bytes. That a match begins where the one before has ended, or later, and that all of them
are in the text, is not looked at; but it is so, and nothing is ever cut out that is not there.

## Main definitions

* `Positional.spans`: where the comments and lexemes of a text stand
* `Positional.Tracker`: how far places have been counted
* `Positional.scan`: the tokens of a text, cut out by position

## Main results

* `Positional.scan_eq`: the tokens of a text are cut out of it
-/

namespace SmallLisp.Positional

/-- Where a match stands in a text, in bytes. -/
structure Span where
  start : Nat
  stop : Nat

/-- Where the comments and lexemes among pieces stand, behind some bytes. -/
def spans (offset : Nat) : List Piece → List Span
  | [] => []
  | .separator c :: rest => spans (offset + bytes [c]) rest
  | .comment text :: rest => ⟨offset, offset + bytes text⟩ :: spans (offset + bytes text) rest
  | .lexeme text :: rest => ⟨offset, offset + bytes text⟩ :: spans (offset + bytes text) rest

/-- How far places have been counted: a number of bytes, and the place behind them. -/
structure Tracker where
  offset : Nat
  place : Position

/-- Counts on up to a number of bytes. -/
def Tracker.advanceTo (tracker : Tracker) (source : String) (offset : Nat) : Option Tracker := do
  let passed ← slice source tracker.offset offset
  return ⟨offset, tracker.place.after passed.toList⟩

/-- The tokens of matches. What is empty or a comment is passed over, and counted with the next
token. -/
def tokensOf (source : String) : Tracker → List Span → Option (List Token)
  | _, [] => return []
  | tracker, span :: rest => do
    let lexeme ← slice source span.start span.stop
    if lexeme.isEmpty || lexeme.toList.head? == some ';' then tokensOf source tracker rest
    else
      let tracker ← tracker.advanceTo source span.start
      return Token.ofLexeme lexeme tracker.place :: (← tokensOf source tracker rest)

/-- The tokens of a text. -/
def scan (source : String) : Option (List Token) :=
  tokensOf source ⟨0, Position.start⟩ (spans 0 (Scan.pieces source.toList))

section Matches

variable {source : String} {seen passed before text rest : List Char} {tracker : Tracker}
  {later : List Span}

/-- No lexeme begins as a comment does. -/
theorem head?_ne_of_fits (fits : Scan.Fits (.lexeme text) rest) : text.head? ≠ some ';' := by
  cases fits with
  | splice | tilde _ | closed _ | unclosed _ _ => simp
  | mark isMark =>
    rw [List.head?_cons, Ne, Option.some.injEq]
    rintro rfl
    exact absurd isMark (by decide)
  | run _ plain _ =>
    have isPlain := (plain _ List.mem_cons_self).2
    rw [List.head?_cons, Ne, Option.some.injEq]
    rintro rfl
    exact absurd isPlain (by decide)

/-- The places of what has been passed over are counted. -/
theorem advanceTo_eq (spelled : source.toList = seen ++ passed ++ rest) :
    Tracker.advanceTo ⟨bytes seen, Position.behind seen⟩ source (bytes (seen ++ passed)) =
      some ⟨bytes (seen ++ passed), Position.behind (seen ++ passed)⟩ := by
  rw [Tracker.advanceTo, bytes_append, slice_of_toList spelled, ← Position.after_behind]
  simp

theorem tokensOf_comment (spelled : source.toList = before ++ text ++ rest)
    (isComment : text.head? = some ';') :
    tokensOf source tracker (⟨bytes before, bytes before + bytes text⟩ :: later) =
      tokensOf source tracker later := by
  rw [tokensOf, slice_of_toList spelled]
  simp [isComment]

theorem tokensOf_lexeme (spelled : source.toList = seen ++ passed ++ text ++ rest)
    (fits : Scan.Fits (.lexeme text) rest) :
    tokensOf source ⟨bytes seen, Position.behind seen⟩
        (⟨bytes (seen ++ passed), bytes (seen ++ passed) + bytes text⟩ :: later) = do
      let tokens ← tokensOf source ⟨bytes (seen ++ passed), Position.behind (seen ++ passed)⟩ later
      return Token.ofLexeme (String.ofList text) (Position.behind (seen ++ passed)) :: tokens := by
  have counts := advanceTo_eq (spelled.trans (List.append_assoc _ text rest))
  have notEmpty : text ≠ [] := fits.text_ne_nil
  have notComment := head?_ne_of_fits fits
  rw [tokensOf, slice_of_toList spelled]
  simp [notEmpty, notComment, counts]

/-- Matches are cut out of the text that they tile. Some of what stands before them has been
counted, and some has been passed over. -/
theorem tokensOf_spans {tokens : List Token} (tiles : Scan.Tiles before text tokens)
    (spelled : source.toList = before ++ text) (divided : before = seen ++ passed) :
    tokensOf source ⟨bytes seen, Position.behind seen⟩ (spans (bytes before) (Scan.pieces text)) =
      some tokens := by
  induction tiles generalizing seen passed with
  | nil => rfl
  | @separator before rest c tokens fits _ ih =>
    have handed : Scan.pieces (c :: rest) = _ := fits.pieces_eq
    rw [handed, spans, ← bytes_append]
    exact ih (by simpa using spelled) (by rw [divided, List.append_assoc])
  | @comment before text rest tokens fits _ ih =>
    have handed : Scan.pieces (text ++ rest) = _ := fits.pieces_eq
    have isComment : text.head? = some ';' := by
      cases fits
      rfl
    rw [← List.append_assoc] at spelled
    -- The comment has been cut out to be looked at, and is then passed over like a separator.
    rw [handed, spans, tokensOf_comment spelled isComment, ← bytes_append]
    exact ih spelled (by rw [divided, List.append_assoc])
  | @lexeme before text rest tokens fits _ ih =>
    have handed : Scan.pieces (text ++ rest) = _ := fits.pieces_eq
    rw [← List.append_assoc] at spelled
    -- Everything up to this lexeme has been counted when the next ones are looked at.
    have others := ih spelled rfl
    subst divided
    rw [handed, spans, tokensOf_lexeme spelled fits, ← bytes_append, others]
    rfl

end Matches

/-- Nothing can be counted back, or up to the middle of a character. -/
example : tokensOf "a b" ⟨2, Position.start⟩ [⟨0, 1⟩] = none ∧
    tokensOf "aé" ⟨0, Position.start⟩ [⟨2, 3⟩] = none := by decide

/-- The tokens of a text are cut out of it, and whatever is asked for is there. -/
theorem scan_eq (source : String) : scan source = some (Token.scan source) := by
  have tiles := (Token.scan_eq_iff_tiles source _).mp rfl
  have cut : tokensOf source ⟨bytes [], Position.behind []⟩
      (spans (bytes []) (Scan.pieces source.toList)) = some (Token.scan source) :=
    tokensOf_spans tiles rfl rfl
  exact cut

end SmallLisp.Positional
