import Mathlib.Data.List.Induction
import SmallLisp.Proofs.Reading.Spelling

/-!
# A text is tiled by its tokens

A text is made up of separators, comments and lexemes, with nothing between them. What stands next
in a text is determined by the characters from there on: each of these pieces is said to *fit* in
front of the rest of the text, and the scanner hands out the one that fits. So the tokens of a text
are those of its only tiling. The place of a token is told by what stands in front of it: how many
line breaks there are, and how many characters behind the last one of them.

## Main definitions

* `Scan.IsPlain`: the characters of numbers, keywords and symbols
* `Scan.IsBody`, `Scan.Stops`: what a string literal holds, and where one that is not closed stops
* `Scan.Fits`: a piece is what stands in front of the rest of a text
* `Position.behind`: the place behind some text
* `Scan.Tiles`: a text is put together of pieces, and these are its tokens

## Main results

* `Scan.exists_fits`: some piece fits wherever there is text
* `Scan.Fits.pieces_eq`: the scanner hands out the piece that fits
* `Position.after_start`: places are counted by line breaks and by the characters behind them
* `Token.scan_eq_iff_tiles`: the tokens of a text are those that tile it
-/

namespace SmallLisp

namespace Scan

/-! ### What stands in front of the rest of a text -/

/-- A character that can stand in a number, a keyword or a symbol. -/
def IsPlain (c : Char) : Prop :=
  isBlank c = false ∧ c ∉ [',', ';', '(', ')', '[', ']', '\x7b', '\x7d', '\'', '"', '\x60']

/-- What stands between the quotes of a string literal: characters other than quotes and
backslashes, and backslashes with a character behind them on the same line. -/
inductive IsBody : List Char → Prop where
  | nil : IsBody []
  | plain {c : Char} {rest : List Char} :
      c ≠ '"' → c ≠ '\\' → IsBody rest → IsBody (c :: rest)
  | escaped {c : Char} {rest : List Char} : c ≠ '\n' → IsBody rest → IsBody ('\\' :: c :: rest)

/-- Where a string literal stops without being closed: at the end of the text, or at a backslash
with no character behind it on its line. -/
inductive Stops : List Char → Prop where
  | atEnd : Stops []
  | atLast : Stops ['\\']
  | atBreak (rest : List Char) : Stops ('\\' :: '\n' :: rest)

/-- A piece is what stands in front of the rest of a text. -/
inductive Fits : Piece → List Char → Prop where
  | separator {c : Char} {rest : List Char} (separates : isBlank c = true ∨ c = ',') :
      Fits (.separator c) rest
  /-- A comment goes up to the end of its line. -/
  | comment {body rest : List Char} (onLine : '\n' ∉ body)
      (ends : ∀ c ∈ rest.head?, c = '\n') : Fits (.comment (';' :: body)) rest
  | splice {rest : List Char} : Fits (.lexeme ['~', '@']) rest
  | tilde {rest : List Char} (alone : '@' ∉ rest.head?) : Fits (.lexeme ['~']) rest
  | mark {c : Char} {rest : List Char}
      (isMark : c ∈ ['(', ')', '[', ']', '\x7b', '\x7d', '\'', '\x60', '^', '@']) :
      Fits (.lexeme [c]) rest
  | closed {body rest : List Char} (isBody : IsBody body) :
      Fits (.lexeme ('"' :: body ++ ['"'])) rest
  | unclosed {body rest : List Char} (isBody : IsBody body) (stops : Stops rest) :
      Fits (.lexeme ('"' :: body)) rest
  /-- A run goes as far as it can. It may hold, but not begin with, some of the marks. -/
  | run {c : Char} {more rest : List Char} (begins : c ∉ ['~', '^', '@'])
      (plain : ∀ d ∈ c :: more, IsPlain d) (ends : ∀ d ∈ rest.head?, ¬ IsPlain d) :
      Fits (.lexeme (c :: more)) rest

theorem isRunChar_iff {c : Char} : isRunChar c = true ↔ IsPlain c := by
  simp only [isRunChar, isSeparator, isMark, IsPlain, Bool.not_eq_true', Bool.or_eq_false_iff,
    beq_eq_false_iff_ne, List.mem_cons, List.not_mem_nil, or_false, not_or]
  tauto

theorem isRunChar_eq_false_iff {c : Char} : isRunChar c = false ↔ ¬ IsPlain c := by
  rw [← isRunChar_iff, Bool.not_eq_true]

theorem isSeparator_iff {c : Char} : isSeparator c = true ↔ isBlank c = true ∨ c = ',' := by
  rw [isSeparator, Bool.or_eq_true, beq_iff_eq, or_comm]

/-- Behind the opening quote of a string literal comes what it holds, and then a quote or the place
where it stops. -/
theorem exists_body (text : List Char) :
    ∃ body rest, text = body ++ rest ∧ IsBody body ∧ (Stops rest ∨ rest.head? = some '"') := by
  match text with
  | [] => exact ⟨[], [], rfl, .nil, .inl .atEnd⟩
  | c :: more =>
    by_cases closes : c = '"'
    · exact ⟨[], c :: more, rfl, .nil, .inr (congrArg some closes)⟩
    by_cases escapes : c = '\\'
    case neg =>
      obtain ⟨body, rest, rfl, isBody, ends⟩ := exists_body more
      exact ⟨c :: body, rest, rfl, .plain closes escapes isBody, ends⟩
    -- A backslash takes the next character with it, if there is one on its line.
    rw [escapes]
    match more with
    | [] => exact ⟨[], _, rfl, .nil, .inl .atLast⟩
    | d :: more =>
      by_cases breaks : d = '\n'
      · exact ⟨[], _, rfl, .nil, .inl (breaks ▸ .atBreak more)⟩
      · obtain ⟨body, rest, rfl, isBody, ends⟩ := exists_body more
        exact ⟨'\\' :: d :: body, rest, rfl, .escaped breaks isBody, ends⟩
termination_by text.length

/-- The longest beginning of a text whose characters have a property. -/
theorem exists_longest (p : Char → Prop) [DecidablePred p] (text : List Char) :
    ∃ body rest, text = body ++ rest ∧ (∀ c ∈ body, p c) ∧ ∀ c ∈ rest.head?, ¬ p c := by
  refine ⟨text.takeWhile (p ·), text.dropWhile (p ·), List.takeWhile_append_dropWhile.symm, ?_, ?_⟩
  · intro c mem
    simpa using List.mem_takeWhile_imp mem
  · intro c isFirst holds
    have stops := List.head?_dropWhile_not (fun c => decide (p c)) text
    rw [Option.mem_def.mp isFirst] at stops
    simp [holds] at stops

theorem not_isPlain_iff {c : Char} : ¬ IsPlain c ↔
    isBlank c = true ∨
      c ∈ [',', ';', '(', ')', '[', ']', '\x7b', '\x7d', '\'', '"', '\x60'] := by
  rw [IsPlain, not_and_or, Bool.not_eq_false, not_not]

/-- Some piece fits wherever there is text. -/
theorem exists_fits (c : Char) (more : List Char) :
    ∃ piece rest, c :: more = piece.text ++ rest ∧ Fits piece rest := by
  by_cases separates : isBlank c = true ∨ c = ','
  · exact ⟨.separator c, more, rfl, .separator separates⟩
  by_cases isComment : c = ';'
  · obtain ⟨body, rest, rfl, onLine, ends⟩ := exists_longest (· ≠ '\n') more
    rw [isComment]
    exact ⟨.comment (';' :: body), rest, rfl,
      .comment (fun mem => onLine _ mem rfl) fun d isFirst => not_not.mp (ends d isFirst)⟩
  by_cases isQuote : c = '"'
  · rw [isQuote]
    obtain ⟨body, rest, rfl, isBody, stops | closes⟩ := exists_body more
    · exact ⟨.lexeme ('"' :: body), rest, rfl, .unclosed isBody stops⟩
    · obtain ⟨rest, rfl⟩ := List.head?_eq_some_iff.mp closes
      exact ⟨.lexeme ('"' :: body ++ ['"']), rest, by simp [Piece.text], .closed isBody⟩
  by_cases isTilde : c = '~'
  · rw [isTilde]
    by_cases joins : '@' ∈ more.head?
    · obtain ⟨rest, rfl⟩ := List.head?_eq_some_iff.mp joins
      exact ⟨.lexeme ['~', '@'], rest, rfl, .splice⟩
    · exact ⟨.lexeme ['~'], more, rfl, .tilde joins⟩
  by_cases isMark : c ∈ ['(', ')', '[', ']', '\x7b', '\x7d', '\'', '\x60', '^', '@']
  · exact ⟨.lexeme [c], more, rfl, .mark isMark⟩
  -- What is none of these begins a run.
  have plain : IsPlain c := by
    by_contra notPlain
    rw [not_isPlain_iff] at notPlain
    simp_all
  obtain ⟨body, rest, rfl, ofBody, ends⟩ := exists_longest (isRunChar · = true) more
  refine ⟨.lexeme (c :: body), rest, rfl, .run (by simp_all) ?_ ?_⟩
  · exact List.forall_mem_cons.mpr ⟨plain, fun d mem => isRunChar_iff.mp (ofBody d mem)⟩
  · exact fun d isFirst isPlain => ends d isFirst (isRunChar_iff.mpr isPlain)

/-! ### The scanner hands out what fits -/

theorem piecesFrom_literal_of_isBody {body : List Char} (isBody : IsBody body)
    (reversed rest : List Char) :
    piecesFrom (.literal reversed) (body ++ rest) =
      piecesFrom (.literal (body.reverse ++ reversed)) rest := by
  induction isBody generalizing reversed with
  | nil => rfl
  | plain notQuote notBackslash _ ih =>
    rw [List.cons_append, piecesFrom_literal_plain notQuote notBackslash, ih]
    simp
  | escaped notNewline _ ih =>
    rw [List.cons_append, List.cons_append, piecesFrom_literal_escaped notNewline, ih]
    simp

theorem piecesFrom_literal_of_stops {rest : List Char} (stops : Stops rest)
    (reversed : List Char) :
    piecesFrom (.literal reversed) rest = .lexeme reversed.reverse :: pieces rest := by
  cases stops with
  | atEnd => rfl
  | atLast => rfl
  | atBreak rest => rfl

theorem piecesFrom_comment {body rest : List Char} (onLine : '\n' ∉ body)
    (ends : ∀ c ∈ rest.head?, c = '\n') (reversed : List Char) :
    piecesFrom (.comment reversed) (body ++ rest) =
      .comment (reversed.reverse ++ body) :: pieces rest := by
  induction body generalizing reversed with
  | nil =>
    cases rest with
    | nil => simp [piecesFrom, finish, pieces]
    | cons c rest =>
      obtain rfl : c = '\n' := ends c rfl
      rw [List.nil_append, piecesFrom, step, if_pos rfl, List.append_nil]
      rfl
  | cons c body ih =>
    rw [List.mem_cons, not_or] at onLine
    rw [List.cons_append, piecesFrom, step, if_neg (Ne.symm onLine.1)]
    exact (ih onLine.2 (c :: reversed)).trans (by simp)

/-- The scanner hands out the piece that fits, and goes on with the rest of the text. -/
theorem Fits.pieces_eq {piece : Piece} {rest : List Char} (fits : Fits piece rest) :
    pieces (piece.text ++ rest) = piece :: pieces rest := by
  cases fits with
  | separator separates =>
    rw [Piece.text, List.singleton_append, pieces, piecesFrom, step, begin,
      if_pos (isSeparator_iff.mpr separates)]
    rfl
  | comment onLine ends =>
    exact piecesFrom_comment onLine ends [';']
  | splice => rfl
  | tilde alone =>
    cases rest with
    | nil => rfl
    | cons c rest =>
      have notAt : c ≠ '@' := fun same => alone (congrArg some same)
      change piecesFrom .tilde (c :: rest) = _
      rw [piecesFrom, step, if_neg notAt]
      rfl
  | mark isMark =>
    refine pieces_mark ?_ rest
    simp only [List.mem_cons, List.not_mem_nil, or_false] at isMark
    rcases isMark with rfl | rfl | rfl | rfl | rfl | rfl | rfl | rfl | rfl | rfl <;> decide
  | @closed body rest isBody =>
    change piecesFrom (.literal ['"']) ((body ++ ['"']) ++ rest) = _
    rw [List.append_assoc, piecesFrom_literal_of_isBody isBody, List.singleton_append, piecesFrom,
      step, if_pos rfl]
    simp [pieces]
  | @unclosed body rest isBody stops =>
    change piecesFrom (.literal ['"']) (body ++ rest) = _
    rw [piecesFrom_literal_of_isBody isBody, piecesFrom_literal_of_stops stops]
    simp
  | @run c more rest begins plain ends =>
    refine pieces_word ⟨c, more, rfl, ?_, ?_, fun d mem => isRunChar_iff.mpr (plain d mem)⟩
      fun d isFirst => isRunChar_eq_false_iff.mpr (ends d isFirst)
    · simp_all [isLeadingMark]
    · simp_all

end Scan

/-! ### Places -/

namespace Position

/-- The place behind some text: its line is told by the line breaks in the text, and its column by
the characters behind the last one of them. -/
def behind (text : List Char) : Position where
  line := text.count '\n' + 1
  column := (text.reverse.takeWhile (· ≠ '\n')).length + 1

/-- The place that is reached from the start of a text is the one behind what has been read. -/
theorem after_start (text : List Char) : start.after text = behind text := by
  -- The last character decides: it begins a new line, or moves the column on by one.
  induction text using List.reverseRecOn with
  | nil => rfl
  | append_singleton text c ih =>
    rw [after_append, ih, after_cons, after_nil, next, behind, behind]
    by_cases breaks : c = '\n'
    · simp [breaks]
    · simp [breaks]

theorem after_behind (before text : List Char) :
    (behind before).after text = behind (before ++ text) := by
  rw [← after_start, ← after_start, after_append]

end Position

namespace Scan

/-- A text is put together of pieces that fit, and its tokens are the lexemes among them. `before`
is the text in front of it, by which places are counted. -/
inductive Tiles : List Char → List Char → List Token → Prop where
  | nil {before : List Char} : Tiles before [] []
  | separator {before rest : List Char} {c : Char} {tokens : List Token}
      (fits : Fits (.separator c) rest) (tiles : Tiles (before ++ [c]) rest tokens) :
      Tiles before (c :: rest) tokens
  | comment {before text rest : List Char} {tokens : List Token}
      (fits : Fits (.comment text) rest) (tiles : Tiles (before ++ text) rest tokens) :
      Tiles before (text ++ rest) tokens
  | lexeme {before text rest : List Char} {tokens : List Token}
      (fits : Fits (.lexeme text) rest) (tiles : Tiles (before ++ text) rest tokens) :
      Tiles before (text ++ rest)
        (Token.ofLexeme (String.ofList text) (Position.behind before) :: tokens)

/-- A text that is tiled is scanned as it is tiled. -/
theorem Tiles.locate_pieces {before text : List Char} {tokens : List Token}
    (tiles : Tiles before text tokens) :
    locate (Position.behind before) (pieces text) = tokens := by
  induction tiles with
  | nil => rfl
  | @separator before rest c tokens fits _ ih =>
    have handed : pieces (c :: rest) = _ := fits.pieces_eq
    rw [handed, locate, Position.after_behind]
    · exact ih
    · rintro _ ⟨⟩
  | @comment before text rest tokens fits _ ih =>
    have handed : pieces (text ++ rest) = _ := fits.pieces_eq
    rw [handed, locate, Position.after_behind]
    · exact ih
    · rintro _ ⟨⟩
  | @lexeme before text rest tokens fits _ ih =>
    have handed : pieces (text ++ rest) = _ := fits.pieces_eq
    rw [handed, locate, Position.after_behind, ih]

theorem Fits.text_ne_nil {piece : Piece} {rest : List Char} (fits : Fits piece rest) :
    piece.text ≠ [] := by
  cases fits <;> exact List.cons_ne_nil _ _

/-- Every text is tiled. -/
theorem exists_tiles (before text : List Char) : ∃ tokens, Tiles before text tokens := by
  match text with
  | [] => exact ⟨[], .nil⟩
  | c :: more =>
    obtain ⟨piece, rest, cut, fits⟩ := exists_fits c more
    -- No piece is empty, so there is less text behind it.
    have shorter : rest.length < (c :: more).length := by
      have nonempty := List.length_pos_iff.mpr fits.text_ne_nil
      rw [cut, List.length_append]
      omega
    obtain ⟨tokens, tiles⟩ := exists_tiles (before ++ piece.text) rest
    rw [cut]
    cases piece with
    | separator c => exact ⟨tokens, .separator fits tiles⟩
    | comment text => exact ⟨tokens, .comment fits tiles⟩
    | lexeme text => exact ⟨_, .lexeme fits tiles⟩
termination_by text.length
decreasing_by exact shorter

end Scan

/-- The tokens of a text are those that tile it: the text is put together, with nothing left out and
nothing twice, of separators, comments and the lexemes of its tokens, each of which fits in front of
what follows it, and a token has the place behind what stands in front of it. -/
theorem Token.scan_eq_iff_tiles (text : String) (tokens : List Token) :
    scan text = tokens ↔ Scan.Tiles [] text.toList tokens := by
  have first : Position.start = Position.behind [] := rfl
  rw [scan, first]
  constructor
  · rintro rfl
    obtain ⟨tokens, tiles⟩ := Scan.exists_tiles [] text.toList
    rwa [tiles.locate_pieces]
  · exact Scan.Tiles.locate_pieces

end SmallLisp
