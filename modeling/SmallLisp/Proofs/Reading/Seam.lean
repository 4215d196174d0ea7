import SmallLisp.Token.Scan

/-!
# Cutting a text at the end of a line

What the scanner makes of a text depends on what follows only as far as a piece is still in
progress where the text ends. A line break ends every piece but a string literal. So the tokens of
a text stay what they are when more lines follow, unless its last token is an open literal, which
the further lines take the place of.

## Main definitions

* `Scan.handed`, `Scan.reached`: the pieces that a text completes, and the mode in which it ends
* `Scan.IsOpen`: the characters, in reverse, of a string literal that does not end
* `Scan.EndsOpen`: a text that ends inside a string literal

## Main results

* `Scan.pieces_append_newline`: the pieces of a text and those of further lines
* `Scan.locate_append`: the tokens of pieces put end to end
* `Token.scan_append_newline`: the tokens of a text and those of further lines
* `Token.exists_scan_of_endsOpen`: those of a text that ends inside a string literal
-/

namespace SmallLisp

namespace Scan

/-- The mode in which a text ends. -/
def reached (mode : Mode) (text : List Char) : Mode :=
  text.foldl (fun mode c => (step mode c).1) mode

/-- The pieces that a text completes. -/
def handed : Mode → List Char → List Piece
  | _, [] => []
  | mode, c :: rest => (step mode c).2 ++ handed (step mode c).1 rest

theorem piecesFrom_append (mode : Mode) (first second : List Char) :
    piecesFrom mode (first ++ second) =
      handed mode first ++ piecesFrom (reached mode first) second := by
  induction first generalizing mode with
  | nil => rfl
  | cons c rest ih =>
    have goesOn := ih (step mode c).1
    rw [List.cons_append, piecesFrom, handed, List.append_assoc]
    exact congrArg _ goesOn

/-- The pieces of a text are those it completes and the one in progress at its end. -/
theorem piecesFrom_eq (mode : Mode) (text : List Char) :
    piecesFrom mode text = handed mode text ++ finish (reached mode text) := by
  have cut := piecesFrom_append mode text []
  rwa [List.append_nil] at cut

theorem begin_newline : begin '\n' = (.start, [.separator '\n']) := by decide

/-- A line break ends every piece but a string literal. -/
theorem step_newline {mode : Mode} (closed : ∀ reversed, mode ≠ .literal reversed) :
    step mode '\n' = (.start, finish mode ++ [.separator '\n']) := by
  cases mode with
  | start => exact begin_newline
  | tilde => rfl
  | run reversed =>
    have notRun : isRunChar '\n' = false := by decide
    rw [step, notRun, if_neg Bool.false_ne_true, beginAfter, begin_newline]
    rfl
  | comment reversed =>
    rw [step, if_pos rfl, beginAfter, begin_newline]
    rfl
  | literal reversed => exact absurd rfl (closed reversed)
  | escape reversed =>
    rw [step, if_pos rfl, beginAfter, begin_newline]
    rfl

/-- A text ends inside a string literal. -/
def EndsOpen (text : List Char) : Prop := ∃ reversed, reached .start text = .literal reversed

/-- The pieces of a text and of the lines that follow it. -/
theorem pieces_append_newline {text : List Char} (closed : ¬ EndsOpen text) (more : List Char) :
    pieces (text ++ '\n' :: more) = pieces text ++ .separator '\n' :: pieces more := by
  -- The line break hands out what the end of the text would have handed out.
  have breaks := step_newline fun reversed ends => closed ⟨reversed, ends⟩
  rw [pieces, piecesFrom_append, piecesFrom, breaks, pieces, piecesFrom_eq]
  simp only [List.append_assoc, List.singleton_append]
  rfl

/-- The tokens of pieces put end to end. -/
theorem locate_append (place : Position) (first second : List Piece) :
    locate place (first ++ second) =
      locate place first ++ locate (place.after (first.flatMap Piece.text)) second := by
  induction first generalizing place with
  | nil => rfl
  | cons piece rest ih =>
    rw [List.flatMap_cons, Position.after_append]
    cases piece with
    | lexeme text => exact congrArg (_ :: ·) (ih _)
    | separator c => exact ih _
    | comment text => exact ih _

/-! ### Open literals -/

/-- The characters, in reverse, of a string literal that does not end: a quote, and then
characters other than quotes and backslashes, or characters with a backslash in front of them. -/
inductive IsOpen : List Char → Prop where
  | quote : IsOpen ['"']
  | plain {c : Char} {reversed : List Char} :
      c ≠ '"' → c ≠ '\\' → IsOpen reversed → IsOpen (c :: reversed)
  | escaped {c : Char} {reversed : List Char} : IsOpen reversed → IsOpen (c :: '\\' :: reversed)

/-- The literal in progress, if there is one, does not end. -/
def Mode.KeepsOpen : Mode → Prop
  | literal reversed | escape reversed => IsOpen reversed
  | start | tilde | run _ | comment _ => True

theorem keepsOpen_begin (c : Char) : (begin c).1.KeepsOpen := by
  unfold begin
  split
  · trivial
  · split
    · trivial
    · split
      · trivial
      · split
        · rename_i isQuote
          rw [isQuote]
          exact .quote
        · split <;> trivial

theorem keepsOpen_step {mode : Mode} (keeps : mode.KeepsOpen) (c : Char) :
    (step mode c).1.KeepsOpen := by
  cases mode with
  | start => exact keepsOpen_begin c
  | tilde =>
    rw [step]
    split
    · trivial
    · exact keepsOpen_begin c
  | run reversed =>
    rw [step]
    split
    · trivial
    · exact keepsOpen_begin c
  | comment reversed =>
    rw [step]
    split
    · exact keepsOpen_begin c
    · trivial
  | literal reversed =>
    rw [step]
    split
    · trivial
    · rename_i notQuote
      split
      · exact keeps
      · rename_i notBackslash
        exact .plain notQuote notBackslash keeps
  | escape reversed =>
    rw [step]
    split
    · exact keepsOpen_begin c
    · exact .escaped keeps

theorem keepsOpen_reached {mode : Mode} (keeps : mode.KeepsOpen) (text : List Char) :
    (reached mode text).KeepsOpen := by
  induction text generalizing mode with
  | nil => exact keeps
  | cons c rest ih => exact ih (keepsOpen_step keeps c)

end Scan

namespace Token

/-- The tokens of a text and of the lines that follow it. -/
theorem scan_append_newline {text : String} (closed : ¬ Scan.EndsOpen text.toList) (more : String) :
    scan (text ++ "\n" ++ more) = scan text ++
      Scan.locate ((Position.start.after text.toList).next '\n') (Scan.pieces more.toList) := by
  have characters : (text ++ "\n" ++ more).toList = text.toList ++ '\n' :: more.toList := by simp
  rw [scan, characters, Scan.pieces_append_newline closed, Scan.locate_append, Scan.pieces_text]
  rfl

/-- The tokens of a text that ends inside a string literal: the last one is that literal. The
lines that follow the text leave the others as they are. -/
theorem exists_scan_of_endsOpen {text : String} (endsOpen : Scan.EndsOpen text.toList) :
    ∃ before reversed place, Scan.IsOpen reversed ∧
      scan text = before ++ [ofLexeme (String.ofList reversed.reverse) place] ∧
      ∀ more, ∃ after, scan (text ++ "\n" ++ more) = before ++ after := by
  obtain ⟨reversed, ends⟩ := endsOpen
  have starts : Scan.Mode.start.KeepsOpen := trivial
  have isOpen := Scan.keepsOpen_reached starts text.toList
  rw [ends] at isOpen
  let completed := Scan.handed .start text.toList
  refine ⟨Scan.locate Position.start completed, reversed,
    Position.start.after (completed.flatMap Piece.text), isOpen, ?_, fun more => ?_⟩
  · rw [scan, Scan.pieces, Scan.piecesFrom_eq, ends, Scan.locate_append]
    rfl
  · have characters : (text ++ "\n" ++ more).toList = text.toList ++ '\n' :: more.toList := by simp
    rw [scan, characters, Scan.pieces, Scan.piecesFrom_append, Scan.locate_append]
    exact ⟨_, rfl⟩

end Token

end SmallLisp
