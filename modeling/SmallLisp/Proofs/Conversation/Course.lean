import SmallLisp.CommandLine
import SmallLisp.Proofs.Conversation.Passages
import SmallLisp.Proofs.Evaluation.Outcome

/-!
# The course of a conversation

A conversation takes in one line after the other, and what it does with a line depends on those
that are pending. Seen as a whole it goes through the passages of its lines, each of which is done
with at its last line: for a blank line nothing happens but the prompt, and for a submission the
prompts are shown and then one reply is printed, for which the first form of the text is evaluated
once. What a program does to the store, and whether it ends, makes no difference to this.

## Main definitions

* `Store.complaint`, `Repl.replyTo`: the text with which a submission is answered
* `Repl.Passage.hold`: what a passage comes to
* `CommandLine.attend`: a conversation up to the prompt behind some lines

## Main results

* `Repl.feed_of_blank`, `Repl.feed_of_incomplete`, `Repl.feed_of_decided`: what a line does
* `CommandLine.attend_division`: a conversation goes through its passages
* `CommandLine.converse_course`: the course of a conversation
-/

namespace SmallLisp

/-! ### Replies -/

/-- The text with which an error is answered. A thrown value is shown as it is. -/
def Store.complaint (store : Store) : Error → String
  | .thrown payload => "Error: " ++ store.readableText payload
  | error => "Error: " ++ store.errorText error

/-- The store after a text has been printed. -/
def Store.printed (store : Store) (text : String) : Store :=
  { store with output := store.output ++ text }

namespace Eval

theorem print_nil : print "" = pure () := by
  funext store
  change EStateM.Result.ok () { store with output := store.output ++ "" } = .ok () store
  rw [String.append_empty]

theorem print_bind_print {α : Type} (first second : String) (next : Eval α) :
    (do print first; print second; next) = (do print (first ++ second); next) := by
  funext store
  change next { store with output := store.output ++ first ++ second } =
    next { store with output := store.output ++ (first ++ second) }
  rw [String.append_assoc]

end Eval

namespace Repl

/-- The text with which a submission is answered: the value of its first form, or the error with
which reading or evaluating that form ends. -/
def replyTo (fuel : Nat) (text : String) : Eval String := fun store =>
  match Form.ofText text with
  | .error error => .ok (store.complaint error) store
  | .ok form =>
    match TopLevel.evaluate fuel form store with
    | .ok value after => .ok (after.readableText value) after
    | .error (.failure error) after => .ok (after.complaint error) after
    | .error halt after => .error halt after

theorem errorAnswer_eq (error : Error) (store : Store) :
    errorAnswer error store = .ok (store.complaint error) store := by
  cases error <;> rfl

theorem answer_eq {fuel : Nat} {text : String} {form : Value}
    (reads : Form.ofText text = .ok form) : answer fuel form = replyTo fuel text := by
  funext store
  rw [replyTo, reads]
  simp only
  cases ends : TopLevel.evaluate fuel form store with
  | ok value after =>
    have attempted : Eval.attempt (TopLevel.evaluate fuel form) store = .ok (.ok value) after := by
      rw [Eval.attempt, ends]
    rw [answer, Eval.bind_of_ok attempted]
    rfl
  | error halt after =>
    cases halt with
    | failure error =>
      have attempted :
          Eval.attempt (TopLevel.evaluate fuel form) store = .ok (.error error) after := by
        rw [Eval.attempt, ends]
      rw [answer, Eval.bind_of_ok attempted]
      exact errorAnswer_eq error after
    | _ => rw [answer, Eval.bind_of_error (by rw [Eval.attempt, ends])]

/-! ### What a line does -/

section Feed

variable {fuel : Nat} {session : Session} {line text : String}

theorem feed_of_blank (nothing : session.pending = "") (blank : isBlankText line = true) :
    feed fuel session line = pure session := by
  rw [feed, nothing, blank]
  rfl

theorem feed_of_incomplete (notSkipped : session.pending = "" → isBlankText line = false)
    (incomplete : Form.ofText (session.pending ++ line ++ "\n") = .error .incomplete) :
    feed fuel session line =
      pure { session with pending := session.pending ++ line ++ "\n" } := by
  have goesOn : ¬ (session.pending.isEmpty && isBlankText line) = true := by
    simpa [String.isEmpty_iff] using notSkipped
  rw [feed, if_neg goesOn]
  simp only [examine, incomplete]

theorem examine_of_error {error : Error} (fails : Form.ofText text = .error error)
    (decided : error ≠ .incomplete) : examine text = .unreadable error := by
  rw [examine, fails]
  cases error <;> first | rfl | exact absurd rfl decided

/-- A line with which a text is decided is answered, and nothing is pending any more. -/
theorem feed_of_decided
    (decided : Form.ofText (session.pending ++ line ++ "\n") ≠ .error .incomplete) :
    feed fuel session line = (do
      Eval.printLine (← replyTo fuel (session.pending ++ line ++ "\n"))
      return ⟨"", (session.pending ++ line ++ "\n") :: session.submissions⟩) := by
  have goesOn : ¬ (session.pending.isEmpty && isBlankText line) = true := by
    -- A blank line where nothing is pending would leave the text incomplete.
    rw [Bool.and_eq_true, String.isEmpty_iff]
    rintro ⟨nothing, blank⟩
    refine decided (Form.ofText_of_blank ?_)
    rw [nothing]
    simpa [isBlankText, isBlank_newline] using blank
  rw [feed, if_neg goesOn]
  cases reads : Form.ofText (session.pending ++ line ++ "\n") with
  | ok form => simp only [examine, reads, answer_eq reads]
  | error error =>
    have isError : error ≠ .incomplete := by
      rintro rfl
      exact decided reads
    have answers : replyTo fuel (session.pending ++ line ++ "\n") = errorAnswer error := by
      funext store
      rw [errorAnswer_eq, replyTo, reads]
    simp only [examine_of_error reads isError, answers]

end Feed

end Repl

/-! ### Passages that are held -/

namespace CommandLine

open Repl

variable (fuel : Nat) (shows : Bool) (settings : Settings)

/-- The prompt that is shown where some lines are pending. -/
def promptAt (earlier : Nat) : String :=
  if shows then
    if earlier = 0 then settings.prompt
    else String.ofList (List.replicate settings.prompt.utf8ByteSize ' ')
  else ""

/-- The prompts that are shown for lines that are gathered. -/
def prompts (count : Nat) : String :=
  String.join ((List.range count).map (promptAt shows settings))

/-- What a passage comes to. Its prompts are shown, and a submission is answered with a line. -/
def hold : Passage → Eval Unit
  | .skipped _ => Eval.print (prompts shows settings 1)
  | .submission lines => do
    Eval.print (prompts shows settings lines.length)
    Eval.printLine (← replyTo fuel (gathered lines))

/-- A conversation up to the prompt behind some lines. -/
def attend (session : Session) (lines : List String) : Eval Session :=
  lines.foldlM (fun session line => do
    showPrompt shows settings session
    feed fuel session line) session

theorem prompts_succ (count : Nat) :
    prompts shows settings (count + 1) =
      prompts shows settings count ++ promptAt shows settings count := by
  simp [prompts, List.range_succ]

theorem showPrompt_gathered (begun : List String) (submissions : List String) :
    showPrompt shows settings ⟨gathered begun, submissions⟩ =
      Eval.print (promptAt shows settings begun.length) := by
  rw [showPrompt, promptAt, Repl.prompt, isEmpty_gathered]
  cases shows with
  | false => exact Eval.print_nil.symm
  | true => cases begun <;> rfl

theorem attend_nil (session : Session) : attend fuel shows settings session [] = pure session := rfl

theorem attend_append (session : Session) (lines more : List String) :
    attend fuel shows settings session (lines ++ more) = (do
      let session ← attend fuel shows settings session lines
      attend fuel shows settings session more) := by
  simp only [attend, List.foldlM_append]

theorem attend_concat (session : Session) (lines : List String) (line : String) :
    attend fuel shows settings session (lines ++ [line]) = (do
      let session ← attend fuel shows settings session lines
      showPrompt shows settings session
      feed fuel session line) := by
  rw [attend_append]
  simp only [attend, List.foldlM_cons, List.foldlM_nil, bind_pure]

/-- While lines wait for more, nothing happens but the prompts. -/
theorem attend_unfinished (submissions : List String) {begun : List String}
    (unfinished : Unfinished begun) :
    attend fuel shows settings ⟨"", submissions⟩ begun = (do
      Eval.print (prompts shows settings begun.length)
      return ⟨gathered begun, submissions⟩) := by
  induction begun using List.reverseRecOn with
  | nil =>
    have none : prompts shows settings ([] : List String).length = "" := rfl
    rw [none, Eval.print_nil, pure_bind]
    rfl
  | append_singleton begun line ih =>
    obtain ⟨unfinished, notBlank, incomplete⟩ := unfinished_concat_iff.mp unfinished
    -- A blank line is passed over only when no line is pending.
    have notSkipped (nothing : gathered begun = "") : isBlankText line = false := by
      refine notBlank (List.isEmpty_iff.mp ?_)
      rw [← isEmpty_gathered, nothing]
      rfl
    rw [gathered_concat] at incomplete
    have feeds : feed fuel ⟨gathered begun, submissions⟩ line =
        pure ⟨gathered begun ++ line ++ "\n", submissions⟩ :=
      feed_of_incomplete notSkipped incomplete
    rw [attend_concat, ih unfinished, gathered_concat, List.length_append, List.length_singleton,
      prompts_succ, ← Eval.print_bind_print]
    simp only [bind_assoc, pure_bind, showPrompt_gathered, feeds]

/-- A passage is done with at its last line. -/
theorem attend_passage (submissions : List String) {passage : Passage} (proper : passage.Proper) :
    attend fuel shows settings ⟨"", submissions⟩ passage.lines = (do
      hold fuel shows settings passage
      return ⟨"", passage.submitted ++ submissions⟩) := by
  cases proper with
  | @skipped line blank =>
    have prompts_one : prompts shows settings 1 = promptAt shows settings 0 := by
      rw [prompts_succ]
      exact String.empty_append
    have feeds : feed fuel ⟨"", submissions⟩ line = pure ⟨"", submissions⟩ :=
      feed_of_blank rfl blank
    have shown := showPrompt_gathered shows settings [] submissions
    change attend fuel shows settings ⟨"", submissions⟩ ([] ++ [line]) = _
    rw [attend_concat, attend_nil, pure_bind, hold, prompts_one, feeds]
    exact congrArg (· >>= fun _ => pure (Session.mk "" submissions)) shown
  | @submission begun last unfinished notBlank decided =>
    have answers : feed fuel ⟨gathered begun, submissions⟩ last = (do
        Eval.printLine (← replyTo fuel (gathered (begun ++ [last])))
        return ⟨"", gathered (begun ++ [last]) :: submissions⟩) := by
      rw [gathered_concat] at decided ⊢
      exact feed_of_decided decided
    rw [Passage.lines, attend_concat, attend_unfinished _ _ _ _ unfinished, hold,
      List.length_append, List.length_singleton, prompts_succ, ← Eval.print_bind_print]
    simp only [bind_assoc, pure_bind, showPrompt_gathered, answers]
    rfl

/-- A conversation goes through its passages, one after the other. -/
theorem attend_passages (submissions : List String) {passages : List Passage}
    (proper : ∀ passage ∈ passages, passage.Proper) :
    attend fuel shows settings ⟨"", submissions⟩ (passages.flatMap Passage.lines) = (do
      passages.forM (hold fuel shows settings)
      return ⟨"", (passages.flatMap Passage.submitted).reverse ++ submissions⟩) := by
  induction passages generalizing submissions with
  | nil => rfl
  | cons passage passages ih =>
    rw [List.forall_mem_cons] at proper
    have latestFirst : ((passage :: passages).flatMap Passage.submitted).reverse ++ submissions =
        (passages.flatMap Passage.submitted).reverse ++ (passage.submitted ++ submissions) := by
      cases passage <;> simp [Passage.submitted]
    rw [List.flatMap_cons, attend_append, attend_passage _ _ _ _ proper.1, latestFirst]
    simp only [bind_assoc, pure_bind, ih _ proper.2, List.forM_eq_forM, List.forM_cons]

theorem attend_division {lines : List String} (division : Division lines) :
    attend fuel shows settings .fresh lines = (do
      division.passages.forM (hold fuel shows settings)
      Eval.print (prompts shows settings division.dropped.length)
      return ⟨gathered division.dropped, division.submissions.reverse⟩) := by
  conv_lhs => rw [← division.whole, attend_append, Session.fresh,
    attend_passages _ _ _ _ division.proper]
  simp only [bind_assoc, pure_bind, attend_unfinished _ _ _ _ division.unfinished,
    List.append_nil, Division.submissions]

theorem converse_eq (session : Session) (lines : List String) :
    converse fuel shows settings session lines = (do
      let session ← attend fuel shows settings session lines
      showPrompt shows settings session
      return session) := by
  induction lines generalizing session with
  | nil =>
    rw [attend_nil, pure_bind]
    rfl
  | cons line rest ih =>
    rw [converse]
    simp only [ih, attend, List.foldlM_cons, bind_assoc]

/-- A conversation is one up to any of its prompts, and another from there on. -/
theorem converse_append (session : Session) (lines more : List String) :
    converse fuel shows settings session (lines ++ more) = (do
      let session ← attend fuel shows settings session lines
      converse fuel shows settings session more) := by
  simp only [converse_eq, attend_append, bind_assoc]

theorem converse_division {lines : List String} (division : Division lines) :
    converse fuel shows settings .fresh lines = (do
      division.passages.forM (hold fuel shows settings)
      Eval.print (prompts shows settings (division.dropped.length + 1))
      return ⟨gathered division.dropped, division.submissions.reverse⟩) := by
  rw [converse_eq, attend_division fuel shows settings division, prompts_succ,
    ← Eval.print_bind_print]
  simp only [bind_assoc, pure_bind, showPrompt_gathered]

/-- At every prompt nothing is pending or the text is incomplete. -/
theorem pending_of_attend {lines : List String} {session : Session} {s t : Store}
    (attends : attend fuel shows settings .fresh lines s = .ok session t) :
    session.pending = "" ∨ Form.ofText session.pending = .error .incomplete := by
  -- What is pending are the lines that are left unfinished so far.
  obtain ⟨division⟩ := exists_division lines
  have leads : (attend fuel shows settings .fresh lines).Leads s
      (fun session _ => session.pending = gathered division.dropped) fun _ _ => True := by
    rw [attend_division fuel shows settings division, Eval.leads_bind, Eval.leads_iff]
    exact ⟨fun _ _ _ => rfl, fun _ _ _ => trivial⟩
  rw [(Eval.leads_ok_iff attends).mp leads]
  rcases List.eq_nil_or_concat division.dropped with none | ⟨begun, last, dropped⟩
  · rw [none]
    exact .inl rfl
  · refine .inr (division.unfinished.2 _ ?_ List.prefix_rfl)
    simp [dropped]

/-- The lines of a conversation divide into passages in exactly one way, and the conversation goes
through these in order: for each it shows the prompts, and to each submission it replies with one
line, for which the first form of the text is evaluated once. At any of its prompts nothing is
pending or the text is incomplete. A line with which the text is incomplete leaves the store as it
is. When it is evaluation that finds a text incomplete, this is an error like any other, and nothing
is pending any more. -/
theorem converse_course (lines : List String) :
    ∃ division : Division lines, (∀ other : Division lines, other = division) ∧
      converse fuel shows settings .fresh lines = (do
        division.passages.forM (hold fuel shows settings)
        Eval.print (prompts shows settings (division.dropped.length + 1))
        return ⟨gathered division.dropped, division.submissions.reverse⟩) ∧
      (∀ before after, before ++ after = lines →
        converse fuel shows settings .fresh lines = (do
          let session ← attend fuel shows settings .fresh before
          converse fuel shows settings session after) ∧
        ∀ s session t, attend fuel shows settings .fresh before s = .ok session t →
          session.pending = "" ∨ Form.ofText session.pending = .error .incomplete) ∧
      (∀ (session : Session) line s,
        Form.ofText (session.pending ++ line ++ "\n") = .error .incomplete →
        feed fuel session line s =
          .ok (if session.pending = "" ∧ isBlankText line = true then session
            else { session with pending := session.pending ++ line ++ "\n" }) s) ∧
      ∀ (session : Session) line form s t,
        Form.ofText (session.pending ++ line ++ "\n") = .ok form →
        TopLevel.evaluate fuel form s = .error (.failure .incomplete) t →
        feed fuel session line s =
          .ok ⟨"", (session.pending ++ line ++ "\n") :: session.submissions⟩
            (t.printed "Error: Unexpected end of input: more input expected\n") := by
  obtain ⟨division⟩ := exists_division lines
  refine ⟨division, fun other => other.unique division, converse_division _ _ _ division,
    ?_, ?_, ?_⟩
  · rintro before after rfl
    exact ⟨converse_append _ _ _ _ before after, fun _ _ _ => pending_of_attend _ _ _⟩
  · intro session line s incomplete
    by_cases skipped : session.pending = "" ∧ isBlankText line = true
    · rw [if_pos skipped, feed_of_blank skipped.1 skipped.2]
      rfl
    · have notSkipped (nothing : session.pending = "") : isBlankText line = false := by
        simpa [nothing] using skipped
      rw [if_neg skipped, feed_of_incomplete notSkipped incomplete]
      rfl
  · intro session line form s t reads evaluates
    have decided : Form.ofText (session.pending ++ line ++ "\n") ≠ .error .incomplete := by
      rw [reads]
      rintro ⟨⟩
    have replies : replyTo fuel (session.pending ++ line ++ "\n") s =
        .ok "Error: Unexpected end of input: more input expected" t := by
      rw [replyTo, reads]
      simp only [evaluates]
      rfl
    rw [feed_of_decided decided, Eval.bind_of_ok replies]
    rfl

/-- A blank line, a vector on two lines, a form whose evaluation finds a text incomplete, and the
beginning of a list. -/
theorem converse_course_vector :
    let s := (Store.initial fun _ => none).opened
      [("read-string", .native (.operation .readString))]
    converse 4 false .standard .fresh ["", "[", ":a]", "(read-string \"(\")", "(b"] s =
      .ok ⟨"(b\n", ["(read-string \"(\")\n", "[\n:a]\n"]⟩
        (s.printed "[:a]\nError: Unexpected end of input: more input expected\n") := by
  intro s
  have opened : Unfinished ["["] :=
    unfinished_concat_iff.mpr ⟨unfinished_nil, fun _ => by decide, rfl⟩
  have begun : Unfinished ["(b"] :=
    unfinished_concat_iff.mpr ⟨unfinished_nil, fun _ => by decide, rfl⟩
  have vector : Passage.Proper (.submission (["["] ++ [":a]"])) :=
    .submission opened (fun none => nomatch none) (fun fails => nomatch fails)
  have call : Passage.Proper (.submission ([] ++ ["(read-string \"(\")"])) :=
    .submission unfinished_nil (fun _ => by decide) (fun fails => nomatch fails)
  let division : Division ["", "[", ":a]", "(read-string \"(\")", "(b"] :=
    { passages := [.skipped "", .submission ["[", ":a]"], .submission ["(read-string \"(\")"]]
      dropped := ["(b"]
      whole := rfl
      proper := by simpa using ⟨.skipped (by decide), vector, call⟩
      unfinished := begun }
  obtain ⟨other, unique, course, _⟩ := converse_course 4 false .standard
    ["", "[", ":a]", "(read-string \"(\")", "(b"]
  -- The passages are held one after the other.
  have blank : hold 4 false .standard (.skipped "") s = .ok () s := rfl
  have value : hold 4 false .standard (.submission ["[", ":a]"]) s =
      .ok () (s.printed "[:a]\n") := by
    rfl
  have error : hold 4 false .standard (.submission ["(read-string \"(\")"]) (s.printed "[:a]\n") =
      .ok () (s.printed "[:a]\nError: Unexpected end of input: more input expected\n") := by
    rfl
  rw [course, ← unique division]
  simp only [division, List.forM_eq_forM, List.forM_cons, List.forM_nil, bind_assoc]
  rw [Eval.bind_of_ok blank, Eval.bind_of_ok value, Eval.bind_of_ok error]
  rfl

end CommandLine

end SmallLisp
