import SmallLisp.Proofs.Loading.Prelude
import SmallLisp.Proofs.Loading.Sequence

/-!
# Loading a file that cannot be read

A file is read as a whole before anything of it is evaluated, whether the host loads it or a
program. They differ in what they read: the host reads the text as it is, and a program reads it
between the parentheses of a `do` form. A parenthesis in the text that closes nothing closes that
form, so that a program evaluates what is in front of it and takes no notice of the rest, where the
host reports an error. Every other fault is one for both.

## Main results

* `evaluateFile_of_rejected`: the host evaluates nothing of a text that cannot be read
* `load_rejected`: what a program makes of such a text
* `load_stray_parenthesis`: a text that the host rejects and a program evaluates
-/

namespace SmallLisp

section Rejected

variable {store : Store} {path content : String} {error : Error}

theorem Eval.readFile_of_holds (holds : store.files path = some (.ok content)) :
    Eval.readFile path store = .ok content store := by
  rw [Eval.readFile, Eval.bind_of_ok (Eval.get_eq _), holds]
  rfl

/-- The host evaluates nothing of a text that cannot be read. -/
theorem evaluateFile_of_rejected (holds : store.files path = some (.ok content))
    (rejected : Form.allOfText content = .error error) (fuel : Nat) :
    TopLevel.evaluateFile fuel path store = .error (.failure error) store := by
  rw [TopLevel.evaluateFile, Eval.bind_of_ok (Eval.readFile_of_holds holds),
    evaluateAll_of_unreadable rejected]

/-- The host evaluates nothing of a text that cannot be read. Nor does a program, for which loading
it is an error too, unless the forms of the text up to a parenthesis that closes nothing can be read
at top level: these are evaluated as if they were all there is. -/
theorem load_rejected (loads : store.LoadsFiles) (holds : store.files path = some (.ok content))
    (rejected : Form.allOfText content = .error error) (fuel : Nat) :
    TopLevel.evaluateFile fuel path store = .error (.failure error) store ∧
    ((∀ before closing rest forms, Token.scan content = before ++ closing :: rest →
        closing.kind = .rightParen → Form.readAll before ≠ .ok forms) →
      ∃ fault, run (fuel + 7) (.evaluate (Prelude.loadCall path) TopLevel.root) store =
        .error (.failure fault) (store.loading path)) ∧
    ∀ before closing rest forms, Token.scan content = before ++ closing :: rest →
      closing.kind = .rightParen → Form.readAll before = .ok forms →
      run (fuel + 7) (.evaluate (Prelude.loadCall path) TopLevel.root) store =
        run (fuel + 3) (.evaluate (Form.call "do" forms) TopLevel.root) (store.loading path) := by
  refine ⟨evaluateFile_of_rejected holds rejected fuel, fun noStray => ?_, ?_⟩
  · rw [run_loadCall loads holds]
    cases reads : Form.ofText (Form.enclosed content) with
    | error fault => exact ⟨fault, rfl⟩
    | ok form =>
      obtain ⟨forms, _, whole | ⟨before, closing, rest, cut, isParen, reads⟩⟩ :=
        Form.ofText_enclosed_eq_ok_iff.mp reads
      · rw [rejected] at whole
        cases whole
      · exact absurd reads (noStray before closing rest forms cut isParen)
  · intro before closing rest forms cut isParen reads
    have asForm := Form.ofText_enclosed_eq_ok_iff.mpr
      ⟨forms, rfl, .inr ⟨before, closing, rest, cut, isParen, reads⟩⟩
    rw [run_loadCall loads holds, asForm]
    rfl

end Rejected

/-- A text that holds nothing but the beginning of a list. -/
theorem load_rejected_incomplete :
    ∃ store, TopLevel.start 2 true (Store.initial fun _ => some (.ok "(")) = .ok () store ∧
      store.LoadsFiles ∧ Form.allOfText "(" = .error .incomplete ∧
      ∃ fault, run 7 (.evaluate (Prelude.loadCall "a.wisp") TopLevel.root) store =
        .error (.failure fault) (store.loading "a.wisp") := by
  obtain ⟨store, ready, loads, _, files⟩ := exists_start 0 fun _ => some (.ok "(")
  have holds : store.files "a.wisp" = some (.ok "(") := by rw [files]
  have scanned : Token.scan "(" = [⟨.leftParen, "(", .start⟩] := rfl
  have rejected : Form.allOfText "(" = .error .incomplete := by
    rw [Form.allOfText, scanned, Form.readAll_eq_of_ne_nil (List.cons_ne_nil _ _)]
    rfl
  refine ⟨store, ready, loads, rejected, (load_rejected loads holds rejected 0).2.1 ?_⟩
  intro before closing rest forms cut isParen
  have mem : closing ∈ Token.scan "(" := cut ▸ List.mem_append_right _ List.mem_cons_self
  rw [scanned, List.mem_singleton] at mem
  rw [mem] at isParen
  cases isParen

/-- A parenthesis that closes nothing, behind a form. The host loads no such file; a program loads
it, and gets the value of the form. -/
theorem load_stray_parenthesis :
    ∃ store, TopLevel.start 2 true (Store.initial fun _ => some (.ok "1)")) = .ok () store ∧
      TopLevel.evaluateFile 2 "a.wisp" store =
        .error (.failure (.unreadable ⟨1, 2⟩ (.unexpected ")"))) store ∧
      run 9 (.evaluate (Prelude.loadCall "a.wisp") TopLevel.root) store =
        .ok (.number (Binary64.ofNat 1)) (store.loading "a.wisp") := by
  obtain ⟨store, ready, loads, plain, files⟩ := exists_start 0 fun _ => some (.ok "1)")
  have holds : store.files "a.wisp" = some (.ok "1)") := by rw [files]
  have scanned : Token.scan "1)" = [⟨.atom, "1", ⟨1, 1⟩⟩, ⟨.rightParen, ")", ⟨1, 2⟩⟩] := rfl
  let one : Value := .number (Binary64.ofNat 1)
  have first (rest : List Token) :
      Form.read (⟨.atom, "1", ⟨1, 1⟩⟩ :: rest) = ⟨.ok one, rest⟩ := rfl
  have rejected : Form.allOfText "1)" = .error (.unreadable ⟨1, 2⟩ (.unexpected ")")) := by
    rw [Form.allOfText, scanned, Form.readAll_eq_of_ne_nil (List.cons_ne_nil _ _), first]
    simp only
    rw [Form.readAll_eq_of_ne_nil (List.cons_ne_nil _ _), Form.read_of_isClosing rfl]
    rfl
  have readsOne : Form.readAll [⟨.atom, "1", ⟨1, 1⟩⟩] = .ok [one] := by
    rw [Form.readAll_eq_of_ne_nil (List.cons_ne_nil _ _), first]
    simp only [Form.readAll_nil]
    rfl
  have reads : Form.ofText (Form.enclosed "1)") = .ok (SpecialForm.sequence.form [one]) :=
    Form.ofText_enclosed_eq_ok_iff.mpr ⟨[one], rfl, .inr ⟨_, _, _, scanned, rfl, readsOne⟩⟩
  refine ⟨store, ready, evaluateFile_of_rejected holds rejected 2, ?_⟩
  have noExpander : expansion? (store.loading "a.wisp") TopLevel.root
      (SpecialForm.sequence.form [one]) = none :=
    expansion?_form (plain.opened loads.size_pos _) .sequence [one]
  rw [run_loadCall loads holds 2, reads]
  have performs : perform (run 4) (.evaluate (SpecialForm.sequence.form [one]) TopLevel.root)
      (store.loading "a.wisp") =
        .ok (.next (.evaluate one TopLevel.root)) (store.loading "a.wisp") := by
    rw [perform_special noExpander]
    rfl
  exact (run_of_next performs).trans (run_constant trivial)

end SmallLisp
