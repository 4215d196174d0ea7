import SmallLisp.Proofs.Loading.Call
import SmallLisp.Proofs.Reading.Grammar

/-!
# Texts that are evaluated as a whole

A text is evaluated as the items of one `do` form, after all of it has been read. Unless that form
is taken for a call of an expander, this is to evaluate its forms at top level one after the other.
Two texts with a line break between them hold the forms of both: a token does not go on over the
line break unless it is a string literal, and one that does not end keeps a text from being read. So
the texts together are evaluated as the one after the other.

## Main definitions

* `TopLevel.evaluateInTurn`: forms that are evaluated one after the other

## Main results

* `Form.allOfText_append_newline`: two texts with a line break between them hold the forms of both
* `evaluateAll_eq_inTurn`: a text is evaluated form by form
* `evaluateAll_sequential`: a text is evaluated form by form, and texts one after the other
-/

namespace SmallLisp

/-! ### The forms of two texts -/

namespace Form

theorem DerivesEach.append {tokens others : List Token} {forms forms' : List Value}
    (each : DerivesEach tokens forms) (each' : DerivesEach others forms') :
    DerivesEach (tokens ++ others) (forms ++ forms') := by
  obtain ⟨spans, rfl, derive⟩ := derivesEach_iff.mp each
  obtain ⟨spans', rfl, derive'⟩ := derivesEach_iff.mp each'
  exact derivesEach_iff.mpr ⟨spans ++ spans', List.flatten_append, List.rel_append derive derive'⟩

/-- From tokens that are alike the same forms are read. -/
theorem readAll_of_alike {tokens others : List Token} {forms : List Value}
    (alike : List.Forall₂ Alike tokens others) (reads : readAll tokens = .ok forms) :
    readAll others = .ok forms := by
  induction forms generalizing tokens others with
  | nil =>
    cases alike with
    | nil => exact readAll_nil
    | cons _ _ =>
      obtain ⟨_, _, _, _, _, isCons⟩ := (readAll_eq_ok_iff (List.cons_ne_nil _ _)).mp reads
      cases isCons
  | cons form forms ih =>
    cases alike with
    | nil =>
      rw [readAll_nil] at reads
      cases reads
    | cons first following =>
      obtain ⟨_, _, _, readsFirst, readsOthers, isCons⟩ :=
        (readAll_eq_ok_iff (List.cons_ne_nil _ _)).mp reads
      cases isCons
      obtain ⟨rest, readsFirst', alikeRest⟩ :=
        readWithin_of_alike (.cons first following) readsFirst
      exact (readAll_eq_ok_iff (List.cons_ne_nil _ _)).mpr
        ⟨form, rest, forms, readsFirst', ih alikeRest readsOthers, rfl⟩

/-- Two texts with a line break between them hold the forms of both. -/
theorem allOfText_append_newline {first second : String} {forms forms' : List Value}
    (reads : allOfText first = .ok forms) (reads' : allOfText second = .ok forms') :
    allOfText (first ++ "\n" ++ second) = .ok (forms ++ forms') := by
  have closed := not_endsOpen_of_allOfText reads
  -- The tokens of the second text stand in other places.
  have moved (place : Position) :
      readAll (Scan.locate place (Scan.pieces second.toList)) = .ok forms' :=
    readAll_of_alike (alike_locate _ place _) reads'
  rw [allOfText, Token.scan_append_newline closed]
  rw [allOfText] at reads
  rw [readAll_eq_ok_iff_derivesEach] at reads ⊢
  exact reads.append (readAll_eq_ok_iff_derivesEach.mp (moved _))

end Form

/-! ### Forms in turn -/

/-- Evaluates forms at top level, one after the other. The value is that of the last one, or `nil`
when there are none. -/
def TopLevel.evaluateInTurn (fuel : Nat) (forms : List Value) : Eval Value :=
  forms.foldlM (fun _ form => TopLevel.evaluate fuel form) .nil

section Turns

variable {s : Store} {fuel : Nat} {source : String} {forms : List Value}

theorem evaluateAllButLast_last (self : Task → Eval Value) (env : Env) (form : Value)
    (rest : List Value) (value : Value) :
    (do self (.evaluate (← evaluateAllButLast self env form rest) env)) =
      (form :: rest).foldlM (fun _ form => self (.evaluate form env)) value := by
  induction rest generalizing form value with
  | nil => simp [evaluateAllButLast]
  | cons next rest ih =>
    rw [evaluateAllButLast, bind_assoc, List.foldlM_cons]
    congr
    funext value
    exact ih next value

theorem evaluateInTurn_append (fuel : Nat) (forms : List Value) {more : List Value}
    (nonempty : more ≠ []) :
    TopLevel.evaluateInTurn fuel (forms ++ more) = (do
      let _ ← TopLevel.evaluateInTurn fuel forms
      TopLevel.evaluateInTurn fuel more) := by
  obtain ⟨form, rest, rfl⟩ := List.exists_cons_of_ne_nil nonempty
  simp only [TopLevel.evaluateInTurn, List.foldlM_append, List.foldlM_cons]

/-- Nothing is evaluated of a text that cannot be read. -/
theorem evaluateAll_of_unreadable {error : Error} (fails : Form.allOfText source = .error error)
    (fuel : Nat) (s : Store) :
    TopLevel.evaluateAll fuel source s = .error (.failure error) s := by
  rw [TopLevel.evaluateAll, fails]
  rfl

theorem evaluateAll_of_ne_nil (reads : Form.allOfText source = .ok forms) (nonempty : forms ≠ [])
    (fuel : Nat) (s : Store) :
    TopLevel.evaluateAll fuel source s =
      TopLevel.evaluate fuel (Form.call SpecialForm.sequence.keyword forms) s := by
  rw [TopLevel.evaluateAll, reads]
  cases forms with
  | nil => exact absurd rfl nonempty
  | cons form rest => rfl

/-- A text is evaluated form by form. The `do` form of them all takes one more of fuel. -/
theorem evaluateAll_eq_inTurn (ordinary : ¬ s.Expands TopLevel.root "do")
    (reads : Form.allOfText source = .ok forms) (fuel : Nat) :
    TopLevel.evaluateAll (fuel + 1) source s = TopLevel.evaluateInTurn fuel forms s := by
  cases forms with
  | nil =>
    rw [TopLevel.evaluateAll, reads]
    rfl
  | cons form rest =>
    have performs : perform (run fuel) (.evaluate (SpecialForm.sequence.form (form :: rest))
        TopLevel.root) s = performSpecial (run fuel) TopLevel.root .sequence (form :: rest) s :=
      perform_special (expansion?_of_not_expands ordinary _)
    rw [evaluateAll_of_ne_nil reads (List.cons_ne_nil _ _), TopLevel.evaluate, run_succ]
    refine (Eval.bind_congr_left performs).trans ?_
    rw [performSpecial, bind_assoc, TopLevel.evaluateInTurn]
    simp only [pure_bind]
    exact congrFun (evaluateAllButLast_last (run fuel) TopLevel.root form rest .nil) s

/-- A text is read as a whole before anything of it is evaluated, and nothing is when it cannot be
read. Where `do` is no expander, its forms are then evaluated at top level one after the other, up
to the first that fails, and the value is that of the last. So two texts with a line break between
them are evaluated as the one after the other, if there are forms in the second. -/
theorem evaluateAll_sequential (ordinary : ¬ s.Expands TopLevel.root "do") :
    (∀ fuel source error, Form.allOfText source = .error error →
      TopLevel.evaluateAll fuel source s = .error (.failure error) s) ∧
    (∀ fuel source forms, Form.allOfText source = .ok forms →
      TopLevel.evaluateAll (fuel + 1) source s = TopLevel.evaluateInTurn fuel forms s) ∧
    ∀ fuel first second forms forms', Form.allOfText first = .ok forms →
      Form.allOfText second = .ok forms' → forms' ≠ [] →
      (∀ value t, TopLevel.evaluateAll fuel first s = .ok value t →
        ¬ t.Expands TopLevel.root "do") →
      TopLevel.evaluateAll fuel (first ++ "\n" ++ second) s =
        (do
          let _ ← TopLevel.evaluateAll fuel first
          TopLevel.evaluateAll fuel second : Eval Value) s := by
  refine ⟨fun fuel _ _ fails => evaluateAll_of_unreadable fails fuel s,
    fun fuel _ _ reads => evaluateAll_eq_inTurn ordinary reads fuel, ?_⟩
  intro fuel first second forms forms' reads reads' nonempty ordinary'
  have joined := Form.allOfText_append_newline reads reads'
  cases fuel with
  | zero =>
    -- Without fuel nothing is evaluated but a text that holds no form.
    have none {source : String} {forms : List Value} (reads : Form.allOfText source = .ok forms)
        (nonempty : forms ≠ []) (s : Store) :
        TopLevel.evaluateAll 0 source s = .error .exhausted s :=
      evaluateAll_of_ne_nil reads nonempty 0 s
    rw [none joined (List.append_ne_nil_of_right_ne_nil forms nonempty)]
    cases forms with
    | nil =>
      have nothing : TopLevel.evaluateAll 0 first s = .ok .nil s := by
        rw [TopLevel.evaluateAll, reads]
        rfl
      rw [Eval.bind_of_ok nothing, none reads' nonempty]
    | cons form rest => rw [Eval.bind_of_error (none reads (List.cons_ne_nil _ _) s)]
  | succ fuel =>
    -- The forms of the second text are evaluated where those of the first have left the store.
    have ofFirst := evaluateAll_eq_inTurn ordinary reads fuel
    rw [evaluateAll_eq_inTurn ordinary joined, evaluateInTurn_append fuel forms nonempty]
    cases ends : TopLevel.evaluateInTurn fuel forms s with
    | ok value t =>
      rw [ends] at ofFirst
      rw [Eval.bind_of_ok ends, Eval.bind_of_ok ofFirst,
        evaluateAll_eq_inTurn (ordinary' value t ofFirst) reads']
    | error halt t =>
      rw [ends] at ofFirst
      rw [Eval.bind_of_error ends, Eval.bind_of_error ofFirst]

end Turns

/-- A definition, and a text that uses it. -/
theorem evaluateAll_sequential_definition :
    let s := (Store.initial fun _ => none).opened []
    ¬ s.Expands TopLevel.root "do" ∧
      TopLevel.evaluateAll 4 ("(def! a 1)" ++ "\n" ++ "a") s =
        .ok (.number (Binary64.ofNat 1)) (s.defined 0 "a" (.number (Binary64.ofNat 1))) := by
  intro s
  have ordinary : ¬ s.Expands TopLevel.root "do" := by
    rintro ⟨_, _, _, _, ⟨⟩⟩
  have reads : Form.allOfText "(def! a 1)" =
      .ok [Form.call "def!" [.symbol "a", .number (Binary64.ofNat 1)]] :=
    (Form.readAll_eq_ok_iff (List.cons_ne_nil _ _)).mpr ⟨_, _, _, rfl, Form.readAll_nil, rfl⟩
  have reads' : Form.allOfText "a" = .ok [.symbol "a"] :=
    (Form.readAll_eq_ok_iff (List.cons_ne_nil _ _)).mpr ⟨_, _, _, rfl, Form.readAll_nil, rfl⟩
  obtain ⟨_, inTurn, together⟩ := evaluateAll_sequential ordinary
  have defines : TopLevel.evaluateAll 4 "(def! a 1)" s =
      .ok (.number (Binary64.ofNat 1)) (s.defined 0 "a" (.number (Binary64.ofNat 1))) :=
    inTurn 3 _ _ reads
  have ordinary' : ¬ (s.defined 0 "a" (.number (Binary64.ofNat 1))).Expands TopLevel.root "do" := by
    rintro ⟨_, _, _, _, ⟨⟩⟩
  refine ⟨ordinary, ?_⟩
  rw [together 4 _ _ _ _ reads reads' (List.cons_ne_nil _ _) ?_, Eval.bind_of_ok defines]
  · exact (evaluateAll_sequential ordinary').2.1 3 _ _ reads'
  · intro value t ends
    rw [defines] at ends
    cases ends
    exact ordinary'

end SmallLisp
