import Mathlib.Data.List.Induction
import SmallLisp.Repl

/-!
# The passages of a conversation

The lines that are entered divide into passages. A passage is a blank line where nothing is pending,
or a run of lines that are submitted together: its last line is the first at which reading no longer
finds the text incomplete. The lines behind the last passage are unfinished when the input ends.

Lines divide in one way only. Lines are unfinished when they do not begin with a blank one and
reading finds the text incomplete after each, and a passage is a run of lines that has just ceased
to be unfinished; so of two passages with which the same lines begin, neither goes on behind the
other.

## Main definitions

* `Repl.gathered`: the text of lines
* `Repl.Unfinished`: lines that wait for more
* `Repl.Passage`, `Repl.Division`: passages, and lines divided into passages

## Main results

* `Form.ofText_of_blank`: a blank text is incomplete
* `Repl.exists_division`, `Repl.Division.unique`: lines divide into passages in exactly one way
-/

namespace SmallLisp

/-! ### Blank texts -/

namespace Scan

theorem locate_pieces_of_blank {text : List Char} (blank : ∀ c ∈ text, isBlank c = true)
    (place : Position) : locate place (pieces text) = [] := by
  induction text generalizing place with
  | nil => rfl
  | cons c rest ih =>
    rw [List.forall_mem_cons] at blank
    have separates : begin c = (.start, [.separator c]) := by simp [begin, isSeparator, blank.1]
    rw [pieces, piecesFrom, step, separates]
    exact ih blank.2 _

end Scan

/-- A blank text is incomplete, for it holds nothing that could be read. -/
theorem Form.ofText_of_blank {text : String} (blank : isBlankText text = true) :
    Form.ofText text = .error .incomplete := by
  rw [Form.ofText, Token.scan, Scan.locate_pieces_of_blank (List.all_eq_true.mp blank)]
  rfl

namespace Repl

/-! ### Lines that wait for more -/

/-- The text of lines, each with its line break. -/
def gathered (lines : List String) : String := String.join (lines.map (· ++ "\n"))

theorem gathered_concat (begun : List String) (line : String) :
    gathered (begun ++ [line]) = gathered begun ++ line ++ "\n" := by
  simp [gathered, String.append_assoc]

theorem isEmpty_gathered (lines : List String) : (gathered lines).isEmpty = lines.isEmpty := by
  cases lines with
  | nil => rfl
  | cons line rest => simp [gathered]

/-- Lines that wait for more: they do not begin with a blank one, and reading finds the text
incomplete after each of them. -/
def Unfinished (lines : List String) : Prop :=
  (∀ line ∈ lines.head?, isBlankText line = false) ∧
    ∀ begun, begun ≠ [] → begun <+: lines → Form.ofText (gathered begun) = .error .incomplete

theorem unfinished_nil : Unfinished [] := by
  refine ⟨by simp, fun begun nonempty isPrefix => ?_⟩
  exact absurd (List.prefix_nil.mp isPrefix) nonempty

theorem Unfinished.of_isPrefix {begun lines : List String} (unfinished : Unfinished lines)
    (isPrefix : begun <+: lines) : Unfinished begun := by
  refine ⟨fun line isHead => unfinished.1 line ?_,
    fun before nonempty isPrefix' => unfinished.2 before nonempty (isPrefix'.trans isPrefix)⟩
  obtain ⟨rest, rfl⟩ := isPrefix
  rw [Option.mem_def] at isHead ⊢
  rw [List.head?_append, isHead, Option.some_or]

theorem unfinished_concat_iff {begun : List String} {line : String} :
    Unfinished (begun ++ [line]) ↔
      Unfinished begun ∧ (begun = [] → isBlankText line = false) ∧
        Form.ofText (gathered (begun ++ [line])) = .error .incomplete := by
  constructor
  · intro unfinished
    refine ⟨unfinished.of_isPrefix (List.prefix_append _ _), ?_,
      unfinished.2 _ (List.append_ne_nil_of_right_ne_nil _ (List.cons_ne_nil _ _)) List.prefix_rfl⟩
    rintro rfl
    exact unfinished.1 line rfl
  · rintro ⟨unfinished, notBlank, incomplete⟩
    constructor
    · cases begun with
      | nil =>
        intro other isHead
        obtain rfl := Option.some.inj isHead
        exact notBlank rfl
      | cons first rest => exact unfinished.1
    · intro before nonempty isPrefix
      rcases List.prefix_concat_iff.mp isPrefix with rfl | isPrefix
      · exact incomplete
      · exact unfinished.2 before nonempty isPrefix

/-! ### Passages -/

/-- A part of a conversation that has come to its end. -/
inductive Passage where
  /-- A line that is passed over. -/
  | skipped (line : String)
  /-- Lines that are submitted together. -/
  | submission (lines : List String)

namespace Passage

/-- The lines of a passage. -/
def lines : Passage → List String
  | skipped line => [line]
  | submission lines => lines

/-- A line is passed over when it is blank. Lines are submitted with the first at which reading no
longer finds the text incomplete. -/
inductive Proper : Passage → Prop where
  | skipped {line : String} (blank : isBlankText line = true) : Proper (.skipped line)
  | submission {begun : List String} {last : String} (unfinished : Unfinished begun)
      (notBlank : begun = [] → isBlankText last = false)
      (decided : Form.ofText (gathered (begun ++ [last])) ≠ .error .incomplete) :
      Proper (.submission (begun ++ [last]))

variable {passage other : Passage}

/-- A passage ends with the line with which its lines cease to be unfinished. -/
theorem Proper.ends (proper : passage.Proper) :
    ∃ begun last, passage.lines = begun ++ [last] ∧ Unfinished begun ∧
      ¬ Unfinished (begun ++ [last]) := by
  cases proper with
  | @skipped line blank =>
    refine ⟨[], line, rfl, unfinished_nil, fun unfinished => ?_⟩
    rw [(unfinished_concat_iff.mp unfinished).2.1 rfl] at blank
    cases blank
  | @submission begun last unfinished _ decided =>
    exact ⟨begun, last, rfl, unfinished, fun all => decided (unfinished_concat_iff.mp all).2.2⟩

theorem Proper.not_prefix_of_unfinished (proper : passage.Proper) {lines : List String}
    (unfinished : Unfinished lines) : ¬ passage.lines <+: lines := by
  intro isPrefix
  obtain ⟨begun, last, ends, _, notUnfinished⟩ := proper.ends
  rw [ends] at isPrefix
  exact notUnfinished (unfinished.of_isPrefix isPrefix)

/-- Of two passages with which the same lines begin, neither goes on behind the other. -/
theorem Proper.lines_eq_of_isPrefix (proper : passage.Proper) (proper' : other.Proper)
    (isPrefix : passage.lines <+: other.lines) : passage.lines = other.lines := by
  obtain ⟨begun, last, ends, unfinished, _⟩ := proper'.ends
  rw [ends] at isPrefix ⊢
  exact (List.prefix_concat_iff.mp isPrefix).resolve_right
    (proper.not_prefix_of_unfinished unfinished)

/-- A passage is told by its lines. -/
theorem Proper.eq_of_lines_eq (proper : passage.Proper) (proper' : other.Proper)
    (same : passage.lines = other.lines) : passage = other := by
  have first {line : String} {begun : List String} {last : String} (blank : isBlankText line = true)
      (unfinished : Unfinished begun) (notBlank : begun = [] → isBlankText last = false)
      (same : [line] = begun ++ [last]) : False := by
    cases begun with
    | nil =>
      cases same
      rw [notBlank rfl] at blank
      cases blank
    | cons first rest =>
      cases rest <;> cases same
  cases proper with
  | skipped blank =>
    cases proper' with
    | skipped _ => rw [List.singleton_inj.mp same]
    | submission unfinished notBlank _ => exact (first blank unfinished notBlank same).elim
  | submission unfinished notBlank _ =>
    cases proper' with
    | skipped blank => exact (first blank unfinished notBlank same.symm).elim
    | submission _ _ _ => exact congrArg Passage.submission same

end Passage

/-! ### Lines divided into passages -/

/-- Lines divided into passages and those left unfinished. -/
@[ext]
structure Division (lines : List String) where
  passages : List Passage
  dropped : List String
  whole : passages.flatMap Passage.lines ++ dropped = lines
  proper : ∀ passage ∈ passages, passage.Proper
  unfinished : Unfinished dropped

/-- The texts that are submitted, in order. -/
def Passage.submitted : Passage → List String
  | skipped _ => []
  | submission lines => [gathered lines]

/-- Lines divide into passages: a further line is passed over, is left unfinished with those before
it, or is submitted with them. -/
theorem exists_division (lines : List String) : Nonempty (Division lines) := by
  induction lines using List.reverseRecOn with
  | nil => exact ⟨[], [], rfl, by simp, unfinished_nil⟩
  | append_singleton lines line ih =>
    -- The line comes behind those left unfinished so far.
    obtain ⟨passages, dropped, rfl, proper, unfinished⟩ := ih
    have more {passage : Passage} (isProper : passage.Proper) :
        ∀ other ∈ passages ++ [passage], other.Proper := by
      simpa [or_imp, forall_and] using ⟨proper, isProper⟩
    by_cases blank : dropped = [] ∧ isBlankText line = true
    · obtain ⟨rfl, blank⟩ := blank
      exact ⟨passages ++ [.skipped line], [], by simp [Passage.lines], more (.skipped blank),
        unfinished_nil⟩
    · have notBlank (none : dropped = []) : isBlankText line = false := by simpa [none] using blank
      by_cases incomplete : Form.ofText (gathered (dropped ++ [line])) = .error .incomplete
      · exact ⟨passages, dropped ++ [line], by simp, proper,
          unfinished_concat_iff.mpr ⟨unfinished, notBlank, incomplete⟩⟩
      · exact ⟨passages ++ [.submission (dropped ++ [line])], [], by simp [Passage.lines],
          more (.submission unfinished notBlank incomplete), unfinished_nil⟩

/-- Passages that begin alike are the same, and so is what is left. -/
theorem passages_unique {passages others : List Passage} {dropped left : List String}
    (proper : ∀ passage ∈ passages, passage.Proper) (proper' : ∀ passage ∈ others, passage.Proper)
    (unfinished : Unfinished dropped) (unfinished' : Unfinished left)
    (same : passages.flatMap Passage.lines ++ dropped = others.flatMap Passage.lines ++ left) :
    passages = others ∧ dropped = left := by
  induction passages generalizing others with
  | nil =>
    cases others with
    | nil => exact ⟨rfl, same⟩
    | cons other others =>
      rw [List.forall_mem_cons] at proper'
      refine absurd ⟨others.flatMap Passage.lines ++ left, ?_⟩
        (proper'.1.not_prefix_of_unfinished unfinished)
      rw [← List.append_assoc]
      exact same.symm
  | cons passage passages ih =>
    rw [List.forall_mem_cons] at proper
    rw [List.flatMap_cons, List.append_assoc] at same
    cases others with
    | nil =>
      exact absurd ⟨passages.flatMap Passage.lines ++ dropped, same⟩
        (proper.1.not_prefix_of_unfinished unfinished')
    | cons other others =>
      rw [List.forall_mem_cons] at proper'
      rw [List.flatMap_cons, List.append_assoc] at same
      -- The same lines begin with both passages, so one of these begins with the other.
      have sameLines : passage.lines = other.lines := by
        rcases List.prefix_or_prefix_of_prefix (List.prefix_append _ _)
          (same ▸ List.prefix_append _ _) with isPrefix | isPrefix
        · exact (proper'.1.lines_eq_of_isPrefix proper.1 isPrefix).symm
        · exact proper.1.lines_eq_of_isPrefix proper'.1 isPrefix
      obtain rfl := proper.1.eq_of_lines_eq proper'.1 sameLines
      obtain ⟨rfl, rfl⟩ := ih proper.2 proper'.2 (List.append_cancel_left same)
      exact ⟨rfl, rfl⟩

namespace Division

variable {lines : List String}

/-- Lines divide into passages in one way only. -/
theorem unique (division other : Division lines) : division = other := by
  obtain ⟨samePassages, sameDropped⟩ := passages_unique division.proper other.proper
    division.unfinished other.unfinished (division.whole.trans other.whole.symm)
  exact Division.ext samePassages sameDropped

/-- The texts that are submitted, in order. -/
def submissions (division : Division lines) : List String :=
  division.passages.flatMap Passage.submitted

end Division

end Repl

end SmallLisp
