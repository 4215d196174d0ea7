import SmallLisp.Form
import SmallLisp.Proofs.Number.Bits

/-!
# Reading a given text

What a given text is read as can be computed, and compared with the form that it should be. The
comparison is made for this alone: it looks at the bits of numbers, and tells apart whatever is not
written alike. Maps it does not look into.

## Main definitions

* `Value.sameForm`: whether two forms are the same

## Main results

* `Form.ofText_eq_of_sameForm`: a text is read as the form that the computation compares it with
-/

namespace SmallLisp

namespace Value

mutual

/-- Whether two forms are the same, as far as forms are read from texts without maps. -/
def sameForm : Value → Value → Bool
  | .nil, .nil => true
  | .number x, .number y => x.toBits == y.toBits
  | .string text, .string other => text == other
  | .symbol name, .symbol other => name == other
  | .seq kind items, .seq kind' others => kind == kind' && sameForms items others
  | _, _ => false

/-- Whether two rows of forms are the same. -/
def sameForms : List Value → List Value → Bool
  | [], [] => true
  | item :: rest, other :: others => sameForm item other && sameForms rest others
  | _, _ => false

end

mutual

theorem eq_of_sameForm {form other : Value} (same : sameForm form other = true) : form = other := by
  cases form <;> cases other <;> simp only [sameForm, Bool.false_eq_true, Bool.and_eq_true,
    beq_iff_eq] at same
  · rfl
  · rw [Float.toBits_inj.mp same]
  · rw [same]
  · rw [same]
  · rw [same.1, eq_of_sameForms same.2]

theorem eq_of_sameForms {forms others : List Value} (same : sameForms forms others = true) :
    forms = others := by
  cases forms with
  | nil =>
    cases others with
    | nil => rfl
    | cons other others => cases same
  | cons form rest =>
    cases others with
    | nil => cases same
    | cons other others =>
      rw [sameForms, Bool.and_eq_true] at same
      rw [eq_of_sameForm same.1, eq_of_sameForms same.2]

end

end Value

/-- A text that is read as a form the same as another one. -/
theorem Form.ofText_eq_of_sameForm {source : String} {form : Value}
    (same : (Form.ofText source).toOption.any (Value.sameForm · form) = true) :
    Form.ofText source = .ok form := by
  cases reads : Form.ofText source with
  | error error =>
    rw [reads] at same
    cases same
  | ok found =>
    rw [reads] at same
    rw [Value.eq_of_sameForm same]

end SmallLisp
