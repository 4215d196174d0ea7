/-!
# Texts cut by bytes

A text is held as the bytes of its characters, of which there are one to four for each. A part of it
is told by two numbers of bytes, from where and up to where. Not all numbers will do: they have to
be in order, and neither may be beyond the end of the text or between two bytes of one character.

## Main definitions

* `Positional.bytes`: the number of bytes of some characters
* `Positional.slice`: the part of a text from one number of bytes up to another

## Main results

* `Positional.slice_append`, `Positional.slice_of_toList`: any part of a text can be cut out,
  wherever it stands
-/

namespace SmallLisp.Positional

/-- The part of a text from one number of bytes up to another. There is none if they are not in
order, if one of them is beyond the end, or if one of them is between the bytes of a character. -/
def slice (text : String) (start stop : Nat) : Option String :=
  if bounds : start ≤ stop ∧ String.Pos.Raw.IsValid text ⟨start⟩ ∧
      String.Pos.Raw.IsValid text ⟨stop⟩ then
    some (String.extract (text.pos ⟨start⟩ bounds.2.1) (text.pos ⟨stop⟩ bounds.2.2))
  else none

theorem isValid_append (before rest : String) :
    String.Pos.Raw.IsValid (before ++ rest) ⟨before.utf8ByteSize⟩ :=
  String.Pos.Raw.isValid_iff_exists_append.mpr ⟨before, rest, rfl, rfl⟩

/-- Any part of a text can be cut out, wherever it stands. -/
theorem slice_append (before middle after : String) :
    slice (before ++ middle ++ after) before.utf8ByteSize
      (before.utf8ByteSize + middle.utf8ByteSize) = some middle := by
  have begins : String.Pos.Raw.IsValid (before ++ middle ++ after) ⟨before.utf8ByteSize⟩ := by
    rw [String.append_assoc]
    exact isValid_append before (middle ++ after)
  have ends : String.Pos.Raw.IsValid (before ++ middle ++ after)
      ⟨before.utf8ByteSize + middle.utf8ByteSize⟩ := by
    rw [← String.utf8ByteSize_append]
    exact isValid_append (before ++ middle) after
  rw [slice, dif_pos ⟨Nat.le_add_right _ _, begins, ends⟩]
  refine congrArg some (String.toByteArray_inj.mp ?_)
  rw [String.toByteArray_extract, String.offset_pos, String.offset_pos, String.append_assoc,
    String.toByteArray_append, ← String.size_toByteArray, ← String.size_toByteArray]
  -- The bytes in front are passed over, and those behind are left.
  calc
    _ = (middle ++ after).toByteArray.extract 0 middle.toByteArray.size :=
      ByteArray.extract_append_size_add (i := 0)
    _ = middle.toByteArray := by
      rw [String.toByteArray_append]
      exact ByteArray.extract_append_eq_left rfl

/-- The number of bytes of some characters. -/
def bytes (text : List Char) : Nat := (String.ofList text).utf8ByteSize

theorem bytes_append (first second : List Char) :
    bytes (first ++ second) = bytes first + bytes second := by
  rw [bytes, String.ofList_append, String.utf8ByteSize_append, bytes, bytes]

theorem bytes_toList (text : String) : bytes text.toList = text.utf8ByteSize := by
  rw [bytes, String.ofList_toList]

theorem slice_of_toList {text : String} {before middle after : List Char}
    (spelled : text.toList = before ++ middle ++ after) :
    slice text (bytes before) (bytes before + bytes middle) = some (String.ofList middle) := by
  have divided : text = String.ofList before ++ String.ofList middle ++ String.ofList after := by
    rw [← String.ofList_append, ← String.ofList_append, ← spelled, String.ofList_toList]
  rw [divided]
  exact slice_append (String.ofList before) (String.ofList middle) (String.ofList after)

/-- Behind the first of two bytes no character begins. -/
example : slice "aé" 0 2 = none ∧ slice "aé" 1 3 = some "é" := by decide

end SmallLisp.Positional
