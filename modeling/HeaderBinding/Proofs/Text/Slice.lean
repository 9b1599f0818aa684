import Mathlib.Data.String.Basic
import HeaderBinding.Text.Slice

/-!
# Slices between parts of a text

A text that is put together of parts has a boundary between any two of them, and each part
is the slice between its ends.
-/

namespace HeaderBinding
namespace Text

open String

/-!
# Bytes
-/

theorem byteLength_eq_utf8Len (s : List Char) : byteLength s = utf8Len s :=
  utf8ByteSize_ofList s

@[simp]
theorem byteLength_nil : byteLength [] = 0 :=
  rfl

@[simp]
theorem byteLength_append (s t : List Char) :
    byteLength (s ++ t) = byteLength s + byteLength t := by
  simp only [byteLength_eq_utf8Len, utf8Len_append]

@[simp]
theorem byteLength_cons (c : Char) (s : List Char) :
    byteLength (c :: s) = c.utf8Size + byteLength s := by
  rw [byteLength_eq_utf8Len, byteLength_eq_utf8Len, utf8Len_cons, Nat.add_comm]

/-!
# Parts
-/

theorem isBoundary_append (front back : List Char) :
    IsBoundary (front ++ back) (byteLength front) := by
  apply Pos.Raw.isValid_iff_exists_append.mpr
  exact ⟨ofList front, ofList back, ofList_append, rfl⟩

/-- A slice between the ends of a part of the text is that part. -/
theorem slice_append (front middle back : List Char) :
    slice (front ++ middle ++ back) (byteLength front) (byteLength (front ++ middle)) =
      .ok middle := by
  have hrange : ¬(byteLength (front ++ middle ++ back) < byteLength front ∨
      byteLength (front ++ middle ++ back) < byteLength (front ++ middle)) := by
    simp only [byteLength_append]
    omega
  have horder : ¬byteLength (front ++ middle) < byteLength front := by
    simp only [byteLength_append]
    omega
  have hstart : IsBoundary (front ++ middle ++ back) (byteLength front) := by
    rw [List.append_assoc]
    exact isBoundary_append front (middle ++ back)
  have hstop := isBoundary_append (front ++ middle) back
  unfold slice
  rw [if_neg hrange, if_neg horder, if_pos ⟨hstart, hstop⟩]
  rw [byteLength_append, byteLength_eq_utf8Len, byteLength_eq_utf8Len, extract_of_valid,
    toList_ofList]

/-- The second character takes two bytes. -/
example : slice "aé(".toList 1 3 = .ok ['é'] ∧
    slice "aé(".toList 1 2 = .error .insideCharacter := by
  decide

theorem slice_front (front back : List Char) :
    slice (front ++ back) 0 (byteLength front) = .ok front :=
  slice_append [] front back

theorem slice_back (front back : List Char) :
    slice (front ++ back) (byteLength front) (byteLength (front ++ back)) = .ok back := by
  have h := slice_append front back []
  rwa [List.append_nil] at h

end Text
end HeaderBinding
