/-!
# Slices of a text

A text is stored as UTF-8, and its parts are cut out by byte positions. A position has to
be a boundary: an end of the text, or between two of its characters.
-/

namespace HeaderBinding
namespace Text

open String

def byteLength (s : List Char) : Nat :=
  (ofList s).utf8ByteSize

/-- Why no slice of a text lies between two byte positions. -/
inductive SliceFault where
  | outOfRange
  | reversed
  | insideCharacter
  deriving DecidableEq, Repr

def IsBoundary (s : List Char) (i : Nat) : Prop :=
  Pos.Raw.IsValid (ofList s) ⟨i⟩

instance (s : List Char) (i : Nat) : Decidable (IsBoundary s i) :=
  inferInstanceAs (Decidable (Pos.Raw.IsValid (ofList s) ⟨i⟩))

/-- The part of a text between two byte positions, if they are boundaries in their order. -/
def slice (s : List Char) (start stop : Nat) : Except SliceFault (List Char) :=
  if byteLength s < start ∨ byteLength s < stop then .error .outOfRange
  else if stop < start then .error .reversed
  else if IsBoundary s start ∧ IsBoundary s stop then
    .ok (Pos.Raw.extract (ofList s) ⟨start⟩ ⟨stop⟩).toList
  else .error .insideCharacter

theorem slice_eq_ok {s t : List Char} {start stop : Nat} (h : slice s start stop = .ok t) :
    t = (Pos.Raw.extract (ofList s) ⟨start⟩ ⟨stop⟩).toList := by
  unfold slice at h
  split at h
  · cases h
  · split at h
    · cases h
    · split at h
      · cases h
        rfl
      · cases h

/-!
# Lengths
-/

theorem length_extract_go₂_le (s : List Char) (i stop : Pos.Raw) :
    (Pos.Raw.extract.go₂ s i stop).length ≤ s.length := by
  induction s generalizing i with
  | nil =>
      exact Nat.le_refl 0
  | cons c s ih =>
      change (if i = stop then [] else c :: Pos.Raw.extract.go₂ s (i + c) stop).length ≤ _
      split
      · exact Nat.zero_le _
      · exact Nat.succ_le_succ (ih (i + c))

theorem length_extract_go₁_le (s : List Char) (i start stop : Pos.Raw) :
    (Pos.Raw.extract.go₁ s i start stop).length ≤ s.length := by
  induction s generalizing i with
  | nil =>
      exact Nat.le_refl 0
  | cons c s ih =>
      change (if i = start then Pos.Raw.extract.go₂ (c :: s) i stop
        else Pos.Raw.extract.go₁ s (i + c) start stop).length ≤ _
      split
      · exact length_extract_go₂_le (c :: s) i stop
      · exact Nat.le_succ_of_le (ih (i + c))

theorem toList_extract (s : List Char) (start stop : Nat) :
    (Pos.Raw.extract (ofList s) ⟨start⟩ ⟨stop⟩).toList =
      if start ≥ stop then [] else Pos.Raw.extract.go₁ s 0 ⟨start⟩ ⟨stop⟩ := by
  change (if start ≥ stop then ""
    else ofList (Pos.Raw.extract.go₁ (ofList s).toList 0 ⟨start⟩ ⟨stop⟩)).toList = _
  split
  · rfl
  · rw [toList_ofList, toList_ofList]

theorem length_slice_le {s t : List Char} {start stop : Nat} (h : slice s start stop = .ok t) :
    t.length ≤ s.length := by
  rw [slice_eq_ok h, toList_extract]
  split
  · exact Nat.zero_le _
  · exact length_extract_go₁_le s 0 ⟨start⟩ ⟨stop⟩

/-- A slice that leaves out the first byte leaves out the first character. -/
theorem length_slice_lt {s t : List Char} {start stop : Nat}
    (h : slice s (start + 1) stop = .ok t) (hs : s ≠ []) : t.length < s.length := by
  rw [slice_eq_ok h, toList_extract]
  split
  · exact List.length_pos_iff.mpr hs
  · cases s with
    | nil =>
        exact absurd rfl hs
    | cons c s =>
        have hstart : (0 : Pos.Raw) ≠ ⟨start + 1⟩ := by
          intro heq
          cases heq
        change (if (0 : Pos.Raw) = ⟨start + 1⟩ then Pos.Raw.extract.go₂ (c :: s) 0 ⟨stop⟩
          else Pos.Raw.extract.go₁ s ((0 : Pos.Raw) + c) ⟨start + 1⟩ ⟨stop⟩).length < _
        rw [if_neg hstart]
        exact Nat.lt_succ_of_le (length_extract_go₁_le s _ _ _)

end Text
end HeaderBinding
