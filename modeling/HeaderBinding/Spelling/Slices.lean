import HeaderBinding.Outcome
import HeaderBinding.Text.Blank
import HeaderBinding.Text.Slice

/-!
# Function types by byte positions

The groups of a function type are found by counting parentheses from the right, and are cut
out of its spelling by the byte positions that the count ends at.
-/

namespace HeaderBinding
namespace Spelling

open Text

/-!
# Matching parentheses
-/

/-- The characters of a text with the byte positions at which they start. -/
def charPositions : Nat → List Char → List (Nat × Char)
  | _, [] => []
  | i, c :: s => (i, c) :: charPositions (i + c.utf8Size) s

/-- Goes back through a text until no parenthesis is open any more. The count has no bound. -/
def openingFrom : Int → List (Nat × Char) → Option Nat
  | _, [] => none
  | depth, (i, c) :: before =>
      if c = ')' then openingFrom (depth + 1) before
      else if c = '(' then
        if depth - 1 = 0 then some i else openingFrom (depth - 1) before
      else openingFrom depth before

/-- The position of the parenthesis that matches the one at the end of a text. -/
def matchingOpen? (s : List Char) : Option Nat :=
  if s.getLast? = some ')' then openingFrom 0 (charPositions 0 s).reverse else none

theorem ne_nil_of_matchingOpen? {s : List Char} {start : Nat}
    (h : matchingOpen? s = some start) : s ≠ [] := by
  intro hs
  rw [hs] at h
  cases h

/-!
# Cuts
-/

/-- What is inside of the group at the end of a text, with the position of the group. -/
def declarator? (s : List Char) : Except SliceFault (Option (Nat × List Char)) :=
  match matchingOpen? s with
  | none => .ok none
  | some start => do
      let declarator ← slice s (start + 1) (byteLength s - 1)
      return some (start, declarator)

/-- A text cut in front of the group at its end. What is inside of another group before that
one may be a declarator. -/
structure Cut where
  head : List Char
  params : List Char
  declarator : Option (Nat × List Char)

def cut? (s : List Char) : Except SliceFault (Option Cut) :=
  match matchingOpen? s with
  | none => .ok none
  | some start => do
      let head ← slice s 0 start
      let params ← slice s start (byteLength s)
      let declarator ← declarator? (trimEnd head)
      return some ⟨head, params, declarator⟩

theorem length_declarator?_lt {s t : List Char} {start : Nat}
    (h : declarator? s = .ok (some (start, t))) : t.length < s.length := by
  unfold declarator? at h
  split at h
  · cases h
  next i hmatching =>
    obtain ⟨inner, hslice, hresult⟩ := bind_eq_ok h
    cases hresult
    exact length_slice_lt hslice (ne_nil_of_matchingOpen? hmatching)

theorem length_cut?_lt {s head params t : List Char} {start : Nat}
    (h : cut? s = .ok (some ⟨head, params, some (start, t)⟩)) : t.length < s.length := by
  unfold cut? at h
  split at h
  · cases h
  next i hmatching =>
    obtain ⟨head', hhead, h⟩ := bind_eq_ok h
    obtain ⟨params', hparams, h⟩ := bind_eq_ok h
    obtain ⟨declarator, hdeclarator, h⟩ := bind_eq_ok h
    cases h
    calc t.length
        < (trimEnd head).length := length_declarator?_lt hdeclarator
      _ ≤ head.length := length_trimEnd_le head
      _ ≤ s.length := length_slice_le hhead

/-!
# Splitting
-/

/-- `Inner t s`: splitting `s` goes on with splitting `t`. -/
def Inner (t s : List Char) : Prop :=
  ∃ head params start, cut? (trimEnd s) = .ok (some ⟨head, params, some (start, t)⟩)

theorem length_lt_of_inner {s t : List Char} (h : Inner t s) : t.length < s.length := by
  obtain ⟨head, params, start, hcut⟩ := h
  exact Nat.lt_of_lt_of_le (length_cut?_lt hcut) (length_trimEnd_le s)

/-- The parts of a function type, taken as slices of its spelling. -/
def splitSlices? (s : List Char) : Except SliceFault (Option (List Char × List Char)) :=
  match _h : cut? (trimEnd s) with
  | .error fault => .error fault
  | .ok none => .ok none
  | .ok (some ⟨head, params, none⟩) => .ok (some (trimEnd head, params))
  | .ok (some ⟨head, params, some (start, declarator)⟩) =>
      match splitSlices? declarator with
      | .error fault => .error fault
      | .ok none => .ok (some (trimEnd head, params))
      | .ok (some (returned, own)) => do
          let front ← slice head 0 start
          return some (front ++ '(' :: returned ++ ')' :: params, own)
termination_by s.length
decreasing_by exact length_lt_of_inner ⟨head, params, start, _h⟩

end Spelling
end HeaderBinding
