import HeaderBinding.Spelling.Qualifier

/-!
# Derived types in a spelling

The last suffix of a trimmed spelling tells how the type is built: `[…]` for an
array, a star for a pointer. What stands before the suffix spells the element or
the pointee.
-/

namespace HeaderBinding
namespace Spelling

open Text

def isBracket (c : Char) : Bool :=
  c == '[' || c == ']'

/-- The element type of an array spelling. An element spelled over several lines
is not taken for one. -/
def arrayElement? (s : List Char) : Option (List Char) :=
  match s.reverse with
  | ']' :: rest =>
      match rest.dropWhile fun c => !isBracket c with
      | '[' :: front =>
          let element := (front.dropWhile isBlank).reverse
          if element.contains '\n' then none else some element
      | _ => none
  | _ => none

/-- What a pointer spelling points to. Qualifiers after the star belong to the
pointer itself. -/
def pointee? (s : List Char) : Option (List Char) :=
  match dropLastQualifiers s.reverse with
  | '*' :: front => some front.reverse
  | _ => none

theorem length_arrayElement?_lt {s element : List Char}
    (h : arrayElement? s = some element) : element.length < s.length := by
  unfold arrayElement? at h
  split at h
  next rest hs =>
    split at h
    next front hf =>
      have h₁ := length_dropWhile_le (fun c => !isBracket c) rest
      have h₂ := length_dropWhile_le isBlank front
      have hlen : s.length = rest.length + 1 := by
        rw [← List.length_reverse, hs, List.length_cons]
      rw [hf, List.length_cons] at h₁
      simp only [Option.ite_none_left_eq_some, Option.some.injEq] at h
      rw [← h.2, List.length_reverse]
      omega
    next =>
      cases h
  next =>
    cases h

theorem length_pointee?_lt {s pointee : List Char}
    (h : pointee? s = some pointee) : pointee.length < s.length := by
  unfold pointee? at h
  split at h
  next front hf =>
    have h₁ := length_dropLastQualifiers_le s.reverse
    rw [hf, List.length_cons, List.length_reverse] at h₁
    cases h
    rw [List.length_reverse]
    omega
  next =>
    cases h

end Spelling
end HeaderBinding
