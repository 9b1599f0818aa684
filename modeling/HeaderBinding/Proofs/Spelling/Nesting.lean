import HeaderBinding.Proofs.Spelling.Group

/-!
# Nested declarators

A function that returns a pointer to a function is spelled with its own parameter list
inside the declarator of that pointer, and so on inwards. However deep the list is, it is
found, and the return type is spelled by all that stands around it.
-/

namespace HeaderBinding
namespace Spelling

open Text

/-- What stands around the declarator of a returned pointer: the pointer before it, and the
parameters of the function that it points to behind it. -/
structure ReturnedPointer where
  pointer : List Char
  star : pointer.head? = some '*'
  unparenthesised : Unparenthesised pointer
  parameters : Group

/-- An own parameter list inside declarators, the outermost one first. -/
def wrapped (own : Group) : List ReturnedPointer → List Char
  | [] => own.text
  | p :: ps => '(' :: (p.pointer ++ wrapped own ps) ++ ')' :: p.parameters.text

/-- What stands before the own parameter list. -/
def opening : List ReturnedPointer → List Char
  | [] => []
  | p :: ps => '(' :: p.pointer ++ opening ps

/-- What stands behind the own parameter list. -/
def closing : List ReturnedPointer → List Char
  | [] => []
  | p :: ps => closing ps ++ ')' :: p.parameters.text

theorem wrapped_eq (own : Group) (ps : List ReturnedPointer) :
    wrapped own ps = opening ps ++ own.text ++ closing ps := by
  induction ps with
  | nil =>
      simp [wrapped, opening, closing]
  | cons p ps ih =>
      simp [wrapped, opening, closing, ih, List.append_assoc]

theorem balanced_wrapped (own : Group) (ps : List ReturnedPointer) :
    Balanced (wrapped own ps) := by
  induction ps with
  | nil =>
      exact own.balanced_text
  | cons p ps ih =>
      have hinside : Balanced (p.pointer ++ wrapped own ps) :=
        Balanced.append p.unparenthesised.balanced ih
      have h := Balanced.append (Balanced.nested hinside) p.parameters.balanced_text
      simpa [wrapped, List.append_assoc] using h

/-- The declarator of a returned pointer, around what is inside it. -/
def ReturnedPointer.declarator (p : ReturnedPointer) (own : Group)
    (ps : List ReturnedPointer) : Group where
  content := p.pointer ++ wrapped own ps
  balanced := Balanced.append p.unparenthesised.balanced (balanced_wrapped own ps)

theorem append_wrapped_cons (front : List Char) (own : Group) (p : ReturnedPointer)
    (ps : List ReturnedPointer) :
    front ++ wrapped own (p :: ps) =
      front ++ (p.declarator own ps).text ++ p.parameters.text := by
  simp [wrapped, ReturnedPointer.declarator, Group.text, List.append_assoc]

theorem getLast?_ne_of_unparenthesised {s : List Char} (h : Unparenthesised s) :
    (trimEnd s).getLast? ≠ some ')' := by
  intro hlast
  exact h.2 (mem_of_mem_trimEnd (List.mem_of_getLast? hlast))

/-- The own parameter list is found at any depth, and the return type is spelled by what
stands around it, without the blanks before it. -/
theorem splitFunction?_append_wrapped (front : List Char) (own : Group) (ps : List ReturnedPointer)
    (hfront : (trimEnd front).getLast? ≠ some ')') :
    splitFunction? (front ++ wrapped own ps) =
      some (trimEnd (front ++ opening ps) ++ closing ps, own.text) := by
  -- From the outside in: what stands before the list in a declarator is its pointer.
  induction ps generalizing front with
  | nil =>
      have hparams : lastGroup? (trimEnd (front ++ own.text)) = some (front, own.text) := by
        rw [Group.trimEnd_append_text, lastGroup?_append_text]
      have hsplit := splitFunction?_of_plain hparams (lastGroup?_eq_none hfront)
      simpa [wrapped, opening, closing] using hsplit
  | cons p ps ih =>
      have hparams : lastGroup? (trimEnd (front ++ wrapped own (p :: ps))) =
          some (front ++ (p.declarator own ps).text, p.parameters.text) := by
        rw [append_wrapped_cons, Group.trimEnd_append_text, lastGroup?_append_text]
      have hgroup : lastGroup? (trimEnd (front ++ (p.declarator own ps).text)) =
          some (front, (p.declarator own ps).text) := by
        rw [Group.trimEnd_append_text, lastGroup?_append_text]
      have hinside : splitFunction? (inside (p.declarator own ps).text) =
          some (trimEnd (p.pointer ++ opening ps) ++ closing ps, own.text) := by
        rw [Group.inside_text]
        exact ih p.pointer (getLast?_ne_of_unparenthesised p.unparenthesised)
      have hopen : isBlank '(' = false := by
        decide
      have hreturned : trimEnd (front ++ opening (p :: ps)) =
          front ++ '(' :: trimEnd (p.pointer ++ opening ps) :=
        trimEnd_append_cons front _ hopen
      rw [splitFunction?_of_declarator hparams hgroup hinside, hreturned]
      simp [closing, List.append_assoc]

end Spelling
end HeaderBinding
