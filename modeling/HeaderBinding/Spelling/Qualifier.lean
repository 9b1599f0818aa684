import HeaderBinding.Text.Blank
import HeaderBinding.Text.Word

/-!
# Type qualifiers in a spelling

A qualifier is a whole word of the spelling. Qualifiers are recognised in their
own case only: C has no `CONST`.
-/

namespace HeaderBinding

inductive Qualifier where
  | const
  | volatile
  | restrict
  | restrictExtension
  deriving DecidableEq, Repr

namespace Qualifier

def word : Qualifier → List Char
  | const => ['c', 'o', 'n', 's', 't']
  | volatile => ['v', 'o', 'l', 'a', 't', 'i', 'l', 'e']
  | restrict => ['r', 'e', 's', 't', 'r', 'i', 'c', 't']
  | restrictExtension => ['_', '_', 'r', 'e', 's', 't', 'r', 'i', 'c', 't']

def all : List Qualifier :=
  [const, volatile, restrict, restrictExtension]

def ofWord? (w : List Char) : Option Qualifier :=
  all.find? fun q => q.word = w

theorem ofWord?_word (q : Qualifier) : ofWord? q.word = some q := by
  cases q <;> decide

theorem word_of_ofWord? {w : List Char} {q : Qualifier} (h : ofWord? w = some q) :
    q.word = w := by
  simpa using List.find?_some h

end Qualifier

namespace Spelling

open Text

/-!
# Removing qualifiers

Everywhere for the base of a type, only at the end for what follows a star.
-/

def isQualifier (run : List Char) : Bool :=
  (Qualifier.ofWord? run).isSome

def mentions (q : Qualifier) (s : List Char) : Bool :=
  (runs s).any fun run => run = q.word

def dropQualifiers (s : List Char) : List Char :=
  ((runs s).filter fun run => !isQualifier run).flatten

/-- The words of a spelling without its qualifiers. -/
def unqualifiedWords (s : List Char) : List (List Char) :=
  words (dropQualifiers s)

def unqualified (s : List Char) : List Char :=
  joinWords (unqualifiedWords s)

/-- Drops whole qualifiers from the front of a reversed spelling, each with the
blanks behind it. -/
def dropLastQualifiers (reversed : List Char) : List Char :=
  let run := reversed.takeWhile isWordChar
  if isQualifier run.reverse then
    dropLastQualifiers ((reversed.dropWhile isWordChar).dropWhile isBlank)
  else reversed
termination_by reversed.length
decreasing_by
  rename_i h
  cases reversed with
  | nil =>
      exact absurd h (by decide)
  | cons c rest =>
      by_cases hc : isWordChar c
      · have h₁ := length_dropWhile_le isWordChar rest
        have h₂ := length_dropWhile_le isBlank (rest.dropWhile isWordChar)
        simp only [List.dropWhile_cons, hc, if_true, List.length_cons]
        omega
      · have hrun : (c :: rest).takeWhile isWordChar = [] := by
          simp [hc]
        exact absurd h (by rw [show run = [] from hrun]; decide)

theorem length_dropLastQualifiers_le (r : List Char) :
    (dropLastQualifiers r).length ≤ r.length := by
  fun_induction dropLastQualifiers r with
  | case1 r run h ih =>
      have h₁ := length_dropWhile_le isWordChar r
      have h₂ := length_dropWhile_le isBlank (r.dropWhile isWordChar)
      omega
  | case2 =>
      exact Nat.le_refl _

end Spelling
end HeaderBinding
