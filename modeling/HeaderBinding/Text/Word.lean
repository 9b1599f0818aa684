import HeaderBinding.Text.WordTable

/-!
# Runs of word characters

A text falls into maximal runs of word characters and of other characters. A
word of the text is *whole* when it is one of these runs, so that `const` is
found in `char const*` but not in `constant`.
-/

namespace HeaderBinding
namespace Text

def isWordChar (c : Char) : Bool :=
  let n := c.toNat
  wordRanges.any fun range => range.1 ≤ n && n ≤ range.2

def runs : List Char → List (List Char)
  | [] => []
  | c :: rest =>
      match runs rest with
      | (d :: run) :: more =>
          if isWordChar c = isWordChar d then (c :: d :: run) :: more
          else [c] :: (d :: run) :: more
      | _ => [[c]]

theorem flatten_runs (s : List Char) : (runs s).flatten = s := by
  induction s with
  | nil =>
      rfl
  | cons c rest ih =>
      unfold runs
      split
      next d run more h =>
        rw [h] at ih
        split
        · simpa using ih
        · simpa using ih
      next h =>
        cases hr : runs rest with
        | nil =>
            rw [hr] at ih
            simp at ih
            simp [← ih]
        | cons run more =>
            cases run with
            | nil =>
                cases rest with
                | nil =>
                    simp [runs] at hr
                | cons e rest' =>
                    unfold runs at hr
                    split at hr
                    · split at hr <;> simp at hr
                    · simp at hr
            | cons d run =>
                exact absurd hr (h d run more)

end Text
end HeaderBinding
