import HeaderBinding.Proofs.Text.Blank
import HeaderBinding.Proofs.Text.Span

/-!
# Omitted blanks

A text may lose some of its runs of blanks, each of them as a whole, and nothing else.
-/

namespace HeaderBinding
namespace Text

/-- `OmitsRuns s t`: `t` is `s` without some of its runs of blanks. A run goes on for as long as
there are blanks, on both of its sides. -/
inductive OmitsRuns : List Char → List Char → Prop where
  | nil : OmitsRuns [] []
  | char {c : Char} {s t : List Char} (hc : isBlank c = false) (h : OmitsRuns s t) :
      OmitsRuns (c :: s) (c :: t)
  | kept {s t : List Char} (run : Blanks) (hs : ∀ c ∈ s.head?, isBlank c = false)
      (h : OmitsRuns s t) : OmitsRuns (run.text ++ s) (run.text ++ t)
  | lost {s t : List Char} (run : Blanks) (hs : ∀ c ∈ s.head?, isBlank c = false)
      (h : OmitsRuns s t) : OmitsRuns (run.text ++ s) t

namespace OmitsRuns

theorem refl (s : List Char) : OmitsRuns s s := by
  induction s using spanInduction isBlank with
  | nil =>
      exact OmitsRuns.nil
  | other c s hc ih =>
      exact ih.char hc
  | span w s _ hw hs ih =>
      exact ih.kept ⟨w, hw⟩ hs

/-- Runs are omitted on either side of a character that is no blank. -/
theorem append_cons {s s' t t' : List Char} {c : Char} (h : OmitsRuns s s')
    (hc : isBlank c = false) (ht : OmitsRuns t t') :
    OmitsRuns (s ++ c :: t) (s' ++ c :: t') := by
  have hhead : ∀ {r : List Char}, (∀ d ∈ r.head?, isBlank d = false) →
      ∀ d ∈ (r ++ c :: t).head?, isBlank d = false := by
    intro r hr d hd
    cases r with
    | nil =>
        cases hd
        exact hc
    | cons e r =>
        exact hr d hd
  induction h with
  | nil =>
      exact ht.char hc
  | char hd _ ih =>
      exact ih.char hd
  | kept run hs _ ih =>
      rw [List.append_assoc, List.append_assoc]
      exact ih.kept run (hhead hs)
  | lost run hs _ ih =>
      rw [List.append_assoc]
      exact ih.lost run (hhead hs)

end OmitsRuns

theorem omitsRuns_blanks (run : Blanks) : OmitsRuns run.text [] := by
  have h := OmitsRuns.nil.lost run (by simp)
  rwa [List.append_nil] at h

theorem omitsRuns_trimEnd (s : List Char) : OmitsRuns s (trimEnd s) := by
  rcases exists_trimEnd s with ⟨back, hs⟩
  rcases List.eq_nil_or_concat (trimEnd s) with hnil | ⟨front, c, hconcat⟩
  · rw [hnil, List.nil_append] at hs
    rw [hnil, hs]
    exact omitsRuns_blanks back
  · rw [List.concat_eq_append] at hconcat
    have hc : isBlank c = false := getLast?_trimEnd s c (by simp [hconcat])
    have h := (OmitsRuns.refl front).append_cons hc (omitsRuns_blanks back)
    rw [hconcat, List.append_assoc] at hs
    rw [hconcat, hs]
    exact h

end Text
end HeaderBinding
