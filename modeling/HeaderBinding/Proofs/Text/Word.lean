import HeaderBinding.Proofs.Text.Span
import HeaderBinding.Text.Blank
import HeaderBinding.Text.Word

/-!
# Whole words of a text

A text is taken apart into single characters that stand between words and into whole
words. What is said of the runs of a text follows this division.
-/

namespace HeaderBinding
namespace Text

/-!
# Blanks stand between words
-/

def blankCodes : List Nat :=
  [ 0x9, 0xa, 0xb, 0xc, 0xd, 0x20, 0x85, 0xa0, 0x1680, 0x2000, 0x2001, 0x2002, 0x2003,
    0x2004, 0x2005, 0x2006, 0x2007, 0x2008, 0x2009, 0x200a, 0x2028, 0x2029, 0x202f,
    0x205f, 0x3000 ]

theorem toNat_mem_blankCodes {c : Char} (h : isBlank c = true) :
    c.toNat ∈ blankCodes := by
  simp only [isBlank, Bool.or_eq_true, Bool.and_eq_true, decide_eq_true_eq,
    beq_iff_eq] at h
  simp only [blankCodes, List.mem_cons, List.not_mem_nil, or_false]
  omega

theorem isWordChar_of_outside {codes : List Nat} {c : Char}
    (h : (codes.all fun n =>
      wordRanges.all fun range => n.blt range.1 || range.2.blt n) = true)
    (hc : c.toNat ∈ codes) : isWordChar c = false := by
  unfold isWordChar
  apply List.any_eq_false.mpr
  intro range hrange hin
  have hout := List.all_eq_true.mp (List.all_eq_true.mp h _ hc) range hrange
  rw [Bool.or_eq_true, Nat.blt_eq, Nat.blt_eq] at hout
  rw [Bool.and_eq_true, decide_eq_true_eq, decide_eq_true_eq] at hin
  omega

theorem isWordChar_of_isBlank {c : Char} (h : isBlank c = true) :
    isWordChar c = false := by
  have hcodes : (blankCodes.all fun n =>
      wordRanges.all fun range => n.blt range.1 || range.2.blt n) = true := by
    decide +kernel
  exact isWordChar_of_outside hcodes (toNat_mem_blankCodes h)

/-- The marks of pointers and arrays are no parts of words. -/
theorem isWordChar_of_mark {c : Char} (h : c ∈ ['*', '[', ']']) : isWordChar c = false := by
  have hcodes : ((['*', '[', ']'].map Char.toNat).all fun n =>
      wordRanges.all fun range => n.blt range.1 || range.2.blt n) = true := by
    decide +kernel
  exact isWordChar_of_outside hcodes (List.mem_map_of_mem h)

theorem isBlank_of_isWordChar {c : Char} (h : isWordChar c = true) :
    isBlank c = false := by
  cases hc : isBlank c with
  | false =>
      rfl
  | true =>
      rw [isWordChar_of_isBlank hc] at h
      cases h

theorem isBlank_of_isDigit {c : Char} (h : c.isDigit = true) : isBlank c = false := by
  have hdigit : 48 ≤ c.toNat ∧ c.toNat ≤ 57 := Char.isDigit_iff_toNat.mp h
  apply Bool.eq_false_iff.mpr
  intro hblank
  have hcode := toNat_mem_blankCodes hblank
  simp only [blankCodes, List.mem_cons, List.not_mem_nil, or_false] at hcode
  omega

/-!
# Division into words
-/

@[elab_as_elim]
theorem wordInduction {motive : List Char → Prop} (nil : motive [])
    (other : ∀ c s, isWordChar c = false → motive s → motive (c :: s))
    (word : ∀ w s, w ≠ [] → (∀ c ∈ w, isWordChar c = true) →
      (∀ c ∈ s.head?, isWordChar c = false) → motive s → motive (w ++ s))
    (s : List Char) : motive s :=
  spanInduction isWordChar nil other word s

theorem runs_cons (c : Char) (s : List Char) :
    ∃ run more, runs (c :: s) = (c :: run) :: more := by
  unfold runs
  split
  · split
    · exact ⟨_, _, rfl⟩
    · exact ⟨_, _, rfl⟩
  · exact ⟨_, _, rfl⟩

theorem runs_append_of_word {w s : List Char} (hne : w ≠ [])
    (hw : ∀ c ∈ w, isWordChar c = true) (hs : ∀ c ∈ s.head?, isWordChar c = false) :
    runs (w ++ s) = w :: runs s := by
  induction w with
  | nil =>
      exact absurd rfl hne
  | cons c w ih =>
      have hc : isWordChar c = true := hw c List.mem_cons_self
      cases w with
      | nil =>
          cases s with
          | nil =>
              rfl
          | cons d s =>
              have hd : isWordChar d = false := hs d rfl
              rcases runs_cons d s with ⟨run, more, hruns⟩
              rw [List.singleton_append, runs, hruns]
              simp [hc, hd]
      | cons d w =>
          have hd : isWordChar d = true := hw d (by simp)
          have hrest := ih (by simp) fun e he => hw e (List.mem_cons_of_mem c he)
          rw [List.cons_append, List.cons_append] at *
          rw [runs, hrest]
          simp [hc, hd]

/-- A character between words stands alone or in front of others of its kind. -/
theorem runs_cons_of_not_word {c : Char} (s : List Char) (hc : isWordChar c = false) :
    runs (c :: s) = [c] :: runs s ∨
      ∃ d run more, isWordChar d = false ∧ runs s = (d :: run) :: more ∧
        runs (c :: s) = (c :: d :: run) :: more := by
  cases s with
  | nil =>
      left
      rfl
  | cons d s =>
      rcases runs_cons d s with ⟨run, more, hruns⟩
      cases hd : isWordChar d with
      | false =>
          right
          refine ⟨d, run, more, hd, hruns, ?_⟩
          rw [runs, hruns]
          simp [hc, hd]
      | true =>
          left
          rw [runs, hruns]
          simp [hc, hd]

end Text
end HeaderBinding
