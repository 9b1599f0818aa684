import HeaderBinding.Proofs.Spelling.Qualifier
import HeaderBinding.Proofs.Text.Tidy

/-!
# Spellings without their qualifiers

Dropping qualifiers leaves the other words whole and makes no new ones. So a spelling
without its qualifiers has none, and dropping them again changes nothing.
-/

namespace HeaderBinding
namespace Spelling

open Text

/-!
# What dropping qualifiers leaves
-/

theorem dropQualifiers_sublist (s : List Char) : (dropQualifiers s).Sublist s := by
  induction s using wordInduction with
  | nil =>
      exact List.nil_sublist []
  | other c s hc ih =>
      rw [dropQualifiers_cons_of_not_word s hc]
      exact ih.cons_cons c
  | word w s hne hw hs ih =>
      rw [dropQualifiers_append_of_word hne hw hs]
      split
      · exact (List.nil_sublist w).append ih
      · exact (List.Sublist.refl w).append ih

theorem dropQualifiers_word {w : List Char} (hne : w ≠ [])
    (hw : ∀ c ∈ w, isWordChar c = true) :
    dropQualifiers w = if isQualifier w then [] else w := by
  have h := dropQualifiers_append_of_word hne hw (s := []) (by simp)
  rw [List.append_nil] at h
  rw [h, show dropQualifiers [] = [] from rfl, List.append_nil]

/-- A text is divided behind a character that is not part of a word. -/
theorem dropQualifiers_append {s : List Char} (t : List Char)
    (h : ∀ c ∈ s.getLast?, isWordChar c = false) :
    dropQualifiers (s ++ t) = dropQualifiers s ++ dropQualifiers t := by
  rcases List.eq_nil_or_concat s with rfl | ⟨front, c, rfl⟩
  · rfl
  · have hc : isWordChar c = false := h c (by simp)
    rw [List.concat_eq_append, List.append_assoc, List.singleton_append,
      dropQualifiers_append_cons front t hc, dropQualifiers_append_cons front [] hc,
      List.append_assoc]
    rfl

theorem head?_dropQualifiers {s : List Char} (h : ∀ c ∈ s.head?, isWordChar c = false) :
    ∀ c ∈ (dropQualifiers s).head?, isWordChar c = false := by
  cases s with
  | nil =>
      exact h
  | cons c s =>
      have hc : isWordChar c = false := h c rfl
      rw [dropQualifiers_cons_of_not_word s hc]
      exact h

theorem dropQualifiers_dropQualifiers (s : List Char) :
    dropQualifiers (dropQualifiers s) = dropQualifiers s := by
  induction s using wordInduction with
  | nil =>
      rfl
  | other c s hc ih =>
      rw [dropQualifiers_cons_of_not_word s hc, dropQualifiers_cons_of_not_word _ hc, ih]
  | word w s hne hw hs ih =>
      rw [dropQualifiers_append_of_word hne hw hs]
      by_cases hq : isQualifier w = true
      · rw [if_pos hq, List.nil_append, ih]
      · rw [if_neg hq, dropQualifiers_append_of_word hne hw (head?_dropQualifiers hs),
          if_neg hq, ih]

theorem mentions_dropQualifiers (q : Qualifier) (s : List Char) :
    mentions q (dropQualifiers s) = false := by
  induction s using wordInduction with
  | nil =>
      rfl
  | other c s hc ih =>
      rw [dropQualifiers_cons_of_not_word s hc, mentions_cons_of_not_word q _ hc, ih]
  | word w s hne hw hs ih =>
      rw [dropQualifiers_append_of_word hne hw hs]
      by_cases hq : isQualifier w = true
      · rw [if_pos hq, List.nil_append, ih]
      · have hword : w ≠ q.word := by
          rintro rfl
          exact hq (isQualifier_word q)
        unfold mentions at ih ⊢
        rw [if_neg hq, runs_append_of_word hne hw (head?_dropQualifiers hs), List.any_cons, ih]
        simp [hword]

/-!
# Word by word
-/

theorem dropQualifiers_joinWords (ws : List (List Char)) :
    dropQualifiers (joinWords ws) = joinWords (ws.map dropQualifiers) := by
  induction ws with
  | nil =>
      rfl
  | cons w ws ih =>
      cases ws with
      | nil =>
          rw [List.map_singleton, joinWords, joinWords, List.intercalate_singleton,
            List.intercalate_singleton]
      | cons v ws =>
          rw [joinWords_cons_cons,
            dropQualifiers_append_cons w _ (isWordChar_of_isBlank (c := ' ') (by decide)), ih]
          exact (joinWords_cons_cons _ _ _).symm

theorem words_dropQualifiers (s : List Char) :
    words (dropQualifiers s) = ((words s).map dropQualifiers).filter (· ≠ []) := by
  induction s using blankInduction with
  | nil =>
      rfl
  | blank c s hc ih =>
      rw [dropQualifiers_cons_of_not_word s (isWordChar_of_isBlank hc),
        words_cons_of_blank _ hc, words_cons_of_blank _ hc, ih]
  | word w s hne hw hs ih =>
      have hdrop : ∀ c ∈ dropQualifiers w, isBlank c = false := by
        intro c hc
        exact hw c ((dropQualifiers_sublist w).mem hc)
      have hsplit : dropQualifiers (w ++ s) = dropQualifiers w ++ dropQualifiers s ∧
          ∀ c ∈ (dropQualifiers s).head?, isBlank c = true := by
        cases s with
        | nil =>
            rw [List.append_nil]
            exact ⟨(List.append_nil _).symm, by simp [dropQualifiers, runs]⟩
        | cons d s =>
            have hd := isWordChar_of_isBlank (hs d rfl)
            rw [dropQualifiers_append_cons w s hd, dropQualifiers_cons_of_not_word s hd]
            exact ⟨rfl, hs⟩
      rw [hsplit.1, words_append_of_not_blank hne hw hs, List.map_cons, List.filter_cons, ← ih]
      by_cases hnil : dropQualifiers w = []
      · simp [hnil]
      · rw [words_append_of_not_blank hnil hdrop hsplit.2]
        simp [hnil]

theorem dropQualifiers_of_mem_unqualifiedWords {s w : List Char}
    (h : w ∈ unqualifiedWords s) : dropQualifiers w = w := by
  unfold unqualifiedWords at h
  rw [words_dropQualifiers] at h
  rcases List.mem_map.mp (List.mem_filter.mp h).1 with ⟨v, _, rfl⟩
  exact dropQualifiers_dropQualifiers v

theorem dropQualifiers_unqualified (s : List Char) :
    dropQualifiers (unqualified s) = unqualified s := by
  have hwords : (unqualifiedWords s).map dropQualifiers = unqualifiedWords s :=
    (List.map_congr_left fun _ => dropQualifiers_of_mem_unqualifiedWords).trans (List.map_id _)
  rw [unqualified, dropQualifiers_joinWords, hwords]

theorem unqualifiedWords_unqualified (s : List Char) :
    unqualifiedWords (unqualified s) = unqualifiedWords s := by
  rw [unqualifiedWords, dropQualifiers_unqualified]
  exact words_joinWords (areWords_words (dropQualifiers s))

theorem mentions_unqualified (q : Qualifier) (s : List Char) :
    mentions q (unqualified s) = false := by
  rw [← dropQualifiers_unqualified, mentions_dropQualifiers]

theorem unqualified_eq_tidy (s : List Char) : unqualified s = tidy (dropQualifiers s) :=
  rfl

theorem unqualifiedWords_trim (s : List Char) :
    unqualifiedWords (trim s) = unqualifiedWords s := by
  rcases exists_trim s with ⟨front, back, hs⟩
  conv =>
    rhs
    rw [hs, unqualifiedWords_append_of_blank_right back.blank,
      unqualifiedWords_append_of_blank_left front.blank]

theorem unqualified_congr {s t : List Char} (h : unqualifiedWords s = unqualifiedWords t) :
    unqualified s = unqualified t :=
  congrArg joinWords h

theorem unqualified_unqualified (s : List Char) : unqualified (unqualified s) = unqualified s :=
  unqualified_congr (unqualifiedWords_unqualified s)

theorem trim_unqualified (s : List Char) : trim (unqualified s) = unqualified s :=
  trim_tidy (dropQualifiers s)

theorem mem_of_mem_unqualified {s : List Char} {c : Char} (h : c ∈ unqualified s) :
    c = ' ' ∨ c ∈ s := by
  rcases mem_of_mem_tidy h with hspace | hc
  · exact Or.inl hspace
  · exact Or.inr ((dropQualifiers_sublist s).mem hc)

/-!
# Around a mark that is neither part of a word nor a blank
-/

theorem exists_unqualified_append_cons (s t : List Char) {c : Char}
    (hword : isWordChar c = false) (hblank : isBlank c = false) :
    ∃ gap gap' : Blanks, unqualified (s ++ c :: t) =
      unqualified s ++ (gap.text ++ c :: (gap'.text ++ unqualified t)) := by
  rw [unqualified_eq_tidy, dropQualifiers_append_cons s t hword]
  exact exists_tidy_append_cons (dropQualifiers s) (dropQualifiers t) hblank

theorem exists_unqualified_append_singleton (s : List Char) {c : Char}
    (hword : isWordChar c = false) (hblank : isBlank c = false) :
    ∃ gap : Blanks, unqualified (s ++ [c]) = unqualified s ++ (gap.text ++ [c]) := by
  rw [unqualified_eq_tidy, dropQualifiers_append_cons s [] hword]
  exact exists_tidy_append_singleton (dropQualifiers s) hblank

end Spelling
end HeaderBinding
