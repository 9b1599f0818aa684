import HeaderBinding.Proofs.Text.Blank
import HeaderBinding.Proofs.Text.Word
import HeaderBinding.Spelling.Qualifier

/-!
# Qualifiers around other text

A character that is not part of a word separates the qualifiers before it from those
behind it, so blanks at the ends of a spelling do not change its qualifiers.
-/

namespace HeaderBinding

namespace Qualifier

theorem isWordChar_of_mem_word {q : Qualifier} {c : Char} (h : c ∈ q.word) :
    Text.isWordChar c = true := by
  have hall : q.word.all Text.isWordChar = true := by
    cases q <;> decide +kernel
  exact List.all_eq_true.mp hall c h

theorem word_ne_nil (q : Qualifier) : q.word ≠ [] := by
  cases q <;> simp [word]

end Qualifier

namespace Spelling

open Text

theorem isQualifier_word (q : Qualifier) : isQualifier q.word = true := by
  simp [isQualifier, Qualifier.ofWord?_word]

theorem isQualifier_cons_of_not_word {c : Char} (run : List Char)
    (h : isWordChar c = false) : isQualifier (c :: run) = false := by
  cases hq : Qualifier.ofWord? (c :: run) with
  | none =>
      simp [isQualifier, hq]
  | some q =>
      have hw := Qualifier.word_of_ofWord? hq
      have hc : c ∈ q.word := by simp [hw]
      rw [Qualifier.isWordChar_of_mem_word hc] at h
      cases h

/-!
# Where a character stands between words
-/

theorem dropQualifiers_cons_of_not_word {c : Char} (s : List Char)
    (h : isWordChar c = false) : dropQualifiers (c :: s) = c :: dropQualifiers s := by
  unfold dropQualifiers
  rcases runs_cons_of_not_word s h with hruns | ⟨d, run, more, hd, hs, hruns⟩
  · rw [hruns]
    simp [isQualifier_cons_of_not_word [] h]
  · rw [hruns, hs]
    simp [isQualifier_cons_of_not_word _ h, isQualifier_cons_of_not_word _ hd]

theorem dropQualifiers_append_of_word {w s : List Char} (hne : w ≠ [])
    (hw : ∀ c ∈ w, isWordChar c = true) (hs : ∀ c ∈ s.head?, isWordChar c = false) :
    dropQualifiers (w ++ s) = (if isQualifier w then [] else w) ++ dropQualifiers s := by
  unfold dropQualifiers
  rw [runs_append_of_word hne hw hs]
  by_cases hq : isQualifier w = true
  · simp [hq]
  · simp [hq]

theorem dropQualifiers_append_cons (s t : List Char) {c : Char}
    (h : isWordChar c = false) :
    dropQualifiers (s ++ c :: t) = dropQualifiers s ++ c :: dropQualifiers t := by
  induction s using wordInduction with
  | nil =>
      exact dropQualifiers_cons_of_not_word t h
  | other d s hd ih =>
      rw [List.cons_append, dropQualifiers_cons_of_not_word _ hd, ih,
        dropQualifiers_cons_of_not_word _ hd, List.cons_append]
  | word w s hne hw hs ih =>
      have hs' : ∀ d ∈ (s ++ c :: t).head?, isWordChar d = false := by
        cases s with
        | nil =>
            intro d hd
            cases hd
            exact h
        | cons e s =>
            exact hs
      rw [List.append_assoc, dropQualifiers_append_of_word hne hw hs', ih,
        dropQualifiers_append_of_word hne hw hs, List.append_assoc]

theorem dropQualifiers_of_not_word {s : List Char} (h : ∀ c ∈ s, isWordChar c = false) :
    dropQualifiers s = s := by
  induction s with
  | nil =>
      rfl
  | cons c s ih =>
      rw [dropQualifiers_cons_of_not_word s (h c List.mem_cons_self),
        ih fun d hd => h d (List.mem_cons_of_mem c hd)]

theorem mem_dropQualifiers {s : List Char} {c : Char} (hc : c ∈ s)
    (h : isWordChar c = false) : c ∈ dropQualifiers s := by
  rcases List.append_of_mem hc with ⟨front, back, rfl⟩
  rw [dropQualifiers_append_cons front back h]
  simp

theorem mentions_cons_of_not_word (q : Qualifier) {c : Char} (s : List Char)
    (h : isWordChar c = false) : mentions q (c :: s) = mentions q s := by
  have hnot : ∀ {d : Char} (run : List Char), isWordChar d = false → d :: run ≠ q.word := by
    intro d run hd hrun
    have hmem : d ∈ q.word := by simp [← hrun]
    rw [Qualifier.isWordChar_of_mem_word hmem] at hd
    cases hd
  unfold mentions
  rcases runs_cons_of_not_word s h with hruns | ⟨d, run, more, hd, hs, hruns⟩
  · rw [hruns]
    simp [hnot [] h]
  · rw [hruns, hs]
    simp [hnot _ h, hnot _ hd]

theorem mentions_append_cons (q : Qualifier) (s t : List Char) {c : Char}
    (h : isWordChar c = false) :
    mentions q (s ++ c :: t) = (mentions q s || mentions q t) := by
  induction s using wordInduction with
  | nil =>
      rw [List.nil_append, mentions_cons_of_not_word q t h]
      rfl
  | other d s hd ih =>
      rw [List.cons_append, mentions_cons_of_not_word q _ hd, ih,
        mentions_cons_of_not_word q _ hd]
  | word w s hne hw hs ih =>
      have hs' : ∀ d ∈ (s ++ c :: t).head?, isWordChar d = false := by
        cases s with
        | nil =>
            intro d hd
            cases hd
            exact h
        | cons e s =>
            exact hs
      unfold mentions at ih ⊢
      rw [List.append_assoc, runs_append_of_word hne hw hs', runs_append_of_word hne hw hs,
        List.any_cons, ih, List.any_cons, Bool.or_assoc]

/-!
# Blanks at the ends
-/

theorem mentions_of_blank (q : Qualifier) {s : List Char}
    (h : ∀ c ∈ s, isBlank c = true) : mentions q s = false := by
  induction s with
  | nil =>
      rfl
  | cons c s ih =>
      have hc := isWordChar_of_isBlank (h c List.mem_cons_self)
      rw [mentions_cons_of_not_word q s hc]
      exact ih fun d hd => h d (List.mem_cons_of_mem c hd)

theorem mentions_append_of_blank_left (q : Qualifier) {s t : List Char}
    (h : ∀ c ∈ s, isBlank c = true) : mentions q (s ++ t) = mentions q t := by
  induction s with
  | nil =>
      rfl
  | cons c s ih =>
      have hc := isWordChar_of_isBlank (h c List.mem_cons_self)
      rw [List.cons_append, mentions_cons_of_not_word q _ hc]
      exact ih fun d hd => h d (List.mem_cons_of_mem c hd)

theorem mentions_append_of_blank_right (q : Qualifier) {s t : List Char}
    (h : ∀ c ∈ t, isBlank c = true) : mentions q (s ++ t) = mentions q s := by
  cases t with
  | nil =>
      rw [List.append_nil]
  | cons c t =>
      have hc := isWordChar_of_isBlank (h c List.mem_cons_self)
      have ht := mentions_of_blank q fun d hd => h d (List.mem_cons_of_mem c hd)
      rw [mentions_append_cons q s t hc, ht, Bool.or_false]

theorem unqualifiedWords_append_of_blank_left {s t : List Char}
    (h : ∀ c ∈ s, isBlank c = true) : unqualifiedWords (s ++ t) = unqualifiedWords t := by
  unfold unqualifiedWords
  induction s with
  | nil =>
      rfl
  | cons c s ih =>
      have hblank := h c List.mem_cons_self
      rw [List.cons_append,
        dropQualifiers_cons_of_not_word _ (isWordChar_of_isBlank hblank),
        words_cons_of_blank _ hblank]
      exact ih fun d hd => h d (List.mem_cons_of_mem c hd)

theorem unqualifiedWords_append_of_blank_right {s t : List Char}
    (h : ∀ c ∈ t, isBlank c = true) : unqualifiedWords (s ++ t) = unqualifiedWords s := by
  unfold unqualifiedWords
  cases t with
  | nil =>
      rw [List.append_nil]
  | cons c t =>
      have hc := isWordChar_of_isBlank (h c List.mem_cons_self)
      have ht : dropQualifiers t = t := dropQualifiers_of_not_word fun d hd =>
        isWordChar_of_isBlank (h d (List.mem_cons_of_mem c hd))
      rw [dropQualifiers_append_cons s t hc, ht, words_append_of_blank_right h]

end Spelling
end HeaderBinding
