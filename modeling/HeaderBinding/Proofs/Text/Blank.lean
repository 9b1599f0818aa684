import HeaderBinding.Text.Blank

/-!
# Blanks around and between words

Trimming and splitting into words do not see the blanks at the ends of a text, and
a blank inside a text divides its words.
-/

namespace HeaderBinding
namespace Text

/-- A run of blanks, possibly empty. -/
structure Blanks where
  text : List Char
  blank : ∀ c ∈ text, isBlank c = true

theorem not_blank_of_any {s : List Char} (h : s.any isBlank = false) :
    ∀ c ∈ s, isBlank c = false :=
  fun c hc => Bool.eq_false_iff.mpr (List.any_eq_false.mp h c hc)

/-!
# Trimming
-/

theorem trimStart_append_of_blank {s t : List Char} (h : ∀ c ∈ s, isBlank c = true) :
    trimStart (s ++ t) = trimStart t :=
  List.dropWhile_append_of_pos h

theorem trimEnd_append_of_blank {s t : List Char} (h : ∀ c ∈ t, isBlank c = true) :
    trimEnd (s ++ t) = trimEnd s := by
  have hrev : ∀ c ∈ t.reverse, isBlank c = true := by
    intro c hc
    exact h c (List.mem_reverse.mp hc)
  unfold trimEnd
  rw [List.reverse_append, List.dropWhile_append_of_pos hrev]

theorem trimStart_append_cons (s t : List Char) {c : Char} (h : isBlank c = false) :
    trimStart (s ++ c :: t) = trimStart s ++ c :: t := by
  unfold trimStart
  rw [List.dropWhile_append]
  cases hs : s.dropWhile isBlank with
  | nil =>
      simp [h]
  | cons d rest =>
      simp

theorem trimEnd_append_cons (s t : List Char) {c : Char} (h : isBlank c = false) :
    trimEnd (s ++ c :: t) = s ++ c :: trimEnd t := by
  unfold trimEnd
  rw [List.reverse_append, List.reverse_cons, List.append_assoc, List.dropWhile_append]
  cases ht : t.reverse.dropWhile isBlank with
  | nil =>
      simp [h]
  | cons d rest =>
      simp

/-- A text is its trimmed form with blanks in front. -/
theorem exists_trimStart (s : List Char) :
    ∃ front : Blanks, s = front.text ++ trimStart s := by
  refine ⟨⟨s.takeWhile isBlank, ?_⟩, ?_⟩
  · intro c hc
    exact List.all_eq_true.mp List.all_takeWhile c hc
  · exact List.takeWhile_append_dropWhile.symm

/-- A text is its trimmed form with blanks behind. -/
theorem exists_trimEnd (s : List Char) :
    ∃ back : Blanks, s = trimEnd s ++ back.text := by
  rcases exists_trimStart s.reverse with ⟨⟨front, hblank⟩, hfront⟩
  refine ⟨⟨front.reverse, ?_⟩, ?_⟩
  · intro c hc
    exact hblank c (List.mem_reverse.mp hc)
  · have h := congrArg List.reverse hfront
    simpa [trimEnd, trimStart] using h

theorem trimEnd_concat (s : List Char) {c : Char} (h : isBlank c = false) :
    trimEnd (s ++ [c]) = s ++ [c] :=
  trimEnd_append_cons s [] h

theorem mem_of_mem_trimEnd {s : List Char} {c : Char} (h : c ∈ trimEnd s) : c ∈ s := by
  rcases exists_trimEnd s with ⟨back, hs⟩
  rw [hs]
  exact List.mem_append_left _ h

theorem mem_trimEnd {s : List Char} {c : Char} (hc : c ∈ s) (h : isBlank c = false) :
    c ∈ trimEnd s := by
  rcases List.append_of_mem hc with ⟨front, back, rfl⟩
  rw [trimEnd_append_cons front back h]
  simp

/-- A text is its trimmed form between blanks. -/
theorem exists_trim (s : List Char) :
    ∃ front back : Blanks, s = front.text ++ trim s ++ back.text := by
  rcases exists_trimStart s with ⟨front, hfront⟩
  rcases exists_trimEnd (trimStart s) with ⟨back, hback⟩
  refine ⟨front, back, ?_⟩
  rw [List.append_assoc]
  unfold trim
  rw [← hback]
  exact hfront

theorem mem_of_mem_trim {s : List Char} {c : Char} (h : c ∈ trim s) : c ∈ s := by
  rcases exists_trim s with ⟨front, back, hs⟩
  rw [hs]
  simp [h]

theorem head?_trimStart (s : List Char) :
    ∀ c ∈ (trimStart s).head?, isBlank c = false := by
  intro c hc
  have h := List.head?_dropWhile_not isBlank s
  unfold trimStart at hc
  rw [Option.mem_def] at hc
  rw [hc] at h
  simpa using h

theorem getLast?_trimEnd (s : List Char) : ∀ c ∈ (trimEnd s).getLast?, isBlank c = false := by
  intro c hc
  rw [trimEnd, List.getLast?_reverse] at hc
  exact head?_trimStart s.reverse c hc

theorem getLast?_trim (s : List Char) :
    ∀ c ∈ (trim s).getLast?, isBlank c = false :=
  getLast?_trimEnd (trimStart s)

theorem trimStart_trimStart (s : List Char) : trimStart (trimStart s) = trimStart s := by
  have h := head?_trimStart s
  cases hs : trimStart s with
  | nil =>
      rfl
  | cons c rest =>
      rw [hs] at h
      have hc : isBlank c = false := h c rfl
      simp [trimStart, hc]

theorem trimEnd_trimEnd (s : List Char) : trimEnd (trimEnd s) = trimEnd s := by
  have h := trimStart_trimStart s.reverse
  unfold trimStart at h
  simp [trimEnd, h]

theorem trim_trim (s : List Char) : trim (trim s) = trim s := by
  have hhead := head?_trimStart s
  unfold trim
  cases hs : trimStart s with
  | nil =>
      rfl
  | cons c rest =>
      rw [hs] at hhead
      have hc : isBlank c = false := hhead c rfl
      have hend : ∀ t, trimEnd (c :: t) = c :: trimEnd t := fun t =>
        trimEnd_append_cons [] t hc
      have hstart : trimStart (c :: trimEnd rest) = c :: trimEnd rest := by
        simp [trimStart, hc]
      rw [hend, hstart, hend, trimEnd_trimEnd]

theorem trim_append_of_blank {s t : List Char} (h : ∀ c ∈ t, isBlank c = true) :
    trim (s ++ t) = trim s := by
  unfold trim
  cases hs : trimStart s with
  | nil =>
      have hall : ∀ c ∈ s ++ t, isBlank c = true := by
        rcases exists_trimStart s with ⟨front, hfront⟩
        rw [hs, List.append_nil] at hfront
        intro c hc
        rcases List.mem_append.mp hc with hcs | hct
        · exact front.blank c (hfront ▸ hcs)
        · exact h c hct
      have hnil := trimStart_append_of_blank (t := []) hall
      rw [List.append_nil] at hnil
      rw [hnil]
      rfl
  | cons c rest =>
      have happend : trimStart (s ++ t) = (c :: rest) ++ t := by
        unfold trimStart at hs ⊢
        rw [List.dropWhile_append, hs]
        rfl
      rw [happend, trimEnd_append_of_blank h]

/-!
# Words
-/

theorem words_cons_of_blank {c : Char} (s : List Char) (h : isBlank c = true) :
    words (c :: s) = words s := by
  rw [words.eq_def]
  simp [h]

theorem words_append_of_blank_left {s t : List Char} (h : ∀ c ∈ s, isBlank c = true) :
    words (s ++ t) = words t := by
  induction s with
  | nil =>
      rfl
  | cons c s ih =>
      have hc : isBlank c = true := h c List.mem_cons_self
      rw [List.cons_append, words_cons_of_blank _ hc]
      exact ih fun d hd => h d (List.mem_cons_of_mem c hd)

theorem words_cons_cons_of_blank {c d : Char} (s : List Char) (hc : isBlank c = false)
    (hd : isBlank d = true) : words (c :: d :: s) = [c] :: words (d :: s) := by
  rw [words.eq_def]
  simp [hc, hd]

theorem words_cons_cons {c d : Char} (s : List Char) (hc : isBlank c = false)
    (hd : isBlank d = false) :
    words (c :: d :: s) = (words (d :: s)).modifyHead (c :: ·) := by
  rw [words.eq_def]
  simp [hc, hd]

theorem exists_words_cons {c : Char} (s : List Char) (h : isBlank c = false) :
    ∃ w ws, words (c :: s) = w :: ws := by
  induction s generalizing c with
  | nil =>
      exact ⟨[c], [], by simp [words, h]⟩
  | cons d s ih =>
      by_cases hd : isBlank d = true
      · exact ⟨[c], words (d :: s), words_cons_cons_of_blank s h hd⟩
      · rw [Bool.not_eq_true] at hd
        rcases ih hd with ⟨w, ws, hw⟩
        refine ⟨c :: w, ws, ?_⟩
        rw [words_cons_cons s h hd, hw]
        rfl

/-- A blank divides the words before it from those behind it. -/
theorem words_append_cons_of_blank (s t : List Char) {c : Char} (h : isBlank c = true) :
    words (s ++ c :: t) = words s ++ words t := by
  induction s with
  | nil =>
      exact words_cons_of_blank t h
  | cons d s ih =>
      by_cases hd : isBlank d = true
      · rw [List.cons_append, words_cons_of_blank _ hd, words_cons_of_blank _ hd, ih]
      · rw [Bool.not_eq_true] at hd
        cases s with
        | nil =>
            simp [words, hd, h]
        | cons e s =>
            rw [List.cons_append] at ih ⊢
            rw [List.cons_append]
            by_cases he : isBlank e = true
            · rw [words_cons_cons_of_blank _ hd he, words_cons_cons_of_blank _ hd he, ih,
                List.cons_append]
            · rw [Bool.not_eq_true] at he
              rcases exists_words_cons s he with ⟨w, ws, hw⟩
              rw [words_cons_cons _ hd he, words_cons_cons _ hd he, ih, hw]
              rfl

theorem words_append_of_blank_right {s t : List Char} (h : ∀ c ∈ t, isBlank c = true) :
    words (s ++ t) = words s := by
  cases t with
  | nil =>
      rw [List.append_nil]
  | cons c t =>
      have hc : isBlank c = true := h c List.mem_cons_self
      have ht : words t = [] := by
        have hnil := words_append_of_blank_left (t := [])
          fun d hd => h d (List.mem_cons_of_mem c hd)
        simpa [words] using hnil
      rw [words_append_cons_of_blank s t hc, ht, List.append_nil]

/-- Only blanks are lost when a text is split into words. -/
theorem mem_flatten_words {s : List Char} {c : Char} (hc : c ∈ s) (h : isBlank c = false) :
    c ∈ (words s).flatten := by
  induction s with
  | nil =>
      cases hc
  | cons d s ih =>
      by_cases hd : isBlank d = true
      · rw [words_cons_of_blank _ hd]
        rcases List.mem_cons.mp hc with hcd | hcs
        · rw [hcd, hd] at h
          cases h
        · exact ih hcs
      · rw [Bool.not_eq_true] at hd
        cases s with
        | nil =>
            simpa [words, hd] using hc
        | cons e s =>
            by_cases he : isBlank e = true
            · rw [words_cons_cons_of_blank _ hd he, List.flatten_cons]
              rcases List.mem_cons.mp hc with hcd | hcs
              · simp [hcd]
              · exact List.mem_append_right _ (ih hcs)
            · rw [Bool.not_eq_true] at he
              rcases exists_words_cons s he with ⟨w, ws, hw⟩
              rw [words_cons_cons _ hd he, hw]
              rw [hw] at ih
              rcases List.mem_cons.mp hc with hcd | hcs
              · simp [hcd]
              · exact List.mem_cons_of_mem d (ih hcs)

theorem mem_joinWords {ws : List (List Char)} {c : Char} (h : c ∈ ws.flatten) :
    c ∈ joinWords ws := by
  unfold joinWords
  induction ws with
  | nil =>
      cases h
  | cons w ws ih =>
      cases ws with
      | nil =>
          simpa using h
      | cons v ws =>
          rw [List.intercalate_cons_cons]
          rw [List.flatten_cons] at h
          rcases List.mem_append.mp h with hw | hws
          · simp [hw]
          · simp [ih hws]

end Text
end HeaderBinding
