import HeaderBinding.Proofs.Spelling.Unqualified

/-!
# Qualifiers at the end of a spelling

The qualifiers at the end are taken off one by one, each with the blanks before it. What
is left ends in no qualifier, so its last character stays when all qualifiers are dropped.
-/

namespace HeaderBinding
namespace Spelling

open Text

/-!
# The last run of a spelling
-/

def lastRun (s : List Char) : List Char :=
  (s.reverse.takeWhile isWordChar).reverse

def beforeLastRun (s : List Char) : List Char :=
  (s.reverse.dropWhile isWordChar).reverse

theorem beforeLastRun_append_lastRun (s : List Char) : beforeLastRun s ++ lastRun s = s := by
  rw [beforeLastRun, lastRun, ← List.reverse_append, List.takeWhile_append_dropWhile,
    List.reverse_reverse]

theorem isWordChar_of_mem_lastRun {s : List Char} {c : Char} (h : c ∈ lastRun s) :
    isWordChar c = true :=
  List.all_eq_true.mp List.all_takeWhile c (List.mem_reverse.mp h)

theorem getLast?_beforeLastRun (s : List Char) :
    ∀ c ∈ (beforeLastRun s).getLast?, isWordChar c = false := by
  intro c hc
  have hhead := List.head?_dropWhile_not isWordChar s.reverse
  rw [beforeLastRun, List.getLast?_reverse, Option.mem_def] at hc
  rw [hc] at hhead
  simpa using hhead

theorem dropQualifiers_eq_lastRun (s : List Char) :
    dropQualifiers s =
      dropQualifiers (beforeLastRun s) ++ (if isQualifier (lastRun s) then [] else lastRun s) := by
  have hrun : dropQualifiers (lastRun s) =
      if isQualifier (lastRun s) then [] else lastRun s := by
    by_cases hnil : lastRun s = []
    · rw [hnil]
      rfl
    · exact dropQualifiers_word hnil fun c hc => isWordChar_of_mem_lastRun hc
  rw [← hrun, ← dropQualifiers_append _ (getLast?_beforeLastRun s),
    beforeLastRun_append_lastRun]

/-!
# Taking qualifiers off
-/

def EndsPlainly (s : List Char) : Prop :=
  isQualifier (lastRun s) = false

/-- `Peeled s t`: without the qualifiers at its end, `s` is `t`. -/
inductive Peeled : List Char → List Char → Prop where
  | plain {s : List Char} (h : EndsPlainly s) : Peeled s s
  | qualifier {s t : List Char} (gap : Blanks) (q : Qualifier)
      (hblank : ∀ c ∈ s.getLast?, isBlank c = false)
      (hword : ∀ c ∈ (s ++ gap.text).getLast?, isWordChar c = false) (h : Peeled s t) :
      Peeled (s ++ gap.text ++ q.word) t

theorem peeled_dropLastQualifiers (r : List Char) :
    Peeled r.reverse (dropLastQualifiers r).reverse := by
  fun_induction dropLastQualifiers r with
  | case1 r run h ih =>
      rcases Option.isSome_iff_exists.mp h with ⟨q, hq⟩
      have hrun : q.word = lastRun r.reverse := by
        rw [Qualifier.word_of_ofWord? hq, lastRun, List.reverse_reverse]
      have hgap : ∀ c ∈ ((r.dropWhile isWordChar).takeWhile isBlank).reverse,
          isBlank c = true := by
        intro c hc
        exact List.all_eq_true.mp List.all_takeWhile c (List.mem_reverse.mp hc)
      have hbefore : ((r.dropWhile isWordChar).dropWhile isBlank).reverse ++
          ((r.dropWhile isWordChar).takeWhile isBlank).reverse = beforeLastRun r.reverse := by
        rw [← List.reverse_append, List.takeWhile_append_dropWhile, beforeLastRun,
          List.reverse_reverse]
      have hsplit : r.reverse = ((r.dropWhile isWordChar).dropWhile isBlank).reverse ++
          ((r.dropWhile isWordChar).takeWhile isBlank).reverse ++ q.word := by
        rw [hbefore, hrun, beforeLastRun_append_lastRun]
      rw [hsplit]
      apply Peeled.qualifier ⟨_, hgap⟩ q _ _ ih
      · intro c hc
        rw [List.getLast?_reverse] at hc
        exact head?_trimStart (r.dropWhile isWordChar) c hc
      · rw [hbefore]
        exact getLast?_beforeLastRun r.reverse
  | case2 r run h =>
      apply Peeled.plain
      rw [EndsPlainly, lastRun, List.reverse_reverse]
      exact Bool.eq_false_iff.mpr h

theorem Peeled.endsPlainly {s t : List Char} (h : Peeled s t) : EndsPlainly t := by
  induction h with
  | plain h =>
      exact h
  | qualifier _ _ _ _ _ ih =>
      exact ih

theorem Peeled.getLast? {s t : List Char} (h : Peeled s t)
    (hs : ∀ c ∈ s.getLast?, isBlank c = false) : ∀ c ∈ t.getLast?, isBlank c = false := by
  induction h with
  | plain _ =>
      exact hs
  | qualifier _ _ hblank _ _ ih =>
      exact ih hblank

theorem dropQualifiers_append_qualifier {s : List Char} (q : Qualifier)
    (h : ∀ c ∈ s.getLast?, isWordChar c = false) :
    dropQualifiers (s ++ q.word) = dropQualifiers s := by
  have hword : dropQualifiers q.word = [] := by
    rw [dropQualifiers_word q.word_ne_nil fun _ => Qualifier.isWordChar_of_mem_word,
      if_pos (isQualifier_word q)]
  rw [dropQualifiers_append q.word h, hword, List.append_nil]

theorem Peeled.unqualifiedWords {s t : List Char} (h : Peeled s t) :
    unqualifiedWords s = unqualifiedWords t := by
  induction h with
  | plain _ =>
      rfl
  | @qualifier s t gap q _ hword _ ih =>
      have hdrop : Spelling.unqualifiedWords (s ++ gap.text ++ q.word) =
          Spelling.unqualifiedWords (s ++ gap.text) := by
        unfold Spelling.unqualifiedWords
        rw [dropQualifiers_append_qualifier q hword]
      rw [hdrop, unqualifiedWords_append_of_blank_right gap.blank, ih]

/-- Where something is taken off, it starts with a qualifier behind blanks. -/
theorem Peeled.exists_qualifier {s t : List Char} (h : Peeled s t) :
    s = t ∨ ∃ (gap : Blanks) (q : Qualifier) (back : List Char),
      s = t ++ (gap.text ++ (q.word ++ back)) ∧ ∀ c ∈ back.head?, isWordChar c = false := by
  induction h with
  | plain _ =>
      exact Or.inl rfl
  | qualifier gap q _ hword _ ih =>
      right
      rcases ih with rfl | ⟨gap', q', back, rfl, hback⟩
      · exact ⟨gap, q, [], by simp, by simp⟩
      · refine ⟨gap', q', back ++ (gap.text ++ q.word), by simp, ?_⟩
        intro c hc
        cases back with
        | cons d back =>
            exact hback c hc
        | nil =>
            cases hgap : gap.text with
            | cons d rest =>
                rw [hgap] at hc
                cases hc
                exact isWordChar_of_isBlank (gap.blank c (by simp [hgap]))
            | nil =>
                -- Two qualifiers side by side would be one word.
                rcases List.eq_nil_or_concat q'.word with hnil | ⟨front, e, he⟩
                · exact absurd hnil q'.word_ne_nil
                · have hlast := hword e (by simp [hgap, he])
                  rw [Qualifier.isWordChar_of_mem_word (q := q') (by simp [he])] at hlast
                  cases hlast

/-!
# The last character
-/

theorem exists_dropQualifiers_concat {s : List Char} {c : Char} (h : EndsPlainly (s ++ [c])) :
    ∃ front, dropQualifiers (s ++ [c]) = front ++ [c] := by
  cases hc : isWordChar c with
  | false =>
      exact ⟨dropQualifiers s, dropQualifiers_append_cons s [] hc⟩
  | true =>
      have hrun : lastRun (s ++ [c]) = lastRun s ++ [c] := by
        simp [lastRun, hc]
      rw [dropQualifiers_eq_lastRun, h, hrun]
      exact ⟨dropQualifiers (beforeLastRun (s ++ [c])) ++ lastRun s, by simp⟩

theorem exists_unqualified_concat {s : List Char} {c : Char} (h : EndsPlainly (s ++ [c]))
    (hc : isBlank c = false) : ∃ front, unqualified (s ++ [c]) = front ++ [c] := by
  rcases exists_dropQualifiers_concat h with ⟨front, hfront⟩
  rcases exists_tidy_append_singleton front hc with ⟨gap, hgap⟩
  refine ⟨tidy front ++ gap.text, ?_⟩
  rw [unqualified, unqualifiedWords, hfront, ← tidy, hgap, List.append_assoc]

/-- A spelling that loses nothing ends in no qualifier. -/
theorem endsPlainly_of_dropQualifiers {s : List Char} (h : dropQualifiers s = s) :
    EndsPlainly s := by
  apply Bool.eq_false_iff.mpr
  intro hq
  have hrun : lastRun s ≠ [] := by
    intro hnil
    rw [hnil] at hq
    exact absurd hq (by decide)
  have hle := (dropQualifiers_sublist (beforeLastRun s)).length_le
  have hpos := List.length_pos_iff.mpr hrun
  have hlength := congrArg List.length (beforeLastRun_append_lastRun s)
  rw [dropQualifiers_eq_lastRun, if_pos hq, List.append_nil] at h
  rw [List.length_append] at hlength
  rw [h] at hle
  omega

end Spelling
end HeaderBinding
