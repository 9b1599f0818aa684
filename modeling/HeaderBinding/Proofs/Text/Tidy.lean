import HeaderBinding.Proofs.Text.Blank
import HeaderBinding.Proofs.Text.Span

/-!
# The tidy form of a text

The words of a text are free of blanks, and joined by single spaces they are the words
of the joined text again. A character that is no blank stays in its place between the
tidy forms of what stands before and behind it, with at most a space on either side.
-/

namespace HeaderBinding
namespace Text

def tidy (s : List Char) : List Char :=
  joinWords (words s)

def Blanks.none : Blanks where
  text := []
  blank := by simp

def Blanks.space : Blanks where
  text := [' ']
  blank := List.forall_mem_singleton.mpr rfl

/-- Words as a text is split into them. -/
def AreWords (ws : List (List Char)) : Prop :=
  ∀ w ∈ ws, w ≠ [] ∧ ∀ c ∈ w, isBlank c = false

/-!
# Words
-/

theorem words_of_not_blank {w : List Char} (hne : w ≠ []) (h : ∀ c ∈ w, isBlank c = false) :
    words w = [w] := by
  induction w with
  | nil =>
      exact absurd rfl hne
  | cons c w ih =>
      have hc := h c List.mem_cons_self
      cases w with
      | nil =>
          simp [words, hc]
      | cons d w =>
          have hd := h d (by simp)
          have hrest := ih (List.cons_ne_nil d w) fun e he => h e (List.mem_cons_of_mem c he)
          rw [words_cons_cons w hc hd, hrest]
          rfl

/-- A word at the front of a text, up to the end or to a blank. -/
theorem words_append_of_not_blank {w s : List Char} (hne : w ≠ [])
    (hw : ∀ c ∈ w, isBlank c = false) (hs : ∀ c ∈ s.head?, isBlank c = true) :
    words (w ++ s) = w :: words s := by
  cases s with
  | nil =>
      rw [List.append_nil, words_of_not_blank hne hw]
      rfl
  | cons c s =>
      have hc : isBlank c = true := hs c rfl
      rw [words_append_cons_of_blank w s hc, words_of_not_blank hne hw,
        words_cons_of_blank s hc]
      rfl

@[elab_as_elim]
theorem blankInduction {motive : List Char → Prop} (nil : motive [])
    (blank : ∀ c s, isBlank c = true → motive s → motive (c :: s))
    (word : ∀ w s, w ≠ [] → (∀ c ∈ w, isBlank c = false) →
      (∀ c ∈ s.head?, isBlank c = true) → motive s → motive (w ++ s))
    (s : List Char) : motive s := by
  induction s using spanInduction (fun c => !isBlank c) with
  | nil =>
      exact nil
  | other c s hc ih =>
      exact blank c s (by simpa using hc) ih
  | span w s hne hw hs ih =>
      exact word w s hne (by simpa using hw) (by simpa using hs) ih

theorem areWords_words (s : List Char) : AreWords (words s) := by
  induction s using blankInduction with
  | nil =>
      intro w hw
      cases hw
  | blank c s hc ih =>
      rw [words_cons_of_blank s hc]
      exact ih
  | word w s hne hw hs ih =>
      rw [words_append_of_not_blank hne hw hs]
      exact List.forall_mem_cons.mpr ⟨⟨hne, hw⟩, ih⟩

theorem mem_of_mem_words {s w : List Char} {c : Char} (hw : w ∈ words s) (hc : c ∈ w) :
    c ∈ s := by
  induction s using blankInduction with
  | nil =>
      cases hw
  | blank d s hd ih =>
      rw [words_cons_of_blank s hd] at hw
      exact List.mem_cons_of_mem d (ih hw)
  | word v s hne hv hs ih =>
      rw [words_append_of_not_blank hne hv hs] at hw
      rcases List.mem_cons.mp hw with rfl | hw
      · exact List.mem_append_left s hc
      · exact List.mem_append_right v (ih hw)

theorem joinWords_cons_cons (w v : List Char) (ws : List (List Char)) :
    joinWords (w :: v :: ws) = w ++ ' ' :: joinWords (v :: ws) := by
  unfold joinWords
  rw [List.intercalate_cons_cons, List.append_assoc, List.singleton_append]

theorem words_joinWords {ws : List (List Char)} (h : AreWords ws) :
    words (joinWords ws) = ws := by
  induction ws with
  | nil =>
      rfl
  | cons w ws ih =>
      have hw : words w = [w] :=
        words_of_not_blank (h w List.mem_cons_self).1 (h w List.mem_cons_self).2
      cases ws with
      | nil =>
          rw [joinWords, List.intercalate_singleton, hw]
      | cons v ws =>
          have hrest := ih fun u hu => h u (List.mem_cons_of_mem w hu)
          rw [joinWords_cons_cons, words_append_cons_of_blank _ _ (by decide), hw, hrest]
          rfl

theorem mem_of_mem_joinWords {ws : List (List Char)} {c : Char} (h : c ∈ joinWords ws) :
    c = ' ' ∨ ∃ w ∈ ws, c ∈ w := by
  induction ws with
  | nil =>
      cases h
  | cons w ws ih =>
      cases ws with
      | nil =>
          rw [joinWords, List.intercalate_singleton] at h
          exact Or.inr ⟨w, List.mem_cons_self, h⟩
      | cons v ws =>
          rw [joinWords_cons_cons] at h
          rcases List.mem_append.mp h with hw | hrest
          · exact Or.inr ⟨w, List.mem_cons_self, hw⟩
          · rcases List.mem_cons.mp hrest with hspace | hrest
            · exact Or.inl hspace
            · rcases ih hrest with hspace | ⟨u, hu, hcu⟩
              · exact Or.inl hspace
              · exact Or.inr ⟨u, List.mem_cons_of_mem w hu, hcu⟩

theorem mem_of_mem_tidy {s : List Char} {c : Char} (h : c ∈ tidy s) : c = ' ' ∨ c ∈ s := by
  rcases mem_of_mem_joinWords h with hspace | ⟨w, hw, hc⟩
  · exact Or.inl hspace
  · exact Or.inr (mem_of_mem_words hw hc)

/-!
# The ends
-/

theorem trim_of_ends {s : List Char} (hhead : ∀ c ∈ s.head?, isBlank c = false)
    (hlast : ∀ c ∈ s.getLast?, isBlank c = false) : trim s = s := by
  have hstart : trimStart s = s := by
    cases s with
    | nil =>
        rfl
    | cons c s =>
        exact List.dropWhile_cons_of_neg (by simp [hhead c rfl])
  rcases List.eq_nil_or_concat s with rfl | ⟨front, c, rfl⟩
  · rfl
  · rw [List.concat_eq_append] at hstart hlast ⊢
    have hc : isBlank c = false := hlast c (by simp)
    rw [trim, hstart, trimEnd_append_cons front [] hc]
    rfl

theorem head?_joinWords {ws : List (List Char)} (h : AreWords ws) :
    ∀ c ∈ (joinWords ws).head?, isBlank c = false := by
  cases ws with
  | nil =>
      simp [joinWords]
  | cons w ws =>
      rcases h w List.mem_cons_self with ⟨hne, hw⟩
      cases w with
      | nil =>
          exact absurd rfl hne
      | cons d w =>
          have hd := hw d List.mem_cons_self
          cases ws with
          | nil =>
              simpa [joinWords] using hd
          | cons v ws =>
              simpa [joinWords_cons_cons] using hd

theorem getLast?_joinWords {ws : List (List Char)} (h : AreWords ws) :
    ∀ c ∈ (joinWords ws).getLast?, isBlank c = false := by
  induction ws with
  | nil =>
      simp [joinWords]
  | cons w ws ih =>
      rcases h w List.mem_cons_self with ⟨hne, hw⟩
      cases ws with
      | nil =>
          intro c hc
          rw [joinWords, List.intercalate_singleton] at hc
          exact hw c (List.mem_of_getLast? hc)
      | cons v ws =>
          have hrest : AreWords (v :: ws) := fun u hu => h u (List.mem_cons_of_mem w hu)
          intro c hc
          apply ih hrest c
          rw [joinWords_cons_cons, List.getLast?_append, List.getLast?_cons] at hc
          cases hlast : (joinWords (v :: ws)).getLast? with
          | some d =>
              simpa [hlast] using hc
          | none =>
              have hnil := List.getLast?_eq_none_iff.mp hlast
              have hwords := words_joinWords hrest
              rw [hnil] at hwords
              cases hwords

theorem trim_tidy (s : List Char) : trim (tidy s) = tidy s :=
  trim_of_ends (head?_joinWords (areWords_words s)) (getLast?_joinWords (areWords_words s))

/-!
# Tidy texts
-/

/-- A text without white space but for single spaces between words. -/
def IsTidy (s : List Char) : Prop :=
  ∃ ws, AreWords ws ∧ s = joinWords ws

theorem isTidy_of_not_blank {w : List Char} (hne : w ≠ []) (h : ∀ c ∈ w, isBlank c = false) :
    IsTidy w :=
  ⟨[w], List.forall_mem_singleton.mpr ⟨hne, h⟩, List.intercalate_singleton.symm⟩

theorem IsTidy.prepend {s w : List Char} (h : IsTidy s) (hne : w ≠ [])
    (hw : ∀ c ∈ w, isBlank c = false) : IsTidy (w ++ s) := by
  rcases h with ⟨ws, hws, rfl⟩
  cases ws with
  | nil =>
      rw [joinWords, List.intercalate_nil, List.append_nil]
      exact isTidy_of_not_blank hne hw
  | cons v ws =>
      rcases List.forall_mem_cons.mp hws with ⟨⟨_, hv⟩, hrest⟩
      have hhead : w ++ v ≠ [] ∧ ∀ c ∈ w ++ v, isBlank c = false :=
        ⟨List.append_ne_nil_of_left_ne_nil hne v, List.forall_mem_append.mpr ⟨hw, hv⟩⟩
      refine ⟨(w ++ v) :: ws, List.forall_mem_cons.mpr ⟨hhead, hrest⟩, ?_⟩
      cases ws with
      | nil =>
          rw [joinWords, joinWords, List.intercalate_singleton, List.intercalate_singleton]
      | cons u ws =>
          rw [joinWords_cons_cons, joinWords_cons_cons, List.append_assoc]

theorem IsTidy.append {s w : List Char} (h : IsTidy s) (hne : w ≠ [])
    (hw : ∀ c ∈ w, isBlank c = false) : IsTidy (s ++ w) := by
  rcases h with ⟨ws, hws, rfl⟩
  induction ws with
  | nil =>
      exact isTidy_of_not_blank hne hw
  | cons v ws ih =>
      rcases List.forall_mem_cons.mp hws with ⟨⟨hvne, hv⟩, hrest⟩
      cases ws with
      | nil =>
          rw [joinWords, List.intercalate_singleton]
          exact (isTidy_of_not_blank hne hw).prepend hvne hv
      | cons u ws =>
          rcases ih hrest with ⟨vs, hvs, hjoin⟩
          rw [joinWords_cons_cons, List.append_assoc, List.cons_append, hjoin]
          cases vs with
          | nil =>
              exact absurd hjoin (List.append_ne_nil_of_right_ne_nil _ hne)
          | cons t vs =>
              refine ⟨v :: t :: vs, List.forall_mem_cons.mpr ⟨⟨hvne, hv⟩, hvs⟩, ?_⟩
              rw [joinWords_cons_cons]

theorem IsTidy.blank {s : List Char} (h : IsTidy s) {c : Char} (hc : c ∈ s)
    (hblank : isBlank c = true) : c = ' ' := by
  rcases h with ⟨ws, hws, rfl⟩
  rcases mem_of_mem_joinWords hc with hspace | ⟨w, hw, hcw⟩
  · exact hspace
  · rw [(hws w hw).2 c hcw] at hblank
    cases hblank

/-!
# What stands around a character
-/

theorem tidy_cons_of_blank {c : Char} (s : List Char) (h : isBlank c = true) :
    tidy (c :: s) = tidy s := by
  unfold tidy
  rw [words_cons_of_blank s h]

theorem tidy_cons_cons {c d : Char} (s : List Char) (hc : isBlank c = false)
    (hd : isBlank d = false) : tidy (c :: d :: s) = c :: tidy (d :: s) := by
  unfold tidy
  rcases exists_words_cons s hd with ⟨w, ws, hw⟩
  rw [words_cons_cons s hc hd, hw, List.modifyHead_cons]
  cases ws with
  | nil =>
      rfl
  | cons v ws =>
      rw [joinWords_cons_cons, joinWords_cons_cons]
      rfl

theorem tidy_cons_cons_of_blank {c d : Char} (s : List Char) (hc : isBlank c = false)
    (hd : isBlank d = true) :
    tidy (c :: d :: s) = c :: (if words (d :: s) = [] then [] else ' ' :: tidy (d :: s)) := by
  unfold tidy
  rw [words_cons_cons_of_blank s hc hd]
  cases words (d :: s) with
  | nil =>
      rfl
  | cons w ws =>
      rw [joinWords_cons_cons]
      rfl

theorem exists_tidy_cons {c : Char} (s : List Char) (hc : isBlank c = false) :
    ∃ gap : Blanks, tidy (c :: s) = c :: (gap.text ++ tidy s) := by
  cases s with
  | nil =>
      refine ⟨.none, ?_⟩
      simp [tidy, words, hc, joinWords, Blanks.none]
  | cons d s =>
      by_cases hd : isBlank d = true
      · rw [tidy_cons_cons_of_blank s hc hd]
        split
        next hnil =>
          refine ⟨.none, ?_⟩
          rw [tidy, hnil]
          rfl
        next =>
          exact ⟨.space, rfl⟩
      · rw [Bool.not_eq_true] at hd
        exact ⟨.none, tidy_cons_cons s hc hd⟩

theorem words_ne_nil_of_mem {s : List Char} {c : Char} (hc : c ∈ s) (h : isBlank c = false) :
    words s ≠ [] := by
  intro hnil
  have hmem := mem_flatten_words hc h
  rw [hnil] at hmem
  cases hmem

theorem exists_tidy_append (s t : List Char) {c : Char} (hc : isBlank c = false) :
    ∃ gap : Blanks, tidy (s ++ c :: t) = tidy s ++ (gap.text ++ tidy (c :: t)) := by
  induction s with
  | nil =>
      exact ⟨.none, rfl⟩
  | cons d s ih =>
      by_cases hd : isBlank d = true
      · rw [List.cons_append, tidy_cons_of_blank _ hd, tidy_cons_of_blank _ hd]
        exact ih
      · rw [Bool.not_eq_true] at hd
        cases s with
        | nil =>
            refine ⟨.none, ?_⟩
            rw [List.singleton_append, tidy_cons_cons t hd hc]
            simp [tidy, words, hd, joinWords, Blanks.none]
        | cons e s =>
            rcases ih with ⟨gap, hgap⟩
            by_cases he : isBlank e = true
            · -- The space behind `d` goes to the gap if only blanks are left before `c`.
              have hwords : words (e :: (s ++ c :: t)) ≠ [] :=
                words_ne_nil_of_mem (c := c) (by simp) hc
              rw [List.cons_append, List.cons_append, tidy_cons_cons_of_blank _ hd he,
                tidy_cons_cons_of_blank _ hd he, if_neg hwords, ← List.cons_append, hgap]
              split
              next hnil =>
                have hblank : ∀ c ∈ ' ' :: gap.text, isBlank c = true :=
                  List.forall_mem_cons.mpr ⟨by decide, gap.blank⟩
                refine ⟨⟨' ' :: gap.text, hblank⟩, ?_⟩
                rw [tidy, hnil]
                rfl
              next =>
                exact ⟨gap, rfl⟩
            · rw [Bool.not_eq_true] at he
              refine ⟨gap, ?_⟩
              rw [List.cons_append, List.cons_append, tidy_cons_cons _ hd he,
                tidy_cons_cons _ hd he, ← List.cons_append, hgap, List.cons_append]

theorem exists_tidy_append_cons (s t : List Char) {c : Char} (hc : isBlank c = false) :
    ∃ gap gap' : Blanks,
      tidy (s ++ c :: t) = tidy s ++ (gap.text ++ c :: (gap'.text ++ tidy t)) := by
  rcases exists_tidy_append s t hc with ⟨gap, hgap⟩
  rcases exists_tidy_cons t hc with ⟨gap', hgap'⟩
  exact ⟨gap, gap', by rw [hgap, hgap']⟩

theorem exists_tidy_append_singleton (s : List Char) {c : Char} (hc : isBlank c = false) :
    ∃ gap : Blanks, tidy (s ++ [c]) = tidy s ++ (gap.text ++ [c]) := by
  rcases exists_tidy_append s [] hc with ⟨gap, hgap⟩
  have hlast : tidy [c] = [c] := by
    simp [tidy, words, hc, joinWords]
  exact ⟨gap, by rw [hgap, hlast]⟩

end Text
end HeaderBinding
