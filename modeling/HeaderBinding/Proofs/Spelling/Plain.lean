import Mathlib.Data.List.TakeWhile
import HeaderBinding.Proofs.Spelling.BaseType
import HeaderBinding.Proofs.Spelling.Suffix
import HeaderBinding.Proofs.Spelling.Trailing

/-!
# Types of spellings without qualifiers

A spelling means the same type when its qualifiers are dropped and its blanks are made
single spaces, but for the `const` of a C string. The one condition is that no qualifier
follows the bracket of an array, since such a spelling is no array before.
-/

namespace HeaderBinding

/-- The type with plain C strings for constant ones. -/
def ForeignType.withoutConst : ForeignType → ForeignType
  | constCString => cstring
  | ptr target => ptr target.withoutConst
  | t => t

namespace Spelling

open Text

/-!
# Base types
-/

theorem withoutConst_baseType (ws : List (List Char)) :
    (baseType ws).withoutConst = baseType ws := by
  have hbasic : ∀ t ∈ ForeignType.basicTypes, t.withoutConst = t := by
    decide
  rcases baseType_cases ws with hmem | hnamed
  · exact hbasic _ hmem
  · rw [hnamed]
    rfl

/-!
# Brackets
-/

/-- A spelling with a qualifier behind the bracket of an array, at most blanks between. -/
def QualifiedBracket (s : List Char) : Prop :=
  ∃ (front : List Char) (gap : Blanks) (q : Qualifier) (back : List Char),
    s = front ++ ']' :: (gap.text ++ (q.word ++ back)) ∧
      ∀ c ∈ back.head?, isWordChar c = false

/-- Whether a spelling starts with a qualifier, at most blanks before. -/
def startsQualified (s : List Char) : Bool :=
  isQualifier ((s.dropWhile isBlank).takeWhile isWordChar)

def hasQualifiedBracket : List Char → Bool
  | [] => false
  | c :: rest => (c == ']' && startsQualified rest) || hasQualifiedBracket rest

theorem startsQualified_iff (s : List Char) :
    startsQualified s = true ↔ ∃ (gap : Blanks) (q : Qualifier) (back : List Char),
      s = gap.text ++ (q.word ++ back) ∧ ∀ c ∈ back.head?, isWordChar c = false := by
  constructor
  · intro h
    rcases Option.isSome_iff_exists.mp h with ⟨q, hq⟩
    rcases exists_trimStart s with ⟨gap, hgap⟩
    refine ⟨gap, q, (trimStart s).dropWhile isWordChar, ?_, ?_⟩
    · rw [Qualifier.word_of_ofWord? hq]
      exact hgap.trans (congrArg _ List.takeWhile_append_dropWhile.symm)
    · intro c hc
      have hhead := List.head?_dropWhile_not isWordChar (trimStart s)
      rw [Option.mem_def] at hc
      rw [hc] at hhead
      simpa using hhead
  · rintro ⟨gap, q, back, rfl, hback⟩
    have hword : ∀ c ∈ q.word, isWordChar c = true := fun _ => Qualifier.isWordChar_of_mem_word
    have hstart : (q.word ++ back).dropWhile isBlank = q.word ++ back := by
      cases hq : q.word with
      | nil =>
          exact absurd hq q.word_ne_nil
      | cons c w =>
          have hc := isBlank_of_isWordChar (hword c (by simp [hq]))
          simp [hc]
    have hrun : back.takeWhile isWordChar = [] := by
      cases back with
      | nil =>
          rfl
      | cons c back =>
          simp [hback c rfl]
    rw [startsQualified, List.dropWhile_append_of_pos gap.blank, hstart,
      List.takeWhile_append_of_pos hword, hrun, List.append_nil, isQualifier_word]

theorem hasQualifiedBracket_iff (s : List Char) :
    hasQualifiedBracket s = true ↔
      ∃ front rest, s = front ++ ']' :: rest ∧ startsQualified rest = true := by
  induction s with
  | nil =>
      simp [hasQualifiedBracket]
  | cons c s ih =>
      rw [hasQualifiedBracket, Bool.or_eq_true, Bool.and_eq_true, beq_iff_eq, ih]
      constructor
      · rintro (⟨rfl, hs⟩ | ⟨front, rest, rfl, hrest⟩)
        · exact ⟨[], s, rfl, hs⟩
        · exact ⟨c :: front, rest, rfl, hrest⟩
      · rintro ⟨front, rest, hs, hrest⟩
        cases front with
        | nil =>
            cases hs
            exact Or.inl ⟨rfl, hrest⟩
        | cons d front =>
            cases hs
            exact Or.inr ⟨front, rest, rfl, hrest⟩

instance : DecidablePred QualifiedBracket := fun s =>
  decidable_of_iff (hasQualifiedBracket s = true) <| by
    rw [hasQualifiedBracket_iff]
    constructor
    · rintro ⟨front, rest, rfl, hrest⟩
      rcases (startsQualified_iff rest).mp hrest with ⟨gap, q, back, rfl, hback⟩
      exact ⟨front, gap, q, back, rfl, hback⟩
    · rintro ⟨front, gap, q, back, rfl, hback⟩
      exact ⟨front, _, rfl, (startsQualified_iff _).mpr ⟨gap, q, back, rfl, hback⟩⟩

theorem QualifiedBracket.append {s : List Char} (h : QualifiedBracket s) (before : List Char)
    {after : List Char} (hafter : ∀ c ∈ after.head?, isWordChar c = false) :
    QualifiedBracket (before ++ (s ++ after)) := by
  rcases h with ⟨front, gap, q, back, rfl, hback⟩
  refine ⟨before ++ front, gap, q, back ++ after, by simp, ?_⟩
  intro c hc
  cases back with
  | nil =>
      exact hafter c hc
  | cons d back =>
      exact hback c hc

theorem head?_blanks_append (gap : Blanks) {s : List Char}
    (h : ∀ c ∈ s.head?, isWordChar c = false) :
    ∀ c ∈ (gap.text ++ s).head?, isWordChar c = false := by
  intro c hc
  cases hgap : gap.text with
  | nil =>
      rw [hgap] at hc
      exact h c hc
  | cons d rest =>
      rw [hgap] at hc
      cases hc
      exact isWordChar_of_isBlank (gap.blank c (by simp [hgap]))

theorem QualifiedBracket.of_trim {s : List Char} (h : QualifiedBracket (trim s)) :
    QualifiedBracket s := by
  rcases exists_trim s with ⟨front, back, hs⟩
  have hback := head?_blanks_append back (s := []) (by simp)
  rw [List.append_nil] at hback
  rw [hs, List.append_assoc]
  exact h.append front.text hback

/-- Of a spelling that ends in a bracket nothing is taken off, unless a qualifier
follows a bracket. -/
theorem qualifiedBracket_of_peeled {s front : List Char} (h : Peeled s (front ++ [']'])) :
    s = front ++ [']'] ∨ QualifiedBracket s := by
  rcases h.exists_qualifier with hself | ⟨gap, q, back, hs, hback⟩
  · exact Or.inl hself
  · exact Or.inr ⟨front, gap, q, back, by simp [hs], hback⟩

/-- The last bracket of a text. -/
theorem exists_lastBracket (s : List Char) :
    (∀ c ∈ s, isBracket c = false) ∨
      ∃ front c bound, s = front ++ c :: bound ∧ isBracket c = true ∧
        ∀ d ∈ bound, isBracket d = false := by
  induction s with
  | nil =>
      exact Or.inl (by simp)
  | cons c s ih =>
      rcases ih with hplain | ⟨front, d, bound, rfl, hd, hbound⟩
      · cases hc : isBracket c with
        | false =>
            exact Or.inl (List.forall_mem_cons.mpr ⟨hc, hplain⟩)
        | true =>
            exact Or.inr ⟨[], c, s, rfl, hc, hplain⟩
      · exact Or.inr ⟨c :: front, d, bound, rfl, hd, hbound⟩

theorem arrayElement?_append_close (front : List Char) {bound : List Char}
    (hbound : ∀ c ∈ bound, isBracket c = false) :
    arrayElement? (front ++ ']' :: (bound ++ [']'])) = none := by
  rcases reverse_append_bracket front (c := ']') (by decide) hbound with
    ⟨rest, hreverse, hdrop⟩
  unfold arrayElement?
  rw [hreverse]
  simp only [hdrop]
  rfl

theorem arrayElement?_append_of_plain {s : List Char} (h : ∀ c ∈ s, isBracket c = false) :
    arrayElement? (s ++ [']']) = none := by
  have hplain : ∀ c ∈ s.reverse, (!isBracket c) = true := by
    intro c hc
    simp [h c (List.mem_reverse.mp hc)]
  have hdrop : s.reverse.dropWhile (fun c => !isBracket c) = [] :=
    List.dropWhile_eq_nil_iff.mpr hplain
  unfold arrayElement?
  rw [List.reverse_append, List.reverse_singleton, List.singleton_append]
  simp only [hdrop]

theorem isBracket_iff {c : Char} : isBracket c = true ↔ c = '[' ∨ c = ']' := by
  simp [isBracket]

theorem not_blank_of_isBracket {c : Char} (h : isBracket c = true) :
    isWordChar c = false ∧ isBlank c = false := by
  rcases isBracket_iff.mp h with rfl | rfl
  · exact ⟨isWordChar_of_mark (by decide), by decide⟩
  · exact ⟨isWordChar_of_mark (by decide), by decide⟩

theorem isBracket_of_isBlank {c : Char} (h : isBlank c = true) : isBracket c = false := by
  apply Bool.eq_false_iff.mpr
  intro hc
  rw [(not_blank_of_isBracket hc).2] at h
  cases h

theorem isBracket_of_mem_unqualified {s : List Char} (h : ∀ c ∈ s, isBracket c = false) :
    ∀ c ∈ unqualified s, isBracket c = false := by
  intro c hc
  rcases mem_of_mem_unqualified hc with rfl | hc
  · decide
  · exact h c hc

theorem exists_unqualified_bracket (front : List Char) {c : Char} {bound : List Char}
    (hc : isBracket c = true) (hbound : ∀ d ∈ bound, isBracket d = false) :
    ∃ (gap : Blanks) (bound' : List Char),
      unqualified (front ++ c :: (bound ++ [']'])) =
        unqualified front ++ (gap.text ++ c :: (bound' ++ [']'])) ∧
      ∀ d ∈ bound', isBracket d = false := by
  rcases not_blank_of_isBracket hc with ⟨hword, hblank⟩
  rcases not_blank_of_isBracket (c := ']') (by decide) with ⟨hword', hblank'⟩
  rcases exists_unqualified_append_cons front (bound ++ [']']) hword hblank with
    ⟨gap, gap', houter⟩
  rcases exists_unqualified_append_singleton bound hword' hblank' with ⟨gap'', hinner⟩
  refine ⟨gap, gap'.text ++ (unqualified bound ++ gap''.text), ?_, ?_⟩
  · rw [houter, hinner]
    simp
  · intro d hd
    rcases List.mem_append.mp hd with hd | hd
    · exact isBracket_of_isBlank (gap'.blank d hd)
    · rcases List.mem_append.mp hd with hd | hd
      · exact isBracket_of_mem_unqualified hbound d hd
      · exact isBracket_of_isBlank (gap''.blank d hd)

/-- The spelling of an array is that of its element with a suffix. -/
theorem exists_array_of_arrayElement? {s element : List Char}
    (h : arrayElement? s = some element) :
    ∃ (gap : Blanks) (bound : List Char),
      s = element ++ (gap.text ++ '[' :: (bound ++ [']'])) ∧
        ∀ c ∈ bound, isBracket c = false := by
  rcases List.eq_nil_or_concat s with rfl | ⟨t, c, rfl⟩
  · cases h
  · rw [List.concat_eq_append] at h ⊢
    by_cases hc : c = ']'
    · subst hc
      rcases exists_lastBracket t with hplain | ⟨front, d, bound, rfl, hd, hbound⟩
      · rw [arrayElement?_append_of_plain hplain] at h
        cases h
      rcases isBracket_iff.mp hd with rfl | rfl
      · rcases exists_trimEnd front with ⟨gap, hgap⟩
        rw [List.append_assoc, List.cons_append, arrayElement?_append front hbound,
          Option.ite_none_left_eq_some, Option.some_inj] at h
        refine ⟨gap, bound, ?_, hbound⟩
        rw [← h.2]
        conv =>
          lhs
          rw [hgap]
        simp
      · rw [List.append_assoc, List.cons_append, arrayElement?_append_close front hbound] at h
        cases h
    · rw [arrayElement?_append_singleton t hc] at h
      cases h

/-!
# Pointers
-/

theorem peeled_of_pointee? {s pointee : List Char} (h : pointee? s = some pointee) :
    Peeled s (pointee ++ ['*']) := by
  have hpeeled := peeled_dropLastQualifiers s.reverse
  unfold pointee? at h
  split at h
  next front hfront =>
    cases h
    rwa [hfront, List.reverse_reverse, List.reverse_cons] at hpeeled
  next =>
    cases h

theorem pointee?_nil : pointee? [] = none := by
  unfold pointee?
  rw [List.reverse_nil, dropLastQualifiers]
  rfl

theorem pointee?_of_dropLastQualifiers {s front : List Char}
    (h : (dropLastQualifiers s.reverse).reverse = front ++ ['*']) : pointee? s = some front := by
  have hreverse : dropLastQualifiers s.reverse = '*' :: front.reverse := by
    rw [← List.reverse_inj, h, List.reverse_cons, List.reverse_reverse]
  unfold pointee?
  rw [hreverse]
  exact congrArg some (List.reverse_reverse front)

theorem pointee?_concat {s : List Char} {c : Char} (hplain : EndsPlainly (s ++ [c]))
    (hc : c ≠ '*') : pointee? (s ++ [c]) = none := by
  have hkept : dropLastQualifiers (s ++ [c]).reverse = (s ++ [c]).reverse := by
    unfold EndsPlainly lastRun at hplain
    rw [dropLastQualifiers, hplain]
    rfl
  unfold pointee?
  rw [hkept, List.reverse_append, List.reverse_singleton, List.singleton_append]
  split
  next front h =>
    exact absurd (List.cons.inj h).1 hc
  next =>
    rfl

/-!
# Types
-/

theorem isChar_unqualified (s : List Char) : isChar (unqualified s) = isChar s := by
  unfold isChar
  rw [unqualified_unqualified]

theorem stringType_unqualified (s : List Char) :
    stringType (unqualified s) = (stringType s).withoutConst := by
  unfold stringType
  rw [mentions_unqualified]
  cases mentions .const s <;> rfl

theorem typeOf_unqualified_array {s element bound : List Char} {gap : Blanks}
    (hs : trim s = element ++ (gap.text ++ '[' :: (bound ++ [']'])))
    (hbound : ∀ c ∈ bound, isBracket c = false) (hline : '\n' ∉ element) :
    typeOf s = .ptr (typeOf element) ∧
      typeOf (unqualified s) = .ptr (typeOf (unqualified element)) := by
  have hline' : '\n' ∉ unqualified element := by
    intro h
    rcases mem_of_mem_unqualified h with hspace | helement
    · exact absurd hspace (by decide)
    · exact hline helement
  have hgap : unqualified (element ++ gap.text) = unqualified element :=
    unqualified_congr (unqualifiedWords_append_of_blank_right gap.blank)
  rcases exists_unqualified_bracket (element ++ gap.text) (c := '[') (by decide) hbound with
    ⟨gap', bound', hunqualified, hbound'⟩
  constructor
  · rw [← typeOf_trim, hs]
    exact typeOf_append_array gap hbound hline
  · rw [← unqualified_congr (unqualifiedWords_trim s), hs, ← List.append_assoc, hunqualified,
      hgap]
    exact typeOf_append_array gap' hbound' hline'

theorem typeOf_unqualified_pointer {s pointee : List Char}
    (h : pointee? (trim s) = some pointee) :
    typeOf (unqualified s) = if isChar pointee then stringType (unqualified pointee)
      else .ptr (typeOf (unqualified pointee)) := by
  have hwords : unqualifiedWords s = unqualifiedWords (pointee ++ ['*']) := by
    rw [← unqualifiedWords_trim, (peeled_of_pointee? h).unqualifiedWords]
  rcases exists_unqualified_append_singleton pointee (c := '*') (isWordChar_of_mark (by decide))
    (by decide) with ⟨gap, hgap⟩
  rw [unqualified_congr hwords, hgap, ← isChar_unqualified pointee]
  exact typeOf_append_pointer (unqualified pointee) gap ⟨[], by simp⟩ .none

theorem not_mem_of_trim {s front back : List Char} {c : Char} (hs : trim s = front ++ back)
    (h : c ∉ s) : c ∉ front := by
  intro hfront
  apply h
  apply mem_of_mem_trim
  rw [hs]
  exact List.mem_append_left back hfront

/-- A closing bracket that ends no array ends none when the qualifiers are dropped. -/
theorem arrayElement?_unqualified_close {s : List Char} (hline : '\n' ∉ s)
    (h : arrayElement? (s ++ [']']) = none) :
    arrayElement? (unqualified (s ++ [']'])) = none := by
  rcases exists_lastBracket s with hplain | ⟨front, c, bound, rfl, hc, hbound⟩
  · rcases exists_unqualified_append_singleton s (c := ']') (isWordChar_of_mark (by decide))
      (by decide) with ⟨gap, hgap⟩
    rw [hgap, ← List.append_assoc]
    apply arrayElement?_append_of_plain
    intro c hc
    rcases List.mem_append.mp hc with hc | hc
    · exact isBracket_of_mem_unqualified hplain c hc
    · exact isBracket_of_isBlank (gap.blank c hc)
  · rw [List.append_assoc, List.cons_append] at h ⊢
    rcases exists_unqualified_bracket front hc hbound with ⟨gap, bound', hunqualified, hbound'⟩
    rw [hunqualified, ← List.append_assoc]
    rcases isBracket_iff.mp hc with rfl | rfl
    · -- Without a line feed the text would be an array.
      have hfront : ¬(trimEnd front).contains '\n' = true := by
        intro hmem
        rcases exists_trimEnd front with ⟨back, hback⟩
        apply hline
        rw [hback]
        simp [List.contains_iff_mem.mp hmem]
      rw [arrayElement?_append front hbound, if_neg hfront] at h
      cases h
    · exact arrayElement?_append_close _ hbound'

theorem typeOf_unqualified_base {s : List Char} (harray : arrayElement? (trim s) = none)
    (hpointee : pointee? (trim s) = none) (hline : '\n' ∉ s) (hbracket : ¬QualifiedBracket s) :
    typeOf (unqualified s) = baseType (unqualifiedWords s) := by
  have hpeeled := peeled_dropLastQualifiers (trim s).reverse
  rw [List.reverse_reverse] at hpeeled
  have hwords : unqualified s = unqualified (dropLastQualifiers (trim s).reverse).reverse := by
    apply unqualified_congr
    rw [← unqualifiedWords_trim, hpeeled.unqualifiedWords]
  have hlast := hpeeled.getLast? (getLast?_trim s)
  suffices h : arrayElement? (unqualified s) = none ∧ pointee? (unqualified s) = none by
    rw [typeOf_of_base, unqualifiedWords_trim, unqualifiedWords_unqualified]
    · rw [trim_unqualified]
      exact h.1
    · rw [trim_unqualified]
      exact h.2
  rcases List.eq_nil_or_concat (dropLastQualifiers (trim s).reverse).reverse with
    hnil | ⟨front, c, hconcat⟩
  · rw [hwords, hnil]
    exact ⟨rfl, pointee?_nil⟩
  · rw [List.concat_eq_append] at hconcat
    rw [hconcat] at hpeeled hwords hlast
    have hblank : isBlank c = false := hlast c (by simp)
    have hstar : c ≠ '*' := by
      rintro rfl
      rw [pointee?_of_dropLastQualifiers hconcat] at hpointee
      cases hpointee
    rcases exists_unqualified_concat hpeeled.endsPlainly hblank with ⟨kept, hkept⟩
    rw [hkept] at hwords
    have hplain := endsPlainly_of_dropQualifiers (dropQualifiers_unqualified s)
    rw [hwords] at hplain ⊢
    refine ⟨?_, pointee?_concat hplain hstar⟩
    by_cases hc : c = ']'
    · subst hc
      rcases qualifiedBracket_of_peeled hpeeled with hself | hqualified
      · rw [← hkept]
        rw [hself] at harray
        exact arrayElement?_unqualified_close (not_mem_of_trim hself hline) harray
      · exact absurd hqualified.of_trim hbracket
    · exact arrayElement?_append_singleton kept hc

/-- A spelling keeps to its front what it says of qualifiers behind brackets, if no word
goes on there. -/
theorem not_qualifiedBracket_of_trim {s front back : List Char} (hs : trim s = front ++ back)
    (hback : ∀ c ∈ back.head?, isWordChar c = false) (h : ¬QualifiedBracket s) :
    ¬QualifiedBracket front := by
  intro hfront
  apply h
  apply QualifiedBracket.of_trim
  rw [hs]
  exact hfront.append [] hback

theorem exists_pointer_of_pointee? {s pointee : List Char} (h : pointee? s = some pointee) :
    ∃ back, s = pointee ++ '*' :: back := by
  rcases (peeled_of_pointee? h).exists_qualifier with hself | ⟨gap, q, back, hs, _⟩
  · exact ⟨[], hself⟩
  · exact ⟨gap.text ++ (q.word ++ back), by simp [hs]⟩

theorem typeOf_unqualified {s : List Char} (hline : '\n' ∉ s) (hbracket : ¬QualifiedBracket s) :
    typeOf (unqualified s) = (typeOf s).withoutConst := by
  have hmarks : isWordChar '*' = false ∧ isWordChar '[' = false :=
    ⟨isWordChar_of_mark (by decide), isWordChar_of_mark (by decide)⟩
  -- By the recursion of the type map: one suffix less each time, down to the base.
  induction s using typeOf.induct with
  | case1 s element helement ih =>
      rcases exists_array_of_arrayElement? helement with ⟨gap, bound, hs, hbound⟩
      have hback : ∀ c ∈ (gap.text ++ '[' :: (bound ++ [']'])).head?, isWordChar c = false := by
        apply head?_blanks_append gap
        simpa using hmarks.2
      have hline' := not_mem_of_trim hs hline
      rcases typeOf_unqualified_array hs hbound hline' with ⟨htype, htype'⟩
      rw [htype, htype', ih hline' (not_qualifiedBracket_of_trim hs hback hbracket)]
      rfl
  | case2 s harray pointee hpointee hchar =>
      rw [typeOf_unqualified_pointer hpointee, typeOf_of_pointee? harray hpointee, if_pos hchar,
        if_pos hchar, stringType_unqualified]
  | case3 s harray pointee hpointee hchar ih =>
      rcases exists_pointer_of_pointee? hpointee with ⟨back, hs⟩
      have hbracket' : ¬QualifiedBracket pointee :=
        not_qualifiedBracket_of_trim hs (by simpa using hmarks.1) hbracket
      rw [typeOf_unqualified_pointer hpointee, typeOf_of_pointee? harray hpointee, if_neg hchar,
        if_neg hchar, ih (not_mem_of_trim hs hline) hbracket']
      rfl
  | case4 s harray hpointee =>
      rw [typeOf_of_base harray hpointee, withoutConst_baseType, unqualifiedWords_trim,
        typeOf_unqualified_base harray hpointee hline hbracket]

end Spelling

namespace ForeignType

open Spelling Text

/-- Without its qualifiers and with single spaces, a spelling means the type it meant, but
for the `const` of a C string. -/
theorem ofSpelling_unqualified (s : String) (hline : '\n' ∉ s.toList)
    (h : ¬QualifiedBracket s.toList) :
    ofSpelling (String.ofList (unqualified s.toList)) = (ofSpelling s).withoutConst := by
  unfold ofSpelling
  rw [String.toList_ofList]
  exact typeOf_unqualified hline h

/-- Qualifiers around the base, in a bound and behind each star. -/
theorem ofSpelling_unqualified_constCString :
    let s := "volatile char\tconst *const[const 3] * __restrict  volatile "
    '\n' ∉ s.toList ∧ ¬QualifiedBracket s.toList ∧
      unqualified s.toList = "char *[ 3] *".toList ∧
      ofSpelling (String.ofList (unqualified s.toList)) = .ptr (.ptr .cstring) := by
  intro s
  have hline : '\n' ∉ s.toList := by
    decide
  have hbracket : ¬QualifiedBracket s.toList := by
    decide +kernel
  have htype : ofSpelling s = .ptr (.ptr .constCString) := by
    decide +kernel
  refine ⟨hline, hbracket, by decide +kernel, ?_⟩
  rw [ofSpelling_unqualified s hline hbracket, htype]
  rfl

end ForeignType
end HeaderBinding
