import HeaderBinding.Proofs.Spelling.Qualifier
import HeaderBinding.Spelling.TypeMap

/-!
# Declarator suffixes

A derived type is spelled by its base and a sequence of suffixes, one for each pointer
or array, innermost first. The type of such a spelling is that of its base behind as
many pointers as there are suffixes. Only a first pointer to `char` is no pointer.
-/

namespace HeaderBinding
namespace Spelling

open Text

/-!
# The text of a suffix
-/

/-- Qualifiers behind a star. The first one may stand right behind it, the others are
apart from each other. -/
structure PointerQualifiers where
  items : List (Blanks × Qualifier)
  apart : ∀ item ∈ items.tail, item.1.text ≠ []

def qualifierText (items : List (Blanks × Qualifier)) : List Char :=
  items.flatMap fun item => item.1.text ++ item.2.word

inductive Suffix where
  | pointer (before : Blanks) (qualifiers : PointerQualifiers) (after : Blanks)
  | array (before : Blanks) (bound : List Char) (plain : ∀ c ∈ bound, isBracket c = false)

namespace Suffix

def text : Suffix → List Char
  | pointer before qualifiers after =>
      before.text ++ '*' :: (qualifierText qualifiers.items ++ after.text)
  | array before bound _ => before.text ++ '[' :: (bound ++ [']'])

end Suffix

def suffixText (suffixes : List Suffix) : List Char :=
  suffixes.flatMap Suffix.text

/-!
# The type that suffixes build
-/

/-- A type behind so many pointers. -/
def behind : Nat → ForeignType → ForeignType
  | 0, t => t
  | n + 1, t => behind n (.ptr t)

/-- The type that a base and its first suffix spell. A pointer to `char` is a C string,
a constant one if the base mentions `const`. -/
def innermost (base : List Char) : Suffix → ForeignType
  | .pointer _ _ _ =>
      if lowerCase (unqualified base) = charWord then
        if mentions .const base then .constCString else .cstring
      else .ptr (typeOf base)
  | .array _ _ _ => .ptr (typeOf base)

def derived (base : List Char) : List Suffix → ForeignType
  | [] => typeOf base
  | first :: others => behind others.length (innermost base first)

/-!
# The type map, suffix by suffix
-/

theorem typeOf_of_arrayElement? {s element : List Char}
    (harray : arrayElement? (trim s) = some element) : typeOf s = .ptr (typeOf element) := by
  rw [typeOf]
  split
  next element' h =>
    rw [harray] at h
    cases h
    rfl
  next h =>
    rw [harray] at h
    cases h

theorem typeOf_of_pointee? {s pointee : List Char} (harray : arrayElement? (trim s) = none)
    (hpointee : pointee? (trim s) = some pointee) :
    typeOf s = if isChar pointee then stringType pointee else .ptr (typeOf pointee) := by
  rw [typeOf]
  split
  next element h =>
    rw [harray] at h
    cases h
  next =>
    split
    next pointee' h =>
      rw [hpointee] at h
      cases h
      rfl
    next h =>
      rw [hpointee] at h
      cases h

theorem typeOf_of_base {s : List Char} (harray : arrayElement? (trim s) = none)
    (hpointee : pointee? (trim s) = none) :
    typeOf s = baseType (unqualifiedWords (trim s)) := by
  rw [typeOf]
  split
  next element h =>
    rw [harray] at h
    cases h
  next =>
    split
    next pointee h =>
      rw [hpointee] at h
      cases h
    next =>
      rfl

/-!
# Blanks around a spelling
-/

theorem typeOf_trim (s : List Char) : typeOf (trim s) = typeOf s := by
  rw [typeOf, typeOf, trim_trim]

theorem typeOf_append_of_blank {s t : List Char} (h : ∀ c ∈ t, isBlank c = true) :
    typeOf (s ++ t) = typeOf s := by
  rw [← typeOf_trim, trim_append_of_blank h, typeOf_trim]

theorem typeOf_trimStart (s : List Char) : typeOf (trimStart s) = typeOf s := by
  rw [← typeOf_trim, trim, trimStart_trimStart, ← trim, typeOf_trim]

theorem isChar_append_of_blank {s t : List Char} (h : ∀ c ∈ t, isBlank c = true) :
    isChar (s ++ t) = isChar s := by
  unfold isChar unqualified
  rw [unqualifiedWords_append_of_blank_right h]

theorem isChar_trimStart (s : List Char) : isChar (trimStart s) = isChar s := by
  rcases exists_trimStart s with ⟨front, hfront⟩
  unfold isChar unqualified
  conv =>
    rhs
    rw [hfront, unqualifiedWords_append_of_blank_left front.blank]

theorem stringType_append_of_blank {s t : List Char} (h : ∀ c ∈ t, isBlank c = true) :
    stringType (s ++ t) = stringType s := by
  unfold stringType
  rw [mentions_append_of_blank_right _ h]

theorem stringType_trimStart (s : List Char) : stringType (trimStart s) = stringType s := by
  rcases exists_trimStart s with ⟨front, hfront⟩
  unfold stringType
  conv =>
    rhs
    rw [hfront, mentions_append_of_blank_left _ front.blank]

/-!
# Qualifiers behind a star
-/

/-- A whole qualifier at the end of a spelling, which is the front of a reversed one. -/
theorem dropLastQualifiers_word (q : Qualifier) {rest : List Char}
    (h : ∀ c ∈ rest.head?, isWordChar c = false) :
    dropLastQualifiers (q.word.reverse ++ rest) =
      dropLastQualifiers (rest.dropWhile isBlank) := by
  have hword : ∀ c ∈ q.word.reverse, isWordChar c = true := by
    intro c hc
    exact Qualifier.isWordChar_of_mem_word (List.mem_reverse.mp hc)
  have hrest : rest.takeWhile isWordChar = [] ∧ rest.dropWhile isWordChar = rest := by
    cases rest with
    | nil =>
        exact ⟨rfl, rfl⟩
    | cons c rest =>
        have hc : isWordChar c = false := h c rfl
        constructor
        · simp [hc]
        · simp [hc]
  rw [dropLastQualifiers]
  rw [List.takeWhile_append_of_pos hword, List.dropWhile_append_of_pos hword, hrest.1,
    hrest.2, List.append_nil, List.reverse_reverse, isQualifier_word]
  rfl

theorem dropLastQualifiers_star (front : List Char) :
    dropLastQualifiers ('*' :: front) = '*' :: front := by
  have hstar : isWordChar '*' = false := isWordChar_of_mark (by decide)
  have hempty : isQualifier [] = false := by decide
  rw [dropLastQualifiers]
  simp [hstar, hempty]

theorem reverse_qualifierText (items : List (Blanks × Qualifier)) :
    (qualifierText items).reverse =
      items.reverse.flatMap fun item => item.2.word.reverse ++ item.1.text.reverse := by
  induction items with
  | nil =>
      rfl
  | cons item items ih =>
      unfold qualifierText at ih ⊢
      simp [List.flatMap_append, ih]

/-- The qualifiers of a pointer are taken off one after the other, the last one first,
until the star is uncovered. -/
theorem dropLastQualifiers_items (front : List Char) (items : List (Blanks × Qualifier))
    (h : ∀ item ∈ items.dropLast, item.1.text ≠ []) :
    dropLastQualifiers
        (items.flatMap (fun item => item.2.word.reverse ++ item.1.text.reverse) ++
          '*' :: front) = '*' :: front := by
  induction items with
  | nil =>
      exact dropLastQualifiers_star front
  | cons item items ih =>
      rcases item with ⟨gap, q⟩
      have hgap : ∀ c ∈ gap.text.reverse, isBlank c = true := by
        intro c hc
        exact gap.blank c (List.mem_reverse.mp hc)
      have hstar : isBlank '*' = false ∧ isWordChar '*' = false :=
        ⟨by decide, isWordChar_of_mark (by decide)⟩
      rw [List.flatMap_cons, List.append_assoc, List.append_assoc,
        dropLastQualifiers_word, List.dropWhile_append_of_pos hgap]
      · cases items with
        | nil =>
            simpa [hstar.1] using dropLastQualifiers_star front
        | cons next items =>
            have hrest := ih fun item hitem => h item (by simp [hitem])
            rw [List.flatMap_cons] at hrest ⊢
            cases hw : next.2.word.reverse with
            | nil =>
                exact absurd (List.reverse_eq_nil_iff.mp hw) next.2.word_ne_nil
            | cons c word =>
                have hc : isWordChar c = true := by
                  apply Qualifier.isWordChar_of_mem_word (q := next.2)
                  rw [← List.mem_reverse, hw]
                  exact List.mem_cons_self
                rw [hw] at hrest
                simpa [isBlank_of_isWordChar hc] using hrest
      · intro c hc
        cases hg : gap.text.reverse with
        | cons d rest =>
            rw [hg] at hc hgap
            cases hc
            exact isWordChar_of_isBlank (hgap c List.mem_cons_self)
        | nil =>
            cases items with
            | nil =>
                rw [hg] at hc
                cases hc
                exact hstar.2
            | cons next items =>
                have hne := h (gap, q) (by simp)
                exact absurd (List.reverse_eq_nil_iff.mp hg) hne

theorem dropLastQualifiers_qualifierText (front : List Char) (qs : PointerQualifiers) :
    dropLastQualifiers ((qualifierText qs.items).reverse ++ '*' :: front) =
      '*' :: front := by
  rw [reverse_qualifierText]
  apply dropLastQualifiers_items
  intro item hitem
  rw [List.dropLast_reverse, List.mem_reverse] at hitem
  exact qs.apart item hitem

/-- What follows a star ends neither in a blank nor in a bracket. -/
theorem getLast?_star_qualifierText (items : List (Blanks × Qualifier)) :
    ∃ front c, '*' :: qualifierText items = front ++ [c] ∧ isBlank c = false ∧ c ≠ ']' := by
  rcases List.eq_nil_or_concat items with rfl | ⟨init, ⟨gap, q⟩, rfl⟩
  · exact ⟨[], '*', rfl, by decide, by decide⟩
  · rcases List.eq_nil_or_concat q.word with hnil | ⟨front, c, hword⟩
    · exact absurd hnil q.word_ne_nil
    · have hc : isWordChar c = true := by
        apply Qualifier.isWordChar_of_mem_word (q := q)
        simp [hword]
      refine ⟨'*' :: qualifierText init ++ gap.text ++ front, c, ?_, ?_, ?_⟩
      · simp [qualifierText, hword]
      · exact isBlank_of_isWordChar hc
      · rintro rfl
        rw [isWordChar_of_mark (by decide)] at hc
        cases hc

/-!
# One suffix
-/

/-- Read from its end, a text that ends in a bracketed piece comes to the last bracket
before the closing one. -/
theorem reverse_append_bracket (front : List Char) {c : Char} {bound : List Char}
    (hc : isBracket c = true) (hbound : ∀ d ∈ bound, isBracket d = false) :
    ∃ rest, (front ++ c :: (bound ++ [']'])).reverse = ']' :: rest ∧
      rest.dropWhile (fun d => !isBracket d) = c :: front.reverse := by
  have hplain : ∀ d ∈ bound.reverse, (!isBracket d) = true := by
    intro d hd
    simp [hbound d (List.mem_reverse.mp hd)]
  refine ⟨bound.reverse ++ c :: front.reverse, by simp, ?_⟩
  rw [List.dropWhile_append_of_pos hplain]
  simp [hc]

theorem arrayElement?_append (front : List Char) {bound : List Char}
    (hbound : ∀ c ∈ bound, isBracket c = false) :
    arrayElement? (front ++ '[' :: (bound ++ [']'])) =
      if (trimEnd front).contains '\n' then none else some (trimEnd front) := by
  rcases reverse_append_bracket front (c := '[') (by decide) hbound with
    ⟨rest, hreverse, hdrop⟩
  unfold arrayElement?
  rw [hreverse]
  simp only [hdrop]
  rfl

theorem arrayElement?_append_singleton (front : List Char) {c : Char} (hc : c ≠ ']') :
    arrayElement? (front ++ [c]) = none := by
  unfold arrayElement?
  rw [List.reverse_append, List.reverse_singleton, List.singleton_append]
  split
  next rest h =>
    exact absurd (List.cons.inj h).1 hc
  next =>
    rfl

theorem pointee?_append (front : List Char) (qs : PointerQualifiers) :
    pointee? (front ++ '*' :: qualifierText qs.items) = some front := by
  unfold pointee?
  rw [List.reverse_append, List.reverse_cons, List.append_assoc, List.singleton_append,
    dropLastQualifiers_qualifierText]
  simp

theorem typeOf_append_array {base bound : List Char} (before : Blanks)
    (hbound : ∀ c ∈ bound, isBracket c = false) (hline : '\n' ∉ base) :
    typeOf (base ++ (before.text ++ '[' :: (bound ++ [']']))) = .ptr (typeOf base) := by
  have htrim : trim (base ++ (before.text ++ '[' :: (bound ++ [']']))) =
      trimStart (base ++ before.text) ++ '[' :: (bound ++ [']']) := by
    unfold trim
    rw [← List.append_assoc, trimStart_append_cons _ _ (by decide), ← List.cons_append,
      ← List.append_assoc, trimEnd_append_cons _ _ (by decide)]
    rfl
  have hline' : ¬(trim base).contains '\n' = true := by
    intro h
    exact hline (mem_of_mem_trim (List.contains_iff_mem.mp h))
  have helement : arrayElement? (trim (base ++ (before.text ++ '[' :: (bound ++ [']'])))) =
      some (trim base) := by
    rw [htrim, arrayElement?_append _ hbound, ← trim, trim_append_of_blank before.blank,
      if_neg hline']
  rw [typeOf_of_arrayElement? helement, typeOf_trim]

theorem typeOf_append_pointer (base : List Char) (before : Blanks) (qs : PointerQualifiers)
    (after : Blanks) :
    typeOf (base ++ (before.text ++ '*' :: (qualifierText qs.items ++ after.text))) =
      if isChar base then stringType base else .ptr (typeOf base) := by
  rcases getLast?_star_qualifierText qs.items with ⟨front, c, hlast, hblank, hbracket⟩
  have htrim : trim (base ++ (before.text ++ '*' :: (qualifierText qs.items ++ after.text))) =
      trimStart (base ++ before.text) ++ '*' :: qualifierText qs.items := by
    unfold trim
    rw [← List.append_assoc, trimStart_append_cons _ _ (by decide), ← List.cons_append,
      ← List.append_assoc, trimEnd_append_of_blank after.blank, hlast,
      ← List.append_assoc, trimEnd_append_cons _ _ hblank]
    rfl
  have hnone : arrayElement?
      (trim (base ++ (before.text ++ '*' :: (qualifierText qs.items ++ after.text)))) =
        none := by
    rw [htrim, hlast, ← List.append_assoc, arrayElement?_append_singleton _ hbracket]
  have hsome : pointee?
      (trim (base ++ (before.text ++ '*' :: (qualifierText qs.items ++ after.text)))) =
        some (trimStart (base ++ before.text)) := by
    rw [htrim, pointee?_append]
  rw [typeOf_of_pointee? hnone hsome, isChar_trimStart, isChar_append_of_blank before.blank,
    stringType_trimStart, stringType_append_of_blank before.blank, typeOf_trimStart,
    typeOf_append_of_blank before.blank]

/-- A derived type is not `char`: its suffix holds a star or a bracket. -/
theorem isChar_append_suffix (base : List Char) (s : Suffix) :
    isChar (base ++ s.text) = false := by
  have hmark : ∃ c ∈ base ++ s.text, c = '*' ∨ c = '[' := by
    cases s with
    | pointer before qualifiers after =>
        exact ⟨'*', by simp [Suffix.text], Or.inl rfl⟩
    | array before bound plain =>
        exact ⟨'[', by simp [Suffix.text], Or.inr rfl⟩
  rcases hmark with ⟨c, hc, hcase⟩
  have hkinds : isWordChar c = false ∧ isBlank c = false ∧ c.toLower ∉ charWord := by
    rcases hcase with rfl | rfl
    · exact ⟨isWordChar_of_mark (by decide), by decide, by decide⟩
    · exact ⟨isWordChar_of_mark (by decide), by decide, by decide⟩
  have hdrop := mem_dropQualifiers hc hkinds.1
  have hunqualified : c ∈ unqualified (base ++ s.text) :=
    mem_joinWords (mem_flatten_words hdrop hkinds.2.1)
  have hlower : c.toLower ∈ lowerCase (unqualified (base ++ s.text)) :=
    List.mem_map_of_mem hunqualified
  unfold isChar
  rw [decide_eq_false_iff_not]
  intro h
  rw [h] at hlower
  exact hkinds.2.2 hlower

/-!
# All suffixes
-/

theorem typeOf_append_suffix (base : List Char) (s : Suffix)
    (h : '\n' ∉ base ++ s.text) : typeOf (base ++ s.text) = innermost base s := by
  cases s with
  | pointer before qualifiers after =>
      have h := typeOf_append_pointer base before qualifiers after
      simp only [isChar, stringType, decide_eq_true_eq] at h
      exact h
  | array before bound plain =>
      apply typeOf_append_array before plain
      intro hbase
      exact h (List.mem_append_left _ hbase)

theorem typeOf_append_suffixText (base : List Char) (suffixes : List Suffix)
    (h : '\n' ∉ base ++ suffixText suffixes) :
    typeOf (base ++ suffixText suffixes) = derived base suffixes := by
  induction suffixes generalizing base with
  | nil =>
      rw [suffixText, List.flatMap_nil, List.append_nil]
      rfl
  | cons first others ih =>
      have hsplit : base ++ suffixText (first :: others) =
          (base ++ first.text) ++ suffixText others := by
        rw [suffixText, List.flatMap_cons, List.append_assoc]
        rfl
      rw [hsplit] at h ⊢
      have hfirst : '\n' ∉ base ++ first.text := by
        intro hmem
        exact h (List.mem_append_left _ hmem)
      rw [ih (base ++ first.text) h]
      cases others with
      | nil =>
          exact typeOf_append_suffix base first hfirst
      | cons second others =>
          have hsecond : innermost (base ++ first.text) second =
              .ptr (typeOf (base ++ first.text)) := by
            cases second with
            | pointer before qualifiers after =>
                have hchar := isChar_append_suffix base first
                unfold isChar at hchar
                rw [decide_eq_false_iff_not] at hchar
                exact if_neg hchar
            | array before bound plain =>
                rfl
          calc
            derived (base ++ first.text) (second :: others) =
                behind others.length (innermost (base ++ first.text) second) := rfl
            _ = behind others.length (.ptr (typeOf (base ++ first.text))) := by
              rw [hsecond]
            _ = behind others.length (.ptr (innermost base first)) := by
              rw [typeOf_append_suffix base first hfirst]
            _ = derived base (first :: second :: others) := rfl

end Spelling

namespace ForeignType

open Spelling Text

/-- The type of a spelling with suffixes: one pointer for each of them over the type of
the base, but for a first pointer to `char`, which makes a C string. -/
theorem ofSpelling_append_suffixes (base : String) (suffixes : List Suffix)
    (h : '\n' ∉ base.toList ++ suffixText suffixes) :
    ofSpelling (base ++ String.ofList (suffixText suffixes)) =
      derived base.toList suffixes := by
  unfold ofSpelling
  rw [String.toList_append, String.toList_ofList]
  exact typeOf_append_suffixText base.toList suffixes h

/-- `const char *const restrict [3] *`, an array of pointers to constant text behind a
pointer. -/
theorem ofSpelling_append_suffixes_constCString :
    let space : Blanks := ⟨[' '], List.all_eq_true.mp rfl⟩
    let none : Blanks := ⟨[], List.all_eq_true.mp rfl⟩
    let suffixes : List Suffix :=
      [ .pointer space ⟨[(none, .const), (space, .restrict)], by decide⟩ space,
        .array none ['3'] (List.forall_mem_singleton.mpr rfl),
        .pointer space ⟨[], by decide⟩ none ]
    '\n' ∉ "const char".toList ++ suffixText suffixes ∧
      ofSpelling ("const char" ++ String.ofList (suffixText suffixes)) =
        .ptr (.ptr .constCString) := by
  intro space none suffixes
  have hline : '\n' ∉ "const char".toList ++ suffixText suffixes := by
    decide
  refine ⟨hline, ?_⟩
  rw [ofSpelling_append_suffixes "const char" suffixes hline]
  decide +kernel

end ForeignType
end HeaderBinding
