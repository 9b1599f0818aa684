import Mathlib
import HeaderBinding.Proofs.Spelling.Integer

/-!
# Spellings in upper and lower case

Qualifiers are the only words whose case matters to a type. So a spelling without qualifiers, in
whatever case they might be written, means the same in lower case, but for the case of an opaque
name. And an opaque name keeps the letters of its spelling.
-/

namespace HeaderBinding

/-- The type with its opaque name, if it has one, in lower case. -/
def ForeignType.ignoringCase : ForeignType → ForeignType
  | ptr target => ptr target.ignoringCase
  | named name => named (String.ofList (lowerCase name.toList))
  | t => t

namespace Text

/-!
# Letters

A character that changes with its case is a letter, and so it is part of a word before and after.
-/

theorem toLower_cases (c : Char) :
    c.toLower = c ∨ isWordChar c = true ∧ isWordChar c.toLower = true := by
  by_cases hupper : c.isUpper = true
  · right
    have halpha : c.isAlpha = true := by
      rw [Char.isAlpha, hupper, Bool.true_or]
    have hlower : c.toLower.isLower = true := by
      rw [Char.isLower_toLower_eq_isAlpha, halpha]
    refine ⟨IntegerKeyword.isWordChar_of_isLower_toLower hlower, ?_⟩
    apply IntegerKeyword.isWordChar_of_isLower_toLower
    rw [Char.toLower_toLower_eq_toLower, hlower]
  · left
    exact Char.toLower_eq_of_not_isUpper hupper

theorem isWordChar_toLower (c : Char) : isWordChar c.toLower = isWordChar c := by
  rcases toLower_cases c with hsame | ⟨hc, hlower⟩
  · rw [hsame]
  · rw [hc, hlower]

theorem isBlank_toLower (c : Char) : isBlank c.toLower = isBlank c := by
  rcases toLower_cases c with hsame | ⟨hc, hlower⟩
  · rw [hsame]
  · rw [isBlank_of_isWordChar hc, isBlank_of_isWordChar hlower]

theorem toLower_eq_iff {c mark : Char} (hmark : isWordChar mark = false) :
    c.toLower = mark ↔ c = mark := by
  rcases toLower_cases c with hsame | ⟨hc, hlower⟩
  · rw [hsame]
  · constructor
    · rintro rfl
      rw [hlower] at hmark
      cases hmark
    · rintro rfl
      rw [hc] at hmark
      cases hmark

/-!
# Texts
-/

theorem lowerCase_append (s t : List Char) : lowerCase (s ++ t) = lowerCase s ++ lowerCase t :=
  List.map_append

theorem lowerCase_lowerCase (s : List Char) : lowerCase (lowerCase s) = lowerCase s := by
  have hidem : Char.toLower ∘ Char.toLower = Char.toLower :=
    funext Char.toLower_toLower_eq_toLower
  rw [lowerCase, lowerCase, List.map_map, hidem]

theorem blank_lowerCase {s : List Char} (h : ∀ c ∈ s, isBlank c = true) :
    ∀ c ∈ lowerCase s, isBlank c = true := by
  intro c hc
  rcases List.mem_map.mp hc with ⟨d, hd, rfl⟩
  rw [isBlank_toLower, h d hd]

theorem dropWhile_lowerCase {p : Char → Bool} (hp : ∀ c : Char, p c.toLower = p c)
    (s : List Char) : (lowerCase s).dropWhile p = lowerCase (s.dropWhile p) := by
  have hsame : p ∘ Char.toLower = p := funext hp
  rw [lowerCase, List.dropWhile_map, hsame]
  rfl

theorem reverse_lowerCase (s : List Char) : (lowerCase s).reverse = lowerCase s.reverse :=
  List.map_reverse.symm

theorem trim_lowerCase (s : List Char) : trim (lowerCase s) = lowerCase (trim s) := by
  rw [trim, trimStart, trimEnd, dropWhile_lowerCase isBlank_toLower, reverse_lowerCase,
    dropWhile_lowerCase isBlank_toLower, reverse_lowerCase]
  rfl

theorem words_lowerCase (s : List Char) : words (lowerCase s) = (words s).map lowerCase := by
  induction s using blankInduction with
  | nil =>
      rfl
  | blank c s hc ih =>
      have hlower : isBlank c.toLower = true := (isBlank_toLower c).trans hc
      rw [words_cons_of_blank s hc, ← ih]
      exact words_cons_of_blank (lowerCase s) hlower
  | word w s hne hw hs ih =>
      rw [lowerCase_append, words_append_of_not_blank hne hw hs, words_append_of_not_blank, ih,
        List.map_cons]
      · simpa [lowerCase] using hne
      · intro c hc
        rcases List.mem_map.mp hc with ⟨d, hd, rfl⟩
        rw [isBlank_toLower, hw d hd]
      · intro c hc
        rw [lowerCase, List.head?_map] at hc
        rcases Option.map_eq_some_iff.mp hc with ⟨d, hd, rfl⟩
        rw [isBlank_toLower, hs d hd]

theorem joinWords_lowerCase (ws : List (List Char)) :
    joinWords (ws.map lowerCase) = lowerCase (joinWords ws) := by
  induction ws with
  | nil =>
      rfl
  | cons w ws ih =>
      cases ws with
      | nil =>
          rw [List.map_singleton, joinWords, joinWords, List.intercalate_singleton,
            List.intercalate_singleton]
      | cons v ws =>
          rw [List.map_cons, List.map_cons, joinWords_cons_cons, joinWords_cons_cons,
            lowerCase_append, ← List.map_cons, ih]
          rfl

theorem runs_lowerCase (s : List Char) : runs (lowerCase s) = (runs s).map lowerCase := by
  induction s with
  | nil =>
      rfl
  | cons c s ih =>
      cases s with
      | nil =>
          rfl
      | cons d s =>
          rcases runs_cons d s with ⟨run, more, hruns⟩
          have hlower : runs (lowerCase (d :: s)) =
              (d.toLower :: lowerCase run) :: more.map lowerCase := by
            rw [ih, hruns]
            rfl
          have hstep : lowerCase (c :: d :: s) = c.toLower :: lowerCase (d :: s) := rfl
          rw [hstep, runs, hlower, runs, hruns]
          simp only [isWordChar_toLower]
          split <;>
            rfl

/-!
# Texts without their blanks
-/

def solid (s : List Char) : List Char :=
  s.filter fun c => !isBlank c

theorem solid_append (s t : List Char) : solid (s ++ t) = solid s ++ solid t :=
  List.filter_append s t

theorem solid_of_blank {s : List Char} (h : ∀ c ∈ s, isBlank c = true) : solid s = [] := by
  apply List.filter_eq_nil_iff.mpr
  intro c hc
  simp [h c hc]

theorem solid_of_not_blank {s : List Char} (h : ∀ c ∈ s, isBlank c = false) : solid s = s := by
  apply List.filter_eq_self.mpr
  intro c hc
  simp [h c hc]

theorem solid_trim (s : List Char) : solid (trim s) = solid s := by
  rcases exists_trim s with ⟨front, back, hs⟩
  conv =>
    rhs
    rw [hs, solid_append, solid_append, solid_of_blank front.blank, solid_of_blank back.blank,
      List.append_nil, List.nil_append]

theorem flatten_words (s : List Char) : (words s).flatten = solid s := by
  induction s using blankInduction with
  | nil =>
      rfl
  | blank c s hc ih =>
      rw [words_cons_of_blank s hc, ih]
      simp [solid, hc]
  | word w s hne hw hs ih =>
      rw [words_append_of_not_blank hne hw hs, List.flatten_cons, ih, solid_append,
        solid_of_not_blank hw]

theorem solid_joinWords {ws : List (List Char)} (h : AreWords ws) :
    solid (joinWords ws) = ws.flatten := by
  rw [← flatten_words, words_joinWords h]

end Text

namespace Spelling

open Text

/-!
# Spellings without qualifiers
-/

/-- Whether a spelling has no qualifiers, in whatever case they might be written. -/
def Bare (s : List Char) : Prop :=
  ∀ word ∈ runs s, ∀ q : Qualifier, lowerCase word ≠ q.word

instance : DecidablePred Bare := fun s =>
  decidable_of_iff (∀ word ∈ runs s, ∀ q ∈ Qualifier.all, lowerCase word ≠ q.word) <| by
    have hall : ∀ q : Qualifier, q ∈ Qualifier.all := by
      intro q
      cases q <;>
        decide
    exact ⟨fun h word hword q => h word hword q (hall q),
      fun h word hword q _ => h word hword q⟩

theorem bare_iff {s : List Char} :
    Bare s ↔ ∀ q : Qualifier, mentions q (lowerCase s) = false := by
  unfold Bare mentions
  rw [runs_lowerCase]
  simp only [List.any_map, List.any_eq_false, Function.comp_apply, decide_eq_true_eq]
  exact ⟨fun h q word hword => h word hword q, fun h word hword q => h q word hword⟩

theorem lowerCase_word (q : Qualifier) : lowerCase q.word = q.word := by
  cases q <;>
    decide

theorem Bare.lowerCase {s : List Char} (h : Bare s) : Bare (lowerCase s) := by
  rw [bare_iff, lowerCase_lowerCase, ← bare_iff]
  exact h

theorem Bare.of_append {s t : List Char} (h : Bare (s ++ t))
    (ht : ∀ c ∈ t.head?, isWordChar c = false) : Bare s := by
  cases t with
  | nil =>
      rw [List.append_nil] at h
      exact h
  | cons c t =>
      have hc : isWordChar c.toLower = false := (isWordChar_toLower c).trans (ht c rfl)
      rw [bare_iff] at h ⊢
      intro q
      have hq := h q
      rw [lowerCase_append] at hq
      change mentions q (HeaderBinding.lowerCase s ++ c.toLower :: HeaderBinding.lowerCase t) =
        false at hq
      rw [mentions_append_cons q _ _ hc, Bool.or_eq_false_iff] at hq
      exact hq.1

theorem Bare.trim {s : List Char} (h : Bare s) : Bare (trim s) := by
  rcases exists_trim s with ⟨front, back, hs⟩
  rw [bare_iff] at h ⊢
  intro q
  have hq := h q
  rw [hs, lowerCase_append, lowerCase_append,
    mentions_append_of_blank_right q (blank_lowerCase back.blank),
    mentions_append_of_blank_left q (blank_lowerCase front.blank)] at hq
  exact hq

theorem Bare.mentions {s : List Char} (h : Bare s) (q : Qualifier) : mentions q s = false := by
  apply List.any_eq_false.mpr
  intro word hword heq
  apply h word hword q
  rw [of_decide_eq_true heq, lowerCase_word]

theorem Bare.dropQualifiers {s : List Char} (h : Bare s) : dropQualifiers s = s := by
  have hkept : ∀ word ∈ runs s, (!isQualifier word) = true := by
    intro word hword
    rw [Bool.not_eq_true']
    apply Bool.eq_false_iff.mpr
    intro hq
    rcases Option.isSome_iff_exists.mp hq with ⟨q, hof⟩
    have hnone := List.any_eq_false.mp (h.mentions q) word hword
    exact hnone (decide_eq_true (Qualifier.word_of_ofWord? hof).symm)
  rw [Spelling.dropQualifiers, List.filter_eq_self.mpr hkept, flatten_runs]

theorem Bare.unqualifiedWords {s : List Char} (h : Bare s) : unqualifiedWords s = words s := by
  rw [Spelling.unqualifiedWords, h.dropQualifiers]

theorem dropLastQualifiers_of_endsPlainly {s : List Char} (h : EndsPlainly s) :
    dropLastQualifiers s.reverse = s.reverse := by
  unfold EndsPlainly lastRun at h
  rw [dropLastQualifiers, h]
  rfl

/-!
# Arrays and pointers in lower case
-/

theorem isBracket_toLower (c : Char) : isBracket c.toLower = isBracket c := by
  rw [Bool.eq_iff_iff, isBracket_iff, isBracket_iff,
    toLower_eq_iff (isWordChar_of_mark (by decide)),
    toLower_eq_iff (isWordChar_of_mark (by decide))]

theorem mem_lowerCase_iff {s : List Char} {mark : Char} (hmark : isWordChar mark = false) :
    mark ∈ lowerCase s ↔ mark ∈ s := by
  constructor
  · intro h
    rcases List.mem_map.mp h with ⟨c, hc, heq⟩
    rw [← (toLower_eq_iff hmark).mp heq]
    exact hc
  · intro h
    exact List.mem_map.mpr ⟨mark, h, (toLower_eq_iff hmark).mpr rfl⟩

/-- A bare spelling is a pointer exactly if it ends in a star. -/
theorem pointee?_of_bare {s : List Char} (h : Bare s) :
    pointee? s =
      match s.reverse with
      | '*' :: front => some front.reverse
      | _ => none := by
  have hend : dropLastQualifiers s.reverse = s.reverse :=
    dropLastQualifiers_of_endsPlainly (endsPlainly_of_dropQualifiers h.dropQualifiers)
  exact congrArg (fun front => match front with
    | '*' :: front => some front.reverse
    | _ => none) hend

theorem pointee?_lowerCase {s : List Char} (h : Bare s) :
    pointee? (lowerCase s) = (pointee? s).map lowerCase := by
  have hstar : ∀ c : Char, c.toLower = '*' ↔ c = '*' := fun c =>
    toLower_eq_iff (isWordChar_of_mark (by decide))
  rw [pointee?_of_bare h, pointee?_of_bare h.lowerCase, reverse_lowerCase]
  cases s.reverse with
  | nil =>
      rfl
  | cons c front =>
      by_cases hc : c = '*'
      · subst hc
        exact congrArg some (reverse_lowerCase front)
      · have hlower : c.toLower ≠ '*' := fun heq => hc ((hstar c).mp heq)
        simp [lowerCase, hc, hlower]

theorem arrayElement?_lowerCase (s : List Char) :
    arrayElement? (lowerCase s) = (arrayElement? s).map lowerCase := by
  have hopen : ∀ c : Char, c.toLower = '[' ↔ c = '[' := fun c =>
    toLower_eq_iff (isWordChar_of_mark (by decide))
  have hclose : ∀ c : Char, c.toLower = ']' ↔ c = ']' := fun c =>
    toLower_eq_iff (isWordChar_of_mark (by decide))
  have hplain : ∀ s : List Char, (lowerCase s).dropWhile (fun c => !isBracket c) =
      lowerCase (s.dropWhile fun c => !isBracket c) :=
    dropWhile_lowerCase (p := fun c => !isBracket c) fun c => congrArg _ (isBracket_toLower c)
  have hline : ∀ s : List Char, (lowerCase s).contains '\n' = s.contains '\n' := by
    intro s
    rw [Bool.eq_iff_iff, List.contains_iff_mem, List.contains_iff_mem]
    exact mem_lowerCase_iff (isWordChar_of_isBlank (by decide))
  unfold arrayElement?
  rw [reverse_lowerCase]
  cases s.reverse with
  | nil =>
      rfl
  | cons c rest =>
      by_cases hc : c = ']'
      · subst hc
        have hrest : lowerCase (']' :: rest) = ']' :: lowerCase rest := rfl
        simp only [hrest, hplain]
        cases rest.dropWhile (fun c => !isBracket c) with
        | nil =>
            rfl
        | cons d front =>
            by_cases hd : d = '['
            · subst hd
              have hfront : lowerCase ('[' :: front) = '[' :: lowerCase front := rfl
              have helement : ((lowerCase front).dropWhile isBlank).reverse =
                  lowerCase (front.dropWhile isBlank).reverse := by
                rw [dropWhile_lowerCase isBlank_toLower, reverse_lowerCase]
              simp only [hfront, helement, hline]
              split <;>
                rfl
            · have hlower : d.toLower ≠ '[' := fun heq => hd ((hopen d).mp heq)
              simp [lowerCase, hd, hlower]
      · have hlower : c.toLower ≠ ']' := fun heq => hc ((hclose c).mp heq)
        simp [lowerCase, hc, hlower]

theorem exists_array_of_bare {s element : List Char} (h : Bare s)
    (helement : arrayElement? (trim s) = some element) :
    Bare element ∧ ∃ back, trim s = element ++ back := by
  rcases exists_array_of_arrayElement? helement with ⟨gap, bound, htrim, _⟩
  have hbare := h.trim
  rw [htrim] at hbare
  refine ⟨hbare.of_append (head?_blanks_append gap ?_), _, htrim⟩
  simpa using isWordChar_of_mark (c := '[') (by decide)

theorem exists_pointer_of_bare {s pointee : List Char} (h : Bare s)
    (hpointee : pointee? (trim s) = some pointee) :
    Bare pointee ∧ ∃ back, trim s = pointee ++ back := by
  rcases exists_pointer_of_pointee? hpointee with ⟨back, htrim⟩
  have hbare := h.trim
  rw [htrim] at hbare
  refine ⟨hbare.of_append ?_, _, htrim⟩
  simpa using isWordChar_of_mark (c := '*') (by decide)

/-!
# Types in lower case
-/

theorem unqualifiedWords_lowerCase {s : List Char} (h : Bare s) :
    unqualifiedWords (lowerCase s) = (unqualifiedWords s).map lowerCase := by
  rw [h.unqualifiedWords, h.lowerCase.unqualifiedWords, words_lowerCase]

theorem isChar_lowerCase {s : List Char} (h : Bare s) : isChar (lowerCase s) = isChar s := by
  unfold isChar unqualified
  rw [unqualifiedWords_lowerCase h, joinWords_lowerCase, lowerCase_lowerCase]

theorem stringType_of_bare {s : List Char} (h : Bare s) : stringType s = .cstring := by
  rw [stringType, h.mentions]
  rfl

theorem map_lowerCase_map_lowerCase (ws : List (List Char)) :
    (ws.map lowerCase).map lowerCase = ws.map lowerCase := by
  have hidem : lowerCase ∘ lowerCase = lowerCase := funext lowerCase_lowerCase
  rw [List.map_map, hidem]

theorem tagName?_lowerCase (ws : List (List Char)) :
    tagName? (ws.map lowerCase) = (tagName? ws).map (List.map lowerCase) := by
  unfold tagName?
  split
  next keyword name rest h =>
    rcases List.map_eq_cons_iff.mp h with ⟨keyword', ws', rfl, rfl, h'⟩
    rcases List.map_eq_cons_iff.mp h' with ⟨name', rest', rfl, rfl, rfl⟩
    rw [lowerCase_lowerCase]
    simp only
    split <;>
      rfl
  next h =>
    split
    next keyword name rest =>
      exact absurd rfl (h _ _ _)
    next =>
      rfl

theorem baseType_lowerCase (ws : List (List Char)) :
    baseType (ws.map lowerCase) = (baseType ws).ignoringCase := by
  have hbasic : ∀ t ∈ ForeignType.basicTypes, t.ignoringCase = t := by
    decide
  unfold baseType
  rw [map_lowerCase_map_lowerCase]
  split
  next t h =>
    exact (hbasic t (basic_of_knownType? h)).symm
  next =>
    have hname : (tagName? (ws.map lowerCase)).getD (ws.map lowerCase) =
        ((tagName? ws).getD ws).map lowerCase := by
      rw [tagName?_lowerCase]
      cases tagName? ws <;>
        rfl
    rw [hname, joinWords_lowerCase, ForeignType.ignoringCase, String.toList_ofList]

theorem arrayElement?_trim_lowerCase {s : List Char} (h : arrayElement? (trim s) = none) :
    arrayElement? (trim (lowerCase s)) = none := by
  rw [trim_lowerCase, arrayElement?_lowerCase, h]
  rfl

theorem pointee?_trim_lowerCase {s pointee : List Char} (h : Bare s)
    (hpointee : pointee? (trim s) = some pointee) :
    pointee? (trim (lowerCase s)) = some (lowerCase pointee) := by
  rw [trim_lowerCase, pointee?_lowerCase h.trim, hpointee]
  rfl

theorem typeOf_lowerCase {s : List Char} (h : Bare s) :
    typeOf (lowerCase s) = (typeOf s).ignoringCase := by
  -- By the recursion of the type map, whose suffixes are found alike in either case.
  induction s using typeOf.induct with
  | case1 s element helement ih =>
      have hlower : arrayElement? (trim (lowerCase s)) = some (lowerCase element) := by
        rw [trim_lowerCase, arrayElement?_lowerCase, helement]
        rfl
      rw [typeOf_of_arrayElement? helement, typeOf_of_arrayElement? hlower,
        ih (exists_array_of_bare h helement).1]
      rfl
  | case2 s harray pointee hpointee hchar =>
      have hbare := (exists_pointer_of_bare h hpointee).1
      rw [typeOf_of_pointee? harray hpointee,
        typeOf_of_pointee? (arrayElement?_trim_lowerCase harray)
          (pointee?_trim_lowerCase h hpointee),
        isChar_lowerCase hbare, if_pos hchar, if_pos hchar, stringType_of_bare hbare,
        stringType_of_bare hbare.lowerCase]
      rfl
  | case3 s harray pointee hpointee hchar ih =>
      have hbare := (exists_pointer_of_bare h hpointee).1
      rw [typeOf_of_pointee? harray hpointee,
        typeOf_of_pointee? (arrayElement?_trim_lowerCase harray)
          (pointee?_trim_lowerCase h hpointee),
        isChar_lowerCase hbare, if_neg hchar, if_neg hchar, ih hbare]
      rfl
  | case4 s harray hpointee =>
      have hlower : pointee? (trim (lowerCase s)) = none := by
        rw [trim_lowerCase, pointee?_lowerCase h.trim, hpointee]
        rfl
      rw [typeOf_of_base harray hpointee,
        typeOf_of_base (arrayElement?_trim_lowerCase harray) hlower, trim_lowerCase,
        unqualifiedWords_lowerCase h.trim, baseType_lowerCase]

/-!
# Opaque names in their spellings
-/

theorem flatten_tagName?_suffix (ws : List (List Char)) :
    ((tagName? ws).getD ws).flatten <:+ ws.flatten := by
  unfold tagName?
  split
  next keyword name rest =>
    split
    · exact ⟨keyword, rfl⟩
    · exact List.suffix_refl _
  next =>
    exact List.suffix_refl _

theorem opaqueName?_eq_none_of_basic {t : ForeignType} (h : t ∈ ForeignType.basicTypes) :
    t.opaqueName? = none := by
  have hall : ∀ t ∈ ForeignType.basicTypes, t.opaqueName? = none := by
    decide
  exact hall t h

theorem solid_of_opaqueName?_baseType {s : List Char} {name : String}
    (h : (baseType (words s)).opaqueName? = some name) :
    solid name.toList <:+ solid s := by
  have hwords : AreWords ((tagName? (words s)).getD (words s)) := by
    intro w hw
    exact areWords_words s w (mem_of_mem_tagName? hw)
  rcases baseType_cases (words s) with hbasic | hnamed
  · rw [opaqueName?_eq_none_of_basic hbasic] at h
    cases h
  · rw [hnamed] at h
    cases h
    rw [String.toList_ofList, solid_joinWords hwords, ← flatten_words s]
    exact flatten_tagName?_suffix (words s)

theorem solid_infix_of_prefix {part front back s : List Char} (hs : trim s = front ++ back)
    (h : part <:+: solid front) : part <:+: solid s := by
  rw [← solid_trim, hs, solid_append]
  exact h.trans (List.prefix_append _ _).isInfix

theorem solid_of_opaqueName?_typeOf {s : List Char} (h : Bare s) {name : String}
    (hname : (typeOf s).opaqueName? = some name) : solid name.toList <:+: solid s := by
  induction s using typeOf.induct with
  | case1 s element helement ih =>
      rcases exists_array_of_bare h helement with ⟨hbare, back, htrim⟩
      rw [typeOf_of_arrayElement? helement] at hname
      exact solid_infix_of_prefix htrim (ih hbare hname)
  | case2 s harray pointee hpointee hchar =>
      have hbare := (exists_pointer_of_bare h hpointee).1
      rw [typeOf_of_pointee? harray hpointee, if_pos hchar, stringType_of_bare hbare] at hname
      cases hname
  | case3 s harray pointee hpointee hchar ih =>
      rcases exists_pointer_of_bare h hpointee with ⟨hbare, back, htrim⟩
      rw [typeOf_of_pointee? harray hpointee, if_neg hchar] at hname
      exact solid_infix_of_prefix htrim (ih hbare hname)
  | case4 s harray hpointee =>
      rw [typeOf_of_base harray hpointee, h.trim.unqualifiedWords] at hname
      rw [← solid_trim s]
      exact (solid_of_opaqueName?_baseType hname).isInfix

end Spelling

namespace ForeignType

open Text Spelling

/-- Spellings without qualifiers that differ in case only mean the same type, up to the case of
an opaque name. Each name is in its own spelling as it is, but for the blanks. -/
theorem ofSpelling_ignoringCase {s t : String} (hbare : Bare s.toList)
    (hcase : lowerCase s.toList = lowerCase t.toList) :
    (ofSpelling s).ignoringCase = (ofSpelling t).ignoringCase ∧
      ∀ spelling ∈ [s, t], ∀ name, (ofSpelling spelling).opaqueName? = some name →
        solid name.toList <:+: solid spelling.toList := by
  have hbare' : Bare t.toList := by
    rw [bare_iff, ← hcase, ← bare_iff]
    exact hbare
  constructor
  · rw [ofSpelling, ofSpelling, ← typeOf_lowerCase hbare, hcase, typeOf_lowerCase hbare']
  · intro spelling hspelling name hname
    have hbare'' : Bare spelling.toList := by
      rcases List.mem_pair.mp hspelling with rfl | rfl
      · exact hbare
      · exact hbare'
    exact solid_of_opaqueName?_typeOf hbare'' hname

/-- The tag keyword and the name of a spelling may both be in another case. -/
theorem ofSpelling_ignoringCase_tag :
    (ofSpelling "struct POINT *[3]").ignoringCase =
        (ofSpelling "STRUCT Point *[3]").ignoringCase ∧
      ∀ spelling ∈ ["struct POINT *[3]", "STRUCT Point *[3]"], ∀ name,
        (ofSpelling spelling).opaqueName? = some name →
          solid name.toList <:+: solid spelling.toList :=
  ofSpelling_ignoringCase (by decide +kernel) (by decide +kernel)

end ForeignType
end HeaderBinding
