import HeaderBinding.Proofs.Spelling.Plain

/-!
# Integer types

A spelling of integer keywords means a type by how often each keyword occurs. The order of
the keywords, their case, the qualifiers among them and the white space between them do not
matter. A combination without a meaning is an opaque name.
-/

namespace HeaderBinding

open Text

namespace IntegerKeyword

/-- The signed and the unsigned type that keywords mean which occur so many times. -/
inductive Means (times : IntegerKeyword → Nat) : ForeignType → ForeignType → Prop where
  | char (hchar : 0 < times char) (hshort : times short = 0) (hlong : times long = 0)
      (hint : times int = 0) : Means times .i8 .u8
  | short (hshort : 0 < times short) (hchar : times char = 0) (hlong : times long = 0) :
      Means times .i16 .u16
  | int (hchar : times char = 0) (hshort : times short = 0) (hlong : times long = 0) :
      Means times .i32 .u32
  | long (hlong : times long = 1 ∨ times long = 2) (hchar : times char = 0)
      (hshort : times short = 0) : Means times .i64 .u64

/-!
# Combinations of keywords
-/

section Classification

variable {ks : List IntegerKeyword}

theorem classify?_of_means {a b : ForeignType} (h : Means (fun k => ks.count k) a b) :
    classify? ks = some (if 0 < ks.count unsigned then b else a) := by
  cases h with
  | char hchar hshort hlong hint =>
      rw [List.count_pos_iff] at hchar
      rw [List.count_eq_zero] at hshort hint
      simp [classify?, hchar, hshort, hlong, hint, List.count_pos_iff]
  | short hshort hchar hlong =>
      rw [List.count_pos_iff] at hshort
      rw [List.count_eq_zero] at hchar
      simp [classify?, hchar, hshort, hlong, List.count_pos_iff]
  | int hchar hshort hlong =>
      rw [List.count_eq_zero] at hchar hshort
      simp [classify?, hchar, hshort, hlong, List.count_pos_iff]
  | long hlong hchar hshort =>
      rw [List.count_eq_zero] at hchar hshort
      rcases hlong with hlong | hlong
      · simp [classify?, hchar, hshort, hlong, List.count_pos_iff]
      · simp [classify?, hchar, hshort, hlong, List.count_pos_iff]

theorem exists_means_of_classify? {t : ForeignType} (h : classify? ks = some t) :
    ∃ a b, Means (fun k => ks.count k) a b := by
  unfold classify? at h
  simp only at h
  split at h
  next hchar =>
    split at h
    next hothers =>
      rcases hothers with ⟨hshort, hlong, hint⟩
      exact ⟨_, _, .char (List.count_pos_iff.mpr hchar) (List.count_eq_zero.mpr hshort) hlong
        (List.count_eq_zero.mpr hint)⟩
    next =>
      cases h
  next hchar =>
    have hnochar := List.count_eq_zero.mpr hchar
    split at h
    next hshort =>
      split at h
      next hlong =>
        exact ⟨_, _, .short (List.count_pos_iff.mpr hshort) hnochar hlong⟩
      next =>
        cases h
    next hshort =>
      have hnoshort := List.count_eq_zero.mpr hshort
      split at h
      next hlong =>
        exact ⟨_, _, .int hnochar hnoshort hlong⟩
      next hlong =>
        split at h
        next htwice =>
          exact ⟨_, _, .long (by omega) hnochar hnoshort⟩
        next =>
          cases h

theorem classify?_eq_none (h : ∀ a b, ¬Means (fun k => ks.count k) a b) :
    classify? ks = none := by
  rw [Option.eq_none_iff_forall_ne_some]
  intro t ht
  rcases exists_means_of_classify? ht with ⟨a, b, hmeans⟩
  exact h a b hmeans

end Classification

/-!
# Words that are keywords in some case
-/

theorem ofWord?_word (k : IntegerKeyword) : ofWord? k.word = some k := by
  cases k <;>
    rfl

theorem word_injective (j k : IntegerKeyword) (h : j.word = k.word) : j = k := by
  have hread := congrArg ofWord? h
  rw [ofWord?_word, ofWord?_word] at hread
  exact Option.some.inj hread

theorem exists_keywords {ws : List (List Char)}
    (h : ∀ w ∈ ws, ∃ k : IntegerKeyword, lowerCase w = k.word) :
    ∃ ks : List IntegerKeyword, ws.map lowerCase = ks.map word := by
  induction ws with
  | nil =>
      exact ⟨[], rfl⟩
  | cons w ws ih =>
      rcases List.forall_mem_cons.mp h with ⟨⟨k, hk⟩, hws⟩
      rcases ih hws with ⟨ks, hks⟩
      refine ⟨k :: ks, ?_⟩
      rw [List.map_cons, List.map_cons, hk, hks]

theorem countP_eq_count {ws : List (List Char)} {ks : List IntegerKeyword}
    (h : ws.map lowerCase = ks.map word) (k : IntegerKeyword) :
    (ws.countP fun w => lowerCase w = k.word) = ks.count k := by
  have hsame : (fun j : IntegerKeyword => decide (j.word = k.word)) = fun j => j == k := by
    funext j
    rw [Bool.eq_iff_iff, decide_eq_true_iff, beq_iff_eq]
    constructor
    · exact word_injective j k
    · intro hjk
      rw [hjk]
  calc
    (ws.countP fun w => lowerCase w = k.word)
        = (ws.map lowerCase).countP fun w => w = k.word := by
          rw [List.countP_map]
          rfl
    _ = ks.countP fun j => j.word = k.word := by
          rw [h, List.countP_map]
          rfl
    _ = ks.count k := by
          rw [hsame]
          rfl

theorem ne_nil_of_keyword {w : List Char} {k : IntegerKeyword} (h : lowerCase w = k.word) :
    w ≠ [] := by
  intro hnil
  rw [hnil] at h
  cases k <;>
    cases h

theorem isLower_of_mem_word {k : IntegerKeyword} {c : Char} (h : c ∈ k.word) :
    c.isLower = true := by
  have hall : k.word.all Char.isLower = true := by
    cases k <;>
      decide
  exact List.all_eq_true.mp hall c h

/-- A letter of either case is part of a word. -/
theorem isWordChar_of_isLower_toLower {c : Char} (h : c.toLower.isLower = true) :
    isWordChar c = true := by
  have hletter : 0x41 ≤ c.toNat ∧ c.toNat ≤ 0x5a ∨ 0x61 ≤ c.toNat ∧ c.toNat ≤ 0x7a := by
    unfold Char.toLower at h
    split at h
    next hupper =>
      left
      exact ⟨UInt32.le_iff_toNat_le.mp hupper.1, UInt32.le_iff_toNat_le.mp hupper.2⟩
    next =>
      right
      change (decide (_ ≥ _) && decide (_ ≤ _)) = true at h
      rw [Bool.and_eq_true, decide_eq_true_iff, decide_eq_true_iff] at h
      exact ⟨UInt32.le_iff_toNat_le.mp h.1, UInt32.le_iff_toNat_le.mp h.2⟩
  unfold isWordChar
  apply List.any_eq_true.mpr
  rcases hletter with hupper | hlower
  · exact ⟨(0x41, 0x5a), by decide, by simpa using hupper⟩
  · exact ⟨(0x61, 0x7a), by decide, by simpa using hlower⟩

/-- A keyword is made of letters, whatever its case. -/
theorem isWordChar_of_mem {w : List Char} {k : IntegerKeyword} (h : lowerCase w = k.word)
    {c : Char} (hc : c ∈ w) : isWordChar c = true := by
  apply isWordChar_of_isLower_toLower
  apply isLower_of_mem_word
  rw [← h]
  exact List.mem_map_of_mem hc

end IntegerKeyword

namespace Spelling

open IntegerKeyword

theorem mapM_ofWord? (ks : List IntegerKeyword) : (ks.map word).mapM ofWord? = some ks := by
  induction ks with
  | nil =>
      rfl
  | cons k ks ih =>
      rw [List.map_cons, List.mapM_cons, ofWord?_word, ih]
      rfl

theorem knownType?_keywords {ks : List IntegerKeyword} (hne : ks ≠ []) :
    knownType? (ks.map word) = classify? ks := by
  have hinteger : integerType? (ks.map word) = classify? ks := by
    cases ks with
    | nil =>
        exact absurd rfl hne
    | cons k ks =>
        have hread := mapM_ofWord? (k :: ks)
        rw [List.map_cons] at hread ⊢
        unfold integerType?
        simp only [hread]
        rfl
  have hstandard : ∀ k : IntegerKeyword, standardType? k.word = none := by
    intro k
    cases k <;>
      decide
  rw [← hinteger]
  unfold knownType?
  split
  next w hw =>
    rcases List.map_eq_singleton_iff.mp hw with ⟨k, hk, rfl⟩
    rw [hstandard, Option.none_or, hw]
  next =>
    rfl

theorem tagName?_keywords {ws : List (List Char)} {ks : List IntegerKeyword}
    (h : ws.map lowerCase = ks.map word) : tagName? ws = none := by
  have hword : ∀ k : IntegerKeyword, k.word ∉ tagKeywords := by
    intro k
    cases k <;>
      decide
  unfold tagName?
  split
  next keyword name rest =>
    cases ks with
    | nil =>
        cases h
    | cons k ks =>
        have hk : lowerCase keyword = k.word := (List.cons.inj h).1
        rw [hk, if_neg (hword k)]
  next =>
    rfl

/-!
# Spellings of integer types
-/

/-- Words with qualifiers among them. -/
inductive Qualified : List (List Char) → List (List Char) → Prop where
  | nil : Qualified [] []
  | word {w : List Char} {ks ws : List (List Char)} (h : Qualified ks ws) :
      Qualified (w :: ks) (w :: ws)
  | qualifier {q : Qualifier} {ks ws : List (List Char)} (h : Qualified ks ws) :
      Qualified ks (q.word :: ws)

/-- Words with white space between them. -/
inductive Spaced : List (List Char) → List Char → Prop where
  | last {w : List Char} : Spaced [w] w
  | cons {w : List Char} {gap : Blanks} {ws : List (List Char)} {s : List Char}
      (hgap : gap.text ≠ []) (h : Spaced ws s) : Spaced (w :: ws) (w ++ gap.text ++ s)

theorem words_of_spaced {ws : List (List Char)} {s : List Char} (h : Spaced ws s)
    (hws : AreWords ws) : words s = ws := by
  induction h with
  | last =>
      rcases hws _ List.mem_cons_self with ⟨hne, hblank⟩
      exact words_of_not_blank hne hblank
  | @cons w gap ws s hgap h ih =>
      rcases List.forall_mem_cons.mp hws with ⟨⟨hne, hblank⟩, hrest⟩
      have hhead : ∀ c ∈ (gap.text ++ s).head?, isBlank c = true := by
        intro c hc
        cases htext : gap.text with
        | nil =>
            exact absurd htext hgap
        | cons d rest =>
            rw [htext] at hc
            have hd : d = c := Option.some.inj hc
            rw [← hd]
            exact gap.blank d (by simp [htext])
      rw [List.append_assoc, words_append_of_not_blank hne hblank hhead,
        words_append_of_blank_left gap.blank, ih hrest]

theorem mem_of_spaced {ws : List (List Char)} {s : List Char} (h : Spaced ws s) {c : Char}
    (hc : c ∈ s) : isBlank c = true ∨ ∃ w ∈ ws, c ∈ w := by
  induction h with
  | @last w =>
      exact Or.inr ⟨w, List.mem_cons_self, hc⟩
  | @cons w gap ws s hgap h ih =>
      rcases List.mem_append.mp hc with hfront | hback
      · rcases List.mem_append.mp hfront with hword | hblank
        · exact Or.inr ⟨w, List.mem_cons_self, hword⟩
        · exact Or.inl (gap.blank c hblank)
      · rcases ih hback with hblank | ⟨v, hv, hcv⟩
        · exact Or.inl hblank
        · exact Or.inr ⟨v, List.mem_cons_of_mem w hv, hcv⟩

/-- No keyword is a qualifier, in whatever case it is written. -/
theorem dropQualifiers_keyword {w : List Char} {k : IntegerKeyword} (h : lowerCase w = k.word) :
    dropQualifiers w = w := by
  have hdistinct : ∀ q : Qualifier, lowerCase q.word ≠ k.word := by
    intro q
    cases q <;> cases k <;>
      decide
  have hplain : ¬isQualifier w = true := by
    intro hq
    rcases Option.isSome_iff_exists.mp hq with ⟨q, hof⟩
    rw [← Qualifier.word_of_ofWord? hof] at h
    exact hdistinct q h
  rw [dropQualifiers_word (ne_nil_of_keyword h) fun c hc => isWordChar_of_mem h hc, if_neg hplain]

theorem dropQualifiers_qualifier (q : Qualifier) : dropQualifiers q.word = [] := by
  rw [dropQualifiers_word q.word_ne_nil fun c hc => Qualifier.isWordChar_of_mem_word hc,
    if_pos (isQualifier_word q)]

section Keywords

variable {ks ws : List (List Char)} (hks : ∀ w ∈ ks, ∃ k : IntegerKeyword, lowerCase w = k.word)
include hks

theorem isWordChar_of_qualified (h : Qualified ks ws) {w : List Char} (hw : w ∈ ws) :
    w ≠ [] ∧ ∀ c ∈ w, isWordChar c = true := by
  induction h with
  | nil =>
      cases hw
  | @word v ks ws h ih =>
      rcases List.forall_mem_cons.mp hks with ⟨⟨k, hk⟩, hrest⟩
      rcases List.mem_cons.mp hw with hwv | hw
      · rw [hwv]
        exact ⟨ne_nil_of_keyword hk, fun c hc => isWordChar_of_mem hk hc⟩
      · exact ih hrest hw
  | @qualifier q ks ws h ih =>
      rcases List.mem_cons.mp hw with hwq | hw
      · rw [hwq]
        exact ⟨q.word_ne_nil, fun c hc => Qualifier.isWordChar_of_mem_word hc⟩
      · exact ih hks hw

theorem areWords_of_qualified (h : Qualified ks ws) : AreWords ws := by
  intro w hw
  rcases isWordChar_of_qualified hks h hw with ⟨hne, hchars⟩
  exact ⟨hne, fun c hc => isBlank_of_isWordChar (hchars c hc)⟩

theorem unqualifiedWords_of_spaced (h : Qualified ks ws) {s : List Char} (hs : Spaced ws s) :
    unqualifiedWords s = ks := by
  unfold unqualifiedWords
  rw [words_dropQualifiers, words_of_spaced hs (areWords_of_qualified hks h)]
  clear hs
  induction h with
  | nil =>
      rfl
  | @word w ks ws h ih =>
      rcases List.forall_mem_cons.mp hks with ⟨⟨k, hk⟩, hrest⟩
      rw [List.map_cons, dropQualifiers_keyword hk,
        List.filter_cons_of_pos (by simpa using ne_nil_of_keyword hk), ih hrest]
  | @qualifier q ks ws h ih =>
      rw [List.map_cons, dropQualifiers_qualifier, List.filter_cons_of_neg (by simp), ih hks]

/-- A spelling of keywords is no array and no pointer. -/
theorem typeOf_of_spaced (h : Qualified ks ws) {s : List Char} (hs : Spaced ws s) :
    typeOf s = baseType ks := by
  have hplain : ∀ c ∈ trim s, isBlank c = true ∨ isWordChar c = true := by
    intro c hc
    rcases mem_of_spaced hs (mem_of_mem_trim hc) with hblank | ⟨w, hw, hcw⟩
    · exact Or.inl hblank
    · exact Or.inr ((isWordChar_of_qualified hks h hw).2 c hcw)
  have hmark : ∀ c ∈ ['*', '[', ']'], c ∉ trim s := by
    intro c hc hmem
    have hword := isWordChar_of_mark hc
    have hblank : isBlank c = false := by
      simp only [List.mem_cons, List.not_mem_nil, or_false] at hc
      rcases hc with rfl | rfl | rfl <;>
        decide
    rcases hplain c hmem with hyes | hyes
    · rw [hblank] at hyes
      cases hyes
    · rw [hword] at hyes
      cases hyes
  have harray : arrayElement? (trim s) = none := by
    rw [Option.eq_none_iff_forall_ne_some]
    intro element helement
    rcases exists_array_of_arrayElement? helement with ⟨gap, bound, htrim, _⟩
    apply hmark '[' (by decide)
    rw [htrim]
    simp
  have hpointee : pointee? (trim s) = none := by
    rw [Option.eq_none_iff_forall_ne_some]
    intro pointee hpointee
    rcases exists_pointer_of_pointee? hpointee with ⟨back, htrim⟩
    apply hmark '*' (by decide)
    rw [htrim]
    simp
  rw [typeOf_of_base harray hpointee, unqualifiedWords_trim, unqualifiedWords_of_spaced hks h hs]

end Keywords

/-!
# The meaning of keywords
-/

section Meaning

variable {ws : List (List Char)} (hne : ws ≠ [])
variable (hws : ∀ w ∈ ws, ∃ k : IntegerKeyword, lowerCase w = k.word)
include hne hws

theorem baseType_of_means {a b : ForeignType}
    (h : Means (fun k => ws.countP fun w => lowerCase w = k.word) a b) :
    baseType ws = if 0 < ws.countP fun w => lowerCase w = unsigned.word then b else a := by
  rcases exists_keywords hws with ⟨ks, hks⟩
  have hne' : ks ≠ [] := by
    rintro rfl
    exact hne (List.map_eq_nil_iff.mp hks)
  rw [funext (countP_eq_count hks)] at h
  unfold baseType
  rw [hks, knownType?_keywords hne', classify?_of_means h, countP_eq_count hks]

theorem baseType_of_not_means
    (h : ∀ a b, ¬Means (fun k => ws.countP fun w => lowerCase w = k.word) a b) :
    baseType ws = .named (String.ofList (joinWords ws)) := by
  rcases exists_keywords hws with ⟨ks, hks⟩
  have hne' : ks ≠ [] := by
    rintro rfl
    exact hne (List.map_eq_nil_iff.mp hks)
  rw [funext (countP_eq_count hks)] at h
  unfold baseType
  rw [hks, knownType?_keywords hne', classify?_eq_none h, tagName?_keywords hks]
  rfl

end Meaning

end Spelling

namespace ForeignType

open Spelling IntegerKeyword

/-- Keywords with qualifiers among them and white space between them mean the type that their
numbers give, and if these give none, the keywords with single spaces. -/
theorem ofSpelling_keywords {ks ws : List (List Char)} {s : String} (hne : ks ≠ [])
    (hks : ∀ w ∈ ks, ∃ k : IntegerKeyword, lowerCase w = k.word) (hws : Qualified ks ws)
    (hs : Spaced ws s.toList) :
    let times (k : IntegerKeyword) : Nat := ks.countP fun w => lowerCase w = k.word
    (∀ a b, Means times a b → ofSpelling s = if 0 < times unsigned then b else a) ∧
      ((∀ a b, ¬Means times a b) → ofSpelling s = .named (String.ofList ([' '].intercalate ks))) := by
  intro times
  unfold ofSpelling
  rw [typeOf_of_spaced hks hws hs]
  constructor
  · intro a b h
    exact baseType_of_means hne hks h
  · intro h
    exact baseType_of_not_means hne hks h

/-- Two longs and an `unsigned` around them, in any case, and a combination without a meaning. -/
theorem ofSpelling_keywords_mixed :
    ofSpelling "volatile LONG const\tUnsigned\n long" = .u64 ∧
      ofSpelling "Long  __restrict cHAR" = .named "Long cHAR" := by
  let tab : Blanks := ⟨['\t'], List.all_eq_true.mp rfl⟩
  let line : Blanks := ⟨['\n', ' '], List.all_eq_true.mp rfl⟩
  let wide : Blanks := ⟨[' ', ' '], List.all_eq_true.mp rfl⟩
  let longs : List (List Char) := ["LONG".toList, "Unsigned".toList, "long".toList]
  let chars : List (List Char) := ["Long".toList, "cHAR".toList]
  have hlongs : ∀ w ∈ longs, ∃ k : IntegerKeyword, lowerCase w = k.word := by
    intro w hw
    simp only [longs, List.mem_cons, List.not_mem_nil, or_false] at hw
    rcases hw with rfl | rfl | rfl
    · exact ⟨long, by decide⟩
    · exact ⟨unsigned, by decide⟩
    · exact ⟨long, by decide⟩
  have hchars : ∀ w ∈ chars, ∃ k : IntegerKeyword, lowerCase w = k.word := by
    intro w hw
    simp only [chars, List.mem_cons, List.not_mem_nil, or_false] at hw
    rcases hw with rfl | rfl
    · exact ⟨long, by decide⟩
    · exact ⟨char, by decide⟩
  have hlongsText : Spaced [Qualifier.volatile.word, "LONG".toList, Qualifier.const.word,
      "Unsigned".toList, "long".toList] "volatile LONG const\tUnsigned\n long".toList :=
    @Spaced.cons _ .space _ _ (by decide) (@Spaced.cons _ .space _ _ (by decide)
      (@Spaced.cons _ tab _ _ (by decide) (@Spaced.cons _ line _ _ (by decide) .last)))
  have hcharsText : Spaced ["Long".toList, Qualifier.restrictExtension.word, "cHAR".toList]
      "Long  __restrict cHAR".toList :=
    @Spaced.cons _ wide _ _ (by decide) (@Spaced.cons _ .space _ _ (by decide) .last)
  have hmeans : Means (fun k => longs.countP fun w => lowerCase w = k.word) .i64 .u64 :=
    .long (by decide) (by decide) (by decide)
  have hmeaningless : ∀ a b, ¬Means (fun k => chars.countP fun w => lowerCase w = k.word) a b := by
    intro a b h
    cases h with
    | char _ _ hlong _ => exact absurd hlong (by decide)
    | short hshort _ _ => exact absurd hshort (by decide)
    | int hchar _ _ => exact absurd hchar (by decide)
    | long _ hchar _ => exact absurd hchar (by decide)
  constructor
  · exact (ofSpelling_keywords (by decide) hlongs
      (.qualifier (.word (.qualifier (.word (.word .nil))))) hlongsText).1 _ _ hmeans
  · exact (ofSpelling_keywords (by decide) hchars
      (.word (.qualifier (.word .nil))) hcharsText).2 hmeaningless

end ForeignType
end HeaderBinding
