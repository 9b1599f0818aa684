import HeaderBinding.Spelling.BaseType

/-!
# Types of bases

The words of a base mean a basic type, or they are the name of an opaque one.
-/

namespace HeaderBinding

/-- The types that are no pointers, strings or opaque names. -/
def ForeignType.basicTypes : List ForeignType :=
  [void, bool, i8, u8, i16, u16, i32, u32, i64, u64, f32, f64, usize, isize]

namespace Spelling

open Text ForeignType

theorem basic_of_standardType? {w : List Char} {t : ForeignType}
    (h : standardType? w = some t) : t ∈ basicTypes := by
  have hall : ∀ entry ∈ standardTypes, entry.2 ∈ basicTypes := by
    decide
  rcases List.lookup_eq_some_iff.mp h with ⟨front, back, htypes, _⟩
  exact hall (String.ofList w, t) (by simp [htypes])

theorem basic_of_classify? {ks : List IntegerKeyword} {t : ForeignType}
    (h : IntegerKeyword.classify? ks = some t) : t ∈ basicTypes := by
  have hpick : ∀ {a b : ForeignType}, a ∈ basicTypes → b ∈ basicTypes →
      some (if .unsigned ∈ ks then b else a) = some t → t ∈ basicTypes := by
    intro a b ha hb hab
    split at hab
    · cases hab
      exact hb
    · cases hab
      exact ha
  unfold IntegerKeyword.classify? at h
  simp only at h
  split at h
  · split at h
    · exact hpick (by decide) (by decide) h
    · cases h
  · split at h
    · split at h
      · exact hpick (by decide) (by decide) h
      · cases h
    · split at h
      · exact hpick (by decide) (by decide) h
      · split at h
        · exact hpick (by decide) (by decide) h
        · cases h

theorem basic_of_integerType? {ws : List (List Char)} {t : ForeignType}
    (h : integerType? ws = some t) : t ∈ basicTypes := by
  unfold integerType? at h
  split at h
  · cases h
  · rcases Option.bind_eq_some_iff.mp h with ⟨ks, _, hks⟩
    exact basic_of_classify? hks

theorem basic_of_knownType? {ws : List (List Char)} {t : ForeignType}
    (h : knownType? ws = some t) : t ∈ basicTypes := by
  unfold knownType? at h
  split at h
  · rcases Option.or_eq_some_iff.mp h with hstandard | ⟨_, hinteger⟩
    · exact basic_of_standardType? hstandard
    · exact basic_of_integerType? hinteger
  · exact basic_of_integerType? h

theorem baseType_cases (ws : List (List Char)) :
    baseType ws ∈ basicTypes ∨
      baseType ws = .named (String.ofList (joinWords ((tagName? ws).getD ws))) := by
  unfold baseType
  split
  next t h =>
    exact Or.inl (basic_of_knownType? h)
  next =>
    exact Or.inr rfl

/-- The words of an opaque name are words of its base. -/
theorem mem_of_mem_tagName? {ws : List (List Char)} {w : List Char}
    (h : w ∈ (tagName? ws).getD ws) : w ∈ ws := by
  unfold tagName? at h
  split at h
  next keyword name rest =>
    split at h
    · exact List.mem_cons_of_mem keyword h
    · exact h
  next =>
    exact h

end Spelling
end HeaderBinding
