import HeaderBinding.Proofs.Spelling.Case

/-!
# Where an opaque name comes from

The opaque name of a type stands at the bottom of its spelling, in front of all stars and
brackets. There it is written as it is, but for qualifiers, or behind the keyword of a tag.
-/

namespace HeaderBinding
namespace Spelling

open Text

/-- Whether a spelling starts with a text behind which a star or a bracket stands, if
anything does. -/
def HasBase (s base : List Char) : Prop :=
  ∃ rest, s = base ++ rest ∧ ∀ c ∈ rest.head?, c = '*' ∨ c = '['

theorem hasBase_self (s : List Char) : HasBase s s := by
  refine ⟨[], (List.append_nil s).symm, ?_⟩
  intro c hc
  cases hc

/-- A base of what stands in front of a suffix is one of the whole spelling, up to blanks. -/
theorem exists_hasBase_of_suffix {s front base behind : List Char} {gap : Blanks} {mark : Char}
    (hs : trim s = front ++ (gap.text ++ mark :: behind)) (hmark : mark = '*' ∨ mark = '[')
    (h : HasBase front base) :
    ∃ whole, HasBase s whole ∧ unqualified whole = unqualified base := by
  rcases exists_trim s with ⟨before, after, htrim⟩
  rcases h with ⟨rest, hfront, hrest⟩
  rw [hs, hfront] at htrim
  cases rest with
  | nil =>
      refine ⟨before.text ++ (base ++ gap.text), ⟨mark :: (behind ++ after.text), ?_, ?_⟩, ?_⟩
      · rw [htrim]
        simp
      · intro c hc
        cases hc
        exact hmark
      · apply unqualified_congr
        rw [unqualifiedWords_append_of_blank_left before.blank,
          unqualifiedWords_append_of_blank_right gap.blank]
  | cons c rest =>
      refine ⟨before.text ++ base,
        ⟨c :: (rest ++ (gap.text ++ mark :: behind) ++ after.text), ?_, ?_⟩, ?_⟩
      · rw [htrim]
        simp
      · intro d hd
        exact hrest d hd
      · apply unqualified_congr
        rw [unqualifiedWords_append_of_blank_left before.blank]

/-- A type that is no array, pointer or known type has its words for a name, without the
keyword of a tag. -/
theorem opaqueName?_baseType {ws : List (List Char)} {name : String}
    (h : (baseType ws).opaqueName? = some name) :
    joinWords ws = name.toList ∨
      ∃ keyword, lowerCase keyword ∈ tagKeywords ∧
        joinWords ws = keyword ++ ' ' :: name.toList := by
  rcases baseType_cases ws with hbasic | hnamed
  · rw [opaqueName?_eq_none_of_basic hbasic] at h
    cases h
  · rw [hnamed] at h
    cases h
    rw [String.toList_ofList]
    unfold tagName?
    split
    next keyword first rest =>
      split
      next hkeyword =>
        exact .inr ⟨keyword, hkeyword, joinWords_cons_cons keyword first rest⟩
      next =>
        exact .inl rfl
    next =>
      exact .inl rfl

/-- The opaque name of a type is the base of its spelling without qualifiers, or what stands
there behind the keyword of a tag. -/
theorem exists_hasBase_of_opaqueName? {s : List Char} {name : String}
    (h : (typeOf s).opaqueName? = some name) :
    ∃ base, HasBase s base ∧
      (unqualified base = name.toList ∨
        ∃ keyword, lowerCase keyword ∈ tagKeywords ∧
          unqualified base = keyword ++ ' ' :: name.toList) := by
  induction s using typeOf.induct with
  | case1 s element helement ih =>
      rw [typeOf_of_arrayElement? helement] at h
      rcases ih h with ⟨base, hbase, hname⟩
      rcases exists_array_of_arrayElement? helement with ⟨gap, bound, htrim, -⟩
      rcases exists_hasBase_of_suffix htrim (.inr rfl) hbase with ⟨whole, hwhole, hsame⟩
      exact ⟨whole, hwhole, hsame ▸ hname⟩
  | case2 s harray pointee hpointee hchar =>
      rw [typeOf_of_pointee? harray hpointee, if_pos hchar] at h
      unfold stringType at h
      split at h <;> cases h
  | case3 s harray pointee hpointee hchar ih =>
      rw [typeOf_of_pointee? harray hpointee, if_neg hchar] at h
      rcases ih h with ⟨base, hbase, hname⟩
      rcases exists_pointer_of_pointee? hpointee with ⟨back, htrim⟩
      let gap : Blanks := ⟨[], List.forall_mem_nil _⟩
      have hsplit : trim s = pointee ++ (gap.text ++ '*' :: back) := htrim
      rcases exists_hasBase_of_suffix hsplit (.inl rfl) hbase with ⟨whole, hwhole, hsame⟩
      exact ⟨whole, hwhole, hsame ▸ hname⟩
  | case4 s harray hpointee =>
      rw [typeOf_of_base harray hpointee, unqualifiedWords_trim] at h
      exact ⟨s, hasBase_self s, opaqueName?_baseType h⟩

end Spelling
end HeaderBinding
