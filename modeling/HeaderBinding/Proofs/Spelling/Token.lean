import HeaderBinding.Proofs.Spelling.BaseType
import HeaderBinding.Proofs.Spelling.Suffix
import HeaderBinding.Proofs.Text.Tidy

/-!
# Tokens of types

The token of a type that a spelling means has no white space but single spaces, whatever
white space the spelling has. And the token of a type tells the type, as long as no opaque
name looks like one of the language's own types.
-/

namespace HeaderBinding

namespace Spelling

open Text

/-- What holds of base types and strings, and of a pointer with its target, holds of the
type of every spelling. -/
theorem typeOf_induction {motive : ForeignType → Prop}
    (base : ∀ ws, AreWords ws → motive (baseType ws)) (string : motive .cstring)
    (constString : motive .constCString)
    (pointer : ∀ target, motive target → motive (.ptr target)) (s : List Char) :
    motive (typeOf s) := by
  induction s using typeOf.induct with
  | case1 s element helement ih =>
      rw [typeOf_of_arrayElement? helement]
      exact pointer _ ih
  | case2 s harray pointee hpointee hchar =>
      rw [typeOf_of_pointee? harray hpointee, if_pos hchar]
      unfold stringType
      split
      · exact constString
      · exact string
  | case3 s harray pointee hpointee hchar ih =>
      rw [typeOf_of_pointee? harray hpointee, if_neg hchar]
      exact pointer _ ih
  | case4 s harray hpointee =>
      rw [typeOf_of_base harray hpointee]
      exact base _ (areWords_words _)

end Spelling

namespace ForeignType

open Spelling Text

/-- The types that are no pointers and have no name of their own. -/
def builtinTypes : List ForeignType :=
  basicTypes ++ [cstring, constCString]

theorem token_of_mem_builtinTypes {t : ForeignType} (h : t ∈ builtinTypes) :
    t.token.toList ≠ [] ∧ ∀ c ∈ t.token.toList, isBlank c = false := by
  have hall : ∀ t ∈ builtinTypes,
      t.token.toList ≠ [] ∧ t.token.toList.any isBlank = false := by
    decide
  exact ⟨(hall t h).1, not_blank_of_any (hall t h).2⟩

theorem builtin_or_pointer_or_named (t : ForeignType) :
    t ∈ builtinTypes ∨ (∃ target, t = ptr target) ∨ ∃ name, t = named name := by
  cases t with
  | ptr target =>
      exact Or.inr (Or.inl ⟨target, rfl⟩)
  | named name =>
      exact Or.inr (Or.inr ⟨name, rfl⟩)
  | _ =>
      exact Or.inl (by decide)

/-!
# White space
-/

theorem isTidy_token_ptr {target : ForeignType} (h : IsTidy target.token.toList) :
    IsTidy (ptr target).token.toList := by
  unfold token
  rw [String.toList_append, String.toList_append]
  apply IsTidy.append
  · apply h.prepend
    · decide
    · exact not_blank_of_any (by decide)
  · decide
  · exact not_blank_of_any (by decide)

theorem isTidy_token_baseType {ws : List (List Char)} (h : AreWords ws) :
    IsTidy (baseType ws).token.toList := by
  rcases baseType_cases ws with hbasic | hnamed
  · rcases token_of_mem_builtinTypes (List.mem_append_left _ hbasic) with ⟨hne, hblank⟩
    exact isTidy_of_not_blank hne hblank
  · rw [hnamed]
    unfold token
    rw [String.toList_ofList]
    exact ⟨_, fun w hw => h w (mem_of_mem_tagName? hw), rfl⟩

theorem isTidy_token_ofSpelling (spelling : String) :
    IsTidy (ofSpelling spelling).token.toList := by
  have hbuiltin : ∀ t ∈ builtinTypes, IsTidy t.token.toList := fun t ht =>
    isTidy_of_not_blank (token_of_mem_builtinTypes ht).1 (token_of_mem_builtinTypes ht).2
  unfold ofSpelling
  apply typeOf_induction (motive := fun t => IsTidy t.token.toList)
  · intro ws hws
    exact isTidy_token_baseType hws
  · exact hbuiltin cstring (by decide)
  · exact hbuiltin constCString (by decide)
  · intro target ih
    exact isTidy_token_ptr ih

/-!
# Types and their tokens
-/

/-- A type whose opaque name, if it has one, does not look like a type of the language. -/
def IsForeign (t : ForeignType) : Prop :=
  ∀ name ∈ t.opaqueName?, ¬"c.".toList <+: name.toList

instance : DecidablePred IsForeign := fun t =>
  inferInstanceAs (Decidable (∀ name ∈ t.opaqueName?, ¬"c.".toList <+: name.toList))

theorem token_ptr (target : ForeignType) :
    (ptr target).token.toList = "c.ptr<".toList ++ (target.token.toList ++ ['>']) := by
  have h : (ptr target).token = "c.ptr<" ++ target.token ++ ">" := rfl
  rw [h, String.toList_append, String.toList_append, List.append_assoc]
  rfl

theorem eq_of_token_builtin {t u : ForeignType} (ht : t ∈ builtinTypes)
    (hu : u ∈ builtinTypes) (h : t.token = u.token) : t = u := by
  have hall : ∀ t ∈ builtinTypes, ∀ u ∈ builtinTypes, t.token = u.token → t = u := by
    decide
  exact hall t ht u hu h

theorem start_token_builtin {t : ForeignType} (h : t ∈ builtinTypes) :
    "c.".toList <+: t.token.toList ∧ t.token.toList.getLast? ≠ some '>' := by
  revert t
  decide

theorem start_token_ptr (target : ForeignType) :
    "c.".toList <+: (ptr target).token.toList ∧
      (ptr target).token.toList.getLast? = some '>' := by
  rw [token_ptr]
  constructor
  · exact ⟨"ptr<".toList ++ (target.token.toList ++ ['>']), rfl⟩
  · rw [← List.append_assoc]
    exact List.getLast?_concat

theorem token_ptr_ne_builtin {t target : ForeignType} (ht : t ∈ builtinTypes) :
    t.token ≠ (ptr target).token := by
  intro h
  apply (start_token_builtin ht).2
  rw [h]
  exact (start_token_ptr target).2

/-- An opaque name is not taken for another type. -/
theorem eq_named_of_token {t : ForeignType} {name : String} (hname : (named name).IsForeign)
    (h : t.token = name) : t = named name := by
  have hstart : ¬"c.".toList <+: t.token.toList := by
    rw [h]
    exact hname name rfl
  rcases builtin_or_pointer_or_named t with hbuiltin | ⟨target, rfl⟩ | ⟨other, rfl⟩
  · exact absurd (start_token_builtin hbuiltin).1 hstart
  · exact absurd (start_token_ptr target).1 hstart
  · exact congrArg named h

theorem eq_of_token_of_builtin {t u : ForeignType} (ht : t ∈ builtinTypes)
    (hu : u.IsForeign) (h : t.token = u.token) : t = u := by
  rcases builtin_or_pointer_or_named u with hu' | ⟨target, rfl⟩ | ⟨name, rfl⟩
  · exact eq_of_token_builtin ht hu' h
  · exact absurd h (token_ptr_ne_builtin ht)
  · exact eq_named_of_token hu h

theorem token_injective {t u : ForeignType} (ht : t.IsForeign) (hu : u.IsForeign)
    (h : t.token = u.token) : t = u := by
  induction t generalizing u with
  | ptr target ih =>
      rcases builtin_or_pointer_or_named u with hu' | ⟨other, rfl⟩ | ⟨name, rfl⟩
      · exact absurd h.symm (token_ptr_ne_builtin hu')
      · have hlist := congrArg String.toList h
        rw [token_ptr, token_ptr, List.append_cancel_left_eq, List.append_cancel_right_eq,
          String.toList_inj] at hlist
        exact congrArg ptr (ih ht hu hlist)
      · exact eq_named_of_token hu h
  | named name =>
      exact (eq_named_of_token ht h.symm).symm
  | _ =>
      exact eq_of_token_of_builtin (by decide) hu h

end ForeignType
end HeaderBinding
