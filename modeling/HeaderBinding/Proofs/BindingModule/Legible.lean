import HeaderBinding.Proofs.BindingModule.Shape
import HeaderBinding.Proofs.Spelling.Token

/-!
# Legible declarations

Names are plain words, and an opaque type name has none of the marks that a line is made
with. A line that declares something legible is one line and ends in no blank.
-/

namespace HeaderBinding

open Text

/-!
# Names
-/

def isNameChar (c : Char) : Bool :=
  c.isAlphanum || c == '_'

/-- A word of ASCII letters, digits and underscores. -/
structure IsPlainName (name : String) : Prop where
  nonempty : name ≠ ""
  chars : ∀ c ∈ name.toList, isNameChar c = true

instance : DecidablePred IsPlainName := fun name =>
  decidable_of_iff (name ≠ "" ∧ name.toList.all isNameChar = true)
    ⟨fun h => ⟨h.1, List.all_eq_true.mp h.2⟩,
      fun h => ⟨h.nonempty, List.all_eq_true.mpr h.chars⟩⟩

theorem IsPlainName.not_mem {name : String} (h : IsPlainName name) {c : Char}
    (hc : isNameChar c = false) : c ∉ name.toList := by
  intro hmem
  rw [h.chars c hmem] at hc
  cases hc

/-!
# Types
-/

namespace ForeignType

/-- A type whose opaque name, if it has one, can be told from the language's own types and
from the rest of its line. -/
structure IsLegible (t : ForeignType) : Prop where
  foreign : t.IsForeign
  nonempty : ∀ name ∈ t.opaqueName?, name ≠ ""
  trimmed : ∀ name ∈ t.opaqueName?, trim name.toList = name.toList
  marks : ∀ name ∈ t.opaqueName?, ∀ mark ∈ ['\n', ':', '-'], mark ∉ name.toList

instance : DecidablePred IsLegible := fun t =>
  decidable_of_iff
    (t.IsForeign ∧ (∀ name ∈ t.opaqueName?, name ≠ "") ∧
      (∀ name ∈ t.opaqueName?, trim name.toList = name.toList) ∧
      ∀ name ∈ t.opaqueName?, ['\n', ':', '-'].all (· ∉ name.toList) = true)
    ⟨fun h => ⟨h.1, h.2.1, h.2.2.1, fun name hname => by simpa using h.2.2.2 name hname⟩,
      fun h => ⟨h.foreign, h.nonempty, h.trimmed,
        fun name hname => by simpa using h.marks name hname⟩⟩

theorem IsLegible.not_mem_token {t : ForeignType} (h : t.IsLegible) {mark : Char}
    (hmark : mark ∈ ['\n', ':', '-']) : mark ∉ t.token.toList := by
  have hbuiltin : ∀ t ∈ builtinTypes, ['\n', ':', '-'].all (· ∉ t.token.toList) = true := by
    decide +kernel
  have hpointer : ['\n', ':', '-'].all (· ∉ "c.ptr<".toList ++ ['>']) = true := by
    decide
  induction t with
  | ptr target ih =>
      have htarget := ih ⟨h.foreign, h.nonempty, h.trimmed, h.marks⟩
      have hp := of_decide_eq_true (List.all_eq_true.mp hpointer mark hmark)
      rw [List.mem_append, not_or] at hp
      rw [token_ptr, List.mem_append, List.mem_append, not_or, not_or]
      exact ⟨hp.1, htarget, hp.2⟩
  | named name =>
      exact h.marks name rfl mark hmark
  | _ =>
      exact of_decide_eq_true (List.all_eq_true.mp (hbuiltin _ (by decide)) mark hmark)

end ForeignType

/-!
# Ends of lines
-/

namespace BindingModule

/-- A text that ends in a character which is no blank. -/
def EndsFirmly (s : String) : Prop :=
  ∃ front c, s.toList = front ++ [c] ∧ isBlank c = false

theorem EndsFirmly.append {s : String} (h : EndsFirmly s) (t : String) :
    EndsFirmly (t ++ s) := by
  rcases h with ⟨front, c, hs, hc⟩
  refine ⟨t.toList ++ front, c, ?_, hc⟩
  rw [String.toList_append, hs, List.append_assoc]

theorem EndsFirmly.trimEnd {s : String} (h : EndsFirmly s) : trimEnd s.toList = s.toList := by
  rcases h with ⟨front, c, hs, hc⟩
  rw [hs, trimEnd_concat front hc]

theorem endsFirmly_colon : EndsFirmly ":" :=
  ⟨[], ':', rfl, by decide⟩

theorem endsFirmly_of_getLast? {s : String} (hne : s.toList ≠ [])
    (h : ∀ c ∈ s.toList.getLast?, isBlank c = false) : EndsFirmly s := by
  rcases List.eq_nil_or_concat s.toList with hnil | ⟨front, c, hc⟩
  · exact absurd hnil hne
  · rw [List.concat_eq_append] at hc
    exact ⟨front, c, hc, h c (by simp [hc])⟩

theorem endsFirmly_token {t : ForeignType} (h : t.IsLegible) : EndsFirmly t.token := by
  rcases ForeignType.builtin_or_pointer_or_named t with hbuiltin | ⟨target, rfl⟩ | ⟨name, rfl⟩
  · rcases ForeignType.token_of_mem_builtinTypes hbuiltin with ⟨hne, hblank⟩
    exact endsFirmly_of_getLast? hne fun c hc => hblank c (List.mem_of_getLast? hc)
  · refine ⟨"c.ptr<".toList ++ target.token.toList, '>', ?_, by decide⟩
    rw [ForeignType.token_ptr, List.append_assoc]
  · apply endsFirmly_of_getLast?
    · intro hnil
      exact h.nonempty name rfl (String.toList_eq_nil_iff.mp hnil)
    · intro c hc
      apply getLast?_trim name.toList c
      rw [h.trimmed name rfl]
      exact hc

theorem endsFirmly_toString (v : Int) : EndsFirmly (toString v) := by
  have hnat : ∀ n : Nat, EndsFirmly n.repr := by
    intro n
    apply endsFirmly_of_getLast?
    · rw [Nat.toList_repr]
      exact Nat.toDigits_ne_nil
    · intro c hc
      rw [Nat.toList_repr] at hc
      apply isBlank_of_isDigit
      exact Nat.isDigit_of_mem_toDigits (by decide) (by decide) (List.mem_of_getLast? hc)
  cases v with
  | ofNat n =>
      exact hnat n
  | negSucc n =>
      exact (hnat (n + 1)).append "-"

/-!
# Lines
-/

namespace Line

structure IsLegible (l : Line) : Prop where
  names : ∀ name ∈ l.names, IsPlainName name
  types : ∀ t ∈ l.types, t.IsLegible
  fixed : ∀ f, l = .function f → f.variadic = false

theorem IsLegible.endsFirmly {l : Line} (h : l.IsLegible) : EndsFirmly l.text := by
  apply EndsFirmly.append
  apply EndsFirmly.append
  cases l with
  | record name isUnion =>
      exact endsFirmly_colon.append _
  | enumeration name underlying =>
      exact endsFirmly_colon.append _
  | enumerator v =>
      exact (endsFirmly_toString v.value).append _
  | field t | typedef t | global t =>
      exact (endsFirmly_token (h.types t.type (by simp [Line.types]))).append _
  | function f =>
      exact (endsFirmly_token (h.types f.returns (by simp [Line.types]))).append _

end Line
end BindingModule
end HeaderBinding
