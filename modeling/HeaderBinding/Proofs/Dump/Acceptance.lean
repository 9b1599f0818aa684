import HeaderBinding.Dump.Reader
import HeaderBinding.Proofs.Json.Acceptance

/-!
# Texts that are read

A node is read up to the brace that ends it, so whatever is wrong with its text is met. Only
what keeps to the grammar is read as a tree.
-/

namespace HeaderBinding
namespace Dump

open Json
open Except (ok)

/-- A reading of something with this ending is refused unless the ending is in order. -/
def Ends (ending : Option Fault) (reading : Reading α) : Prop :=
  ∀ recent result, reading recent = ok result → ending = none

variable {ending : Option Fault}

theorem ends_refuse (fault : Fault) : Ends ending (refuse fault : Reading α) := by
  intro recent result h
  cases h

theorem ends_bind {x : Reading α} {f : α → Reading β} (h : ∀ a, Ends ending (f a)) :
    Ends ending (x >>= f) := by
  intro recent result hresult
  rcases bind_eq_ok hresult with ⟨⟨a, recent'⟩, -, hrest⟩
  exact h a recent' result hrest

theorem ends_finish {f : Unit → Reading α} : Ends ending (liftM (finish ending) >>= f) := by
  intro recent result h
  cases ending with
  | none =>
      rfl
  | some fault =>
      cases h

theorem ends_readFields (room : Nat) (id : UInt64) (kind : NodeKind) (s : NodeDraft)
    (children : List Node) (members : List Member) :
    Ends ending (readFields room ending id kind s children members) := by
  induction members generalizing s children with
  | nil =>
      unfold readFields
      exact ends_finish
  | cons member members ih =>
      unfold readFields
      apply ends_bind
      intro key
      split
      · exact ends_bind fun children => ih s children
      · exact ends_bind fun s => ih s children

theorem ends_readFromKind (room : Nat) (id : UInt64) (members : List Member) :
    Ends ending (readFromKind room ending id members) := by
  unfold readFromKind
  cases members with
  | nil =>
      exact ends_finish
  | cons member members =>
      apply ends_bind
      intro key
      split
      · exact ends_refuse _
      · exact ends_bind fun name => ends_readFields room id _ _ _ members

theorem ends_readNodeMembers (room : Nat) (members : List Member) :
    Ends ending (readNodeMembers room ending members) := by
  unfold readNodeMembers
  cases members with
  | nil =>
      exact ends_finish
  | cons member members =>
      apply ends_bind
      intro key
      split
      · exact ends_bind fun id => ends_readFromKind room id members
      · exact ends_bind fun name => ends_readFields room 0 _ _ _ members
      · exact ends_refuse _

theorem ends_readNode (room : Nat) (v : Value) : Ends v.passing (readNode room v) := by
  cases v with
  | object members ending =>
      exact ends_bind fun room => ends_readNodeMembers room members
  | _ =>
      exact ends_refuse _

/-- A text that is read is one of a source. -/
theorem Node.exists_source_of_ofText {t : List UInt8} {n : Node} (h : Node.ofText t = ok n) :
    ∃ d : Source, Source.Spread d.pieces t := by
  unfold Node.ofText at h
  rcases bind_eq_ok h with ⟨⟨root, recent⟩, hread, h⟩
  rcases bind_eq_ok h with ⟨_, hfinish, -⟩
  have hpassing : (Document.ofText t).value.passing = none := ends_readNode _ _ _ _ hread
  have htrailing : (Document.ofText t).trailing = none := by
    unfold finish at hfinish
    split at hfinish
    · cases hfinish
    · assumption
  have hdocument : Document.ofText t = ⟨(Document.ofText t).value, none⟩ := by
    rw [← htrailing]
  rcases Document.ofText_eq_iff.mp ⟨hdocument, hpassing⟩ with ⟨d, -, hspread⟩
  exact ⟨d, hspread⟩

end Dump
end HeaderBinding
