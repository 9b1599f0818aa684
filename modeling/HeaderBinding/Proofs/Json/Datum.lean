import HeaderBinding.Proofs.Json.Phrase

/-!
# Values that are in order

A datum is a value without faults, whose numbers are natural numbers of 64 bits. Its
tokens are those of any text that holds it, and they are read back as its value.
-/

namespace HeaderBinding
namespace Json

inductive Datum where
  | null
  | flag (b : Bool)
  | natural (n : UInt64)
  | text (s : String)
  | array (items : List Datum)
  | object (members : List (String × Datum))

namespace Datum

mutual

def value : Datum → Value
  | null => .atom (.whole .null)
  | flag b => .atom (.whole (.flag b))
  | natural n => .atom (.whole (.number (some n)))
  | text s => .atom (.whole (.text s))
  | array items => .array (itemValues items) none
  | object members => .object (memberValues members) none

def itemValues : List Datum → List Value
  | [] => []
  | d :: items => d.value :: itemValues items

def memberValues : List (String × Datum) → List Member
  | [] => []
  | (key, d) :: members => (.whole key, d.value) :: memberValues members

end

theorem passing_value (d : Datum) : d.value.passing = none := by
  cases d <;>
    rfl

mutual

/-- How deep arrays and objects are nested in a datum. -/
def depth : Datum → Nat
  | null => 0
  | flag _ => 0
  | natural _ => 0
  | text _ => 0
  | array items => itemDepth items + 1
  | object members => memberDepth members + 1

def itemDepth : List Datum → Nat
  | [] => 0
  | d :: items => max d.depth (itemDepth items)

def memberDepth : List (String × Datum) → Nat
  | [] => 0
  | (_, d) :: members => max d.depth (memberDepth members)

end

theorem depth_le_of_mem {key : String} {d : Datum} {members : List (String × Datum)}
    (h : (key, d) ∈ members) : d.depth ≤ memberDepth members := by
  induction members with
  | nil =>
      cases h
  | cons member members ih =>
      rcases member with ⟨name, first⟩
      unfold memberDepth
      rcases List.mem_cons.mp h with hd | hd
      · cases hd
        exact Nat.le_max_left _ _
      · exact Nat.le_trans (ih hd) (Nat.le_max_right _ _)

/-!
# Tokens

The tokens of items and of members are those behind a first one, up to the bracket
that ends them.
-/

mutual

def tokens : Datum → List Token
  | null => [.atom (.whole .null)]
  | flag b => [.atom (.whole (.flag b))]
  | natural n => [.atom (.whole (.number (some n)))]
  | text s => [.text (.whole s)]
  | array [] => [.openArray, .closeArray]
  | array (d :: items) => .openArray :: (d.tokens ++ itemTokens items)
  | object [] => [.openObject, .closeObject]
  | object ((key, d) :: members) =>
      .openObject :: .text (.whole key) :: .colon :: (d.tokens ++ memberTokens members)

def itemTokens : List Datum → List Token
  | [] => [.closeArray]
  | d :: items => .comma :: (d.tokens ++ itemTokens items)

def memberTokens : List (String × Datum) → List Token
  | [] => [.closeObject]
  | (key, d) :: members =>
      .comma :: .text (.whole key) :: .colon :: (d.tokens ++ memberTokens members)

end

/-!
# Reading the tokens
-/

mutual

theorem phrase_tokens (d : Datum) : Phrase d.value d.tokens := by
  cases d with
  | null =>
      exact .scalar rfl
  | flag b =>
      exact .scalar rfl
  | natural n =>
      exact .scalar rfl
  | text s =>
      exact @Phrase.text (.whole s) rfl
  | array items =>
      cases items with
      | nil =>
          exact .emptyArray
      | cons d items =>
          exact .array (phrase_tokens d) (itemPhrases_itemTokens items)
  | object members =>
      cases members with
      | nil =>
          exact .emptyObject
      | cons member members =>
          rcases member with ⟨key, d⟩
          exact .object rfl (phrase_tokens d) (memberPhrases_memberTokens members)

theorem itemPhrases_itemTokens (items : List Datum) :
    ItemPhrases (itemValues items) (itemTokens items) := by
  cases items with
  | nil =>
      exact .close
  | cons d items =>
      exact .next (phrase_tokens d) (itemPhrases_itemTokens items)

theorem memberPhrases_memberTokens (members : List (String × Datum)) :
    MemberPhrases (memberValues members) (memberTokens members) := by
  cases members with
  | nil =>
      exact .close
  | cons member members =>
      rcases member with ⟨key, d⟩
      exact .next rfl (phrase_tokens d) (memberPhrases_memberTokens members)

end

end Datum
end Json
end HeaderBinding
