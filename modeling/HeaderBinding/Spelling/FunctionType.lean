import HeaderBinding.Text.Blank

/-!
# Function types in a spelling

The spelling of a function type is that of the return type with the function's
own parameter list put into it: at the end, or, when the return type is itself a
pointer to a function, inside the declarator of that pointer.
-/

namespace HeaderBinding
namespace Spelling

open Text

/-- Takes the parenthesised group at the front of a reversed text, given how many
of its parentheses are open. -/
def takeGroup (depth : Nat) : List Char → Option (List Char × List Char)
  | [] => none
  | c :: rest =>
      if c = ')' then (takeGroup (depth + 1) rest).map fun r => (c :: r.1, r.2)
      else if c = '(' then
        if depth ≤ 1 then some ([c], rest)
        else (takeGroup (depth - 1) rest).map fun r => (c :: r.1, r.2)
      else (takeGroup depth rest).map fun r => (c :: r.1, r.2)

/-- Splits off the parenthesised group at the end of a text. -/
def lastGroup? (s : List Char) : Option (List Char × List Char) :=
  match s.reverse with
  | ')' :: rest => (takeGroup 0 (')' :: rest)).map fun r => (r.2.reverse, r.1.reverse)
  | _ => none

theorem append_of_takeGroup {depth : Nat} {s group rest : List Char}
    (h : takeGroup depth s = some (group, rest)) : group ++ rest = s := by
  induction s generalizing depth group rest with
  | nil =>
      simp [takeGroup] at h
  | cons c s ih =>
      have step : ∀ d, (takeGroup d s).map (fun r => (c :: r.1, r.2)) = some (group, rest) →
          group ++ rest = c :: s := by
        intro d hd
        obtain ⟨⟨g, r⟩, hg, he⟩ := Option.map_eq_some_iff.mp hd
        cases he
        simp [ih hg]
      unfold takeGroup at h
      split at h
      · exact step _ h
      · split at h
        · split at h
          · cases h
            rfl
          · exact step _ h
        · exact step _ h

theorem append_of_lastGroup? {s front group : List Char}
    (h : lastGroup? s = some (front, group)) : front ++ group = s := by
  unfold lastGroup? at h
  split at h
  next rest hs =>
    obtain ⟨⟨g, r⟩, hg, he⟩ := Option.map_eq_some_iff.mp h
    cases he
    have := append_of_takeGroup hg
    rw [← List.reverse_append, this, ← hs, List.reverse_reverse]
  next =>
    cases h

/-- What is inside the parentheses of a group. -/
def inside (group : List Char) : List Char :=
  group.tail.dropLast

theorem length_inside_le (group : List Char) : (inside group).length ≤ group.length := by
  simp [inside]
  omega

theorem length_group_pos {s front group : List Char}
    (h : lastGroup? s = some (front, group)) : 0 < group.length := by
  unfold lastGroup? at h
  split at h
  next rest hs =>
    obtain ⟨⟨g, r⟩, hg, he⟩ := Option.map_eq_some_iff.mp h
    cases he
    simp only [takeGroup, if_true, Option.map_eq_some_iff, Prod.mk.injEq] at hg
    obtain ⟨_, _, hg, _⟩ := hg
    simp [← hg]
  next =>
    cases h

theorem length_declarator_lt {s head params front group : List Char}
    (h₁ : lastGroup? (trimEnd s) = some (head, params))
    (h₂ : lastGroup? (trimEnd head) = some (front, group)) :
    (inside group).length < s.length := by
  have e₁ := congrArg List.length (append_of_lastGroup? h₁)
  have e₂ := congrArg List.length (append_of_lastGroup? h₂)
  have p₁ := length_group_pos h₁
  have t₁ := length_trimEnd_le s
  have t₂ := length_trimEnd_le head
  have i := length_inside_le group
  simp only [List.length_append] at e₁ e₂
  omega

/-- The return type of a function type, and the function's own parameter list with
its parentheses. -/
def splitFunction? (s : List Char) : Option (List Char × List Char) :=
  match _h₁ : lastGroup? (trimEnd s) with
  | none => none
  | some (head, params) =>
      match _h₂ : lastGroup? (trimEnd head) with
      | none => some (trimEnd head, params)
      | some (front, group) =>
          match splitFunction? (inside group) with
          | none => some (trimEnd head, params)
          | some (returned, own) => some (front ++ '(' :: returned ++ ')' :: params, own)
termination_by s.length
decreasing_by exact length_declarator_lt _h₁ _h₂

def variadicEnd : List Char :=
  ['.', '.', '.', ')']

/-- Whether a parameter list ends in an ellipsis. -/
def isVariadic (params : List Char) : Bool :=
  variadicEnd.isSuffixOf params

end Spelling
end HeaderBinding
