import HeaderBinding.Proofs.Text.Blank
import HeaderBinding.Spelling.FunctionType

/-!
# Parenthesised groups

A group is a text in parentheses in which all other parentheses are paired. The group at
the end of a text is found by counting from the right, whatever stands before it.
-/

namespace HeaderBinding
namespace Spelling

open Text

/-!
# Paired parentheses
-/

inductive Balanced : List Char → Prop where
  | empty : Balanced []
  | plain {c : Char} (hopen : c ≠ '(') (hclose : c ≠ ')') : Balanced [c]
  | nested {s : List Char} (hs : Balanced s) : Balanced ('(' :: (s ++ [')']))
  | append {s t : List Char} (hs : Balanced s) (ht : Balanced t) : Balanced (s ++ t)

/-- A text without parentheses. -/
def Unparenthesised (s : List Char) : Prop :=
  '(' ∉ s ∧ ')' ∉ s

instance : DecidablePred Unparenthesised := fun s =>
  inferInstanceAs (Decidable ('(' ∉ s ∧ ')' ∉ s))

theorem Unparenthesised.balanced {s : List Char} (h : Unparenthesised s) : Balanced s := by
  induction s with
  | nil =>
      exact Balanced.empty
  | cons c s ih =>
      have hc : c ≠ '(' ∧ c ≠ ')' :=
        ⟨(List.ne_of_not_mem_cons h.1).symm, (List.ne_of_not_mem_cons h.2).symm⟩
      have hs : Unparenthesised s :=
        ⟨List.not_mem_of_not_mem_cons h.1, List.not_mem_of_not_mem_cons h.2⟩
      exact Balanced.append (Balanced.plain hc.1 hc.2) (ih hs)

/-- A text in parentheses, with the parentheses in it in pairs. -/
structure Group where
  content : List Char
  balanced : Balanced content

namespace Group

def text (g : Group) : List Char :=
  '(' :: (g.content ++ [')'])

theorem balanced_text (g : Group) : Balanced g.text :=
  Balanced.nested g.balanced

theorem inside_text (g : Group) : inside g.text = g.content := by
  simp [inside, text]

/-- A group ends in its own parenthesis, so nothing is trimmed behind one. -/
theorem trimEnd_append_text (front : List Char) (g : Group) :
    trimEnd (front ++ g.text) = front ++ g.text := by
  have hclose : isBlank ')' = false := by
    decide
  have h := trimEnd_concat (front ++ '(' :: g.content) hclose
  simpa [text] using h

end Group

/-!
# Counting from the right
-/

theorem takeGroup_close (depth : Nat) (rest : List Char) :
    takeGroup depth (')' :: rest) =
      (takeGroup (depth + 1) rest).map fun r => (')' :: r.1, r.2) := by
  rfl

theorem takeGroup_open (depth : Nat) (rest : List Char) :
    takeGroup (depth + 2) ('(' :: rest) =
      (takeGroup (depth + 1) rest).map fun r => ('(' :: r.1, r.2) := by
  rfl

theorem takeGroup_last (rest : List Char) : takeGroup 1 ('(' :: rest) = some (['('], rest) := by
  rfl

theorem takeGroup_plain (depth : Nat) {c : Char} (rest : List Char) (hopen : c ≠ '(')
    (hclose : c ≠ ')') :
    takeGroup depth (c :: rest) = (takeGroup depth rest).map fun r => (c :: r.1, r.2) := by
  rw [takeGroup, if_neg hclose, if_neg hopen]

/-- Inside a group, a text with paired parentheses leaves the count as it was. -/
theorem takeGroup_balanced {s : List Char} (h : Balanced s) (depth : Nat) (rest : List Char) :
    takeGroup (depth + 1) (s.reverse ++ rest) =
      (takeGroup (depth + 1) rest).map fun r => (s.reverse ++ r.1, r.2) := by
  induction h generalizing depth rest with
  | empty =>
      simp
  | plain hopen hclose =>
      exact takeGroup_plain (depth + 1) rest hopen hclose
  | @nested s hs ih =>
      have hreverse : ('(' :: (s ++ [')'])).reverse = ')' :: (s.reverse ++ ['(']) := by
        simp
      rw [hreverse, List.cons_append, List.append_assoc, List.singleton_append, takeGroup_close,
        ih (depth + 1), takeGroup_open, Option.map_map, Option.map_map]
      congr 1
      funext r
      simp
  | append hs ht ihs iht =>
      rw [List.reverse_append, List.append_assoc, iht, ihs, Option.map_map]
      congr 1
      funext r
      simp

theorem lastGroup?_append_text (front : List Char) (g : Group) :
    lastGroup? (front ++ g.text) = some (front, g.text) := by
  have hreverse : (front ++ g.text).reverse =
      ')' :: (g.content.reverse ++ '(' :: front.reverse) := by
    simp [Group.text]
  have htake : takeGroup 0 (')' :: (g.content.reverse ++ '(' :: front.reverse)) =
      some (g.text.reverse, front.reverse) := by
    rw [takeGroup_close, takeGroup_balanced g.balanced, takeGroup_last]
    simp [Group.text]
  unfold lastGroup?
  rw [hreverse]
  change (takeGroup 0 _).map _ = _
  rw [htake]
  simp

theorem lastGroup?_eq_none {s : List Char} (h : s.getLast? ≠ some ')') :
    lastGroup? s = none := by
  unfold lastGroup?
  split
  next rest hs =>
    have hlast : s.getLast? = some ')' := by
      rw [← List.head?_reverse, hs]
      rfl
    exact absurd hlast h
  next =>
    rfl

/-!
# Splitting a function type
-/

theorem splitFunction?_of_none {s : List Char} (h : lastGroup? (trimEnd s) = none) :
    splitFunction? s = none := by
  rw [splitFunction?.eq_def]
  split
  next =>
    rfl
  next hsome =>
    rw [h] at hsome
    cases hsome

/-- A group with no other one before it is the own parameter list. -/
theorem splitFunction?_of_plain {s head params : List Char}
    (hparams : lastGroup? (trimEnd s) = some (head, params))
    (hhead : lastGroup? (trimEnd head) = none) :
    splitFunction? s = some (trimEnd head, params) := by
  rw [splitFunction?.eq_def]
  split
  next hnone =>
    rw [hparams] at hnone
    cases hnone
  next head' params' hsome =>
    rw [hparams] at hsome
    cases hsome
    split
    next =>
      rfl
    next hgroup =>
      rw [hhead] at hgroup
      cases hgroup

/-- With another group before the last one, what is inside of that group decides. -/
theorem splitFunction?_of_groups {s head params front group : List Char}
    (hparams : lastGroup? (trimEnd s) = some (head, params))
    (hgroup : lastGroup? (trimEnd head) = some (front, group)) :
    splitFunction? s =
      match splitFunction? (inside group) with
      | none => some (trimEnd head, params)
      | some (returned, own) => some (front ++ '(' :: returned ++ ')' :: params, own) := by
  rw [splitFunction?.eq_def]
  split
  next hnone =>
    rw [hparams] at hnone
    cases hnone
  next head' params' hsome =>
    rw [hparams] at hsome
    cases hsome
    split
    next hnone =>
      rw [hgroup] at hnone
      cases hnone
    next front' group' hsome =>
      rw [hgroup] at hsome
      cases hsome
      rfl

/-- A group that is split itself is a declarator, and holds the own parameter list. -/
theorem splitFunction?_of_declarator {s head params front group returned own : List Char}
    (hparams : lastGroup? (trimEnd s) = some (head, params))
    (hgroup : lastGroup? (trimEnd head) = some (front, group))
    (hinside : splitFunction? (inside group) = some (returned, own)) :
    splitFunction? s = some (front ++ '(' :: returned ++ ')' :: params, own) := by
  rw [splitFunction?_of_groups hparams hgroup, hinside]

end Spelling
end HeaderBinding
