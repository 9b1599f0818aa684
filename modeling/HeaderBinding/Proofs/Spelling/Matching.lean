import HeaderBinding.Proofs.Spelling.Group
import HeaderBinding.Proofs.Text.Slice
import HeaderBinding.Spelling.Slices

/-!
# Matching parentheses

The parenthesis that ends a text is matched by the last one that leaves paired parentheses
between the two. Counting from the right finds it wherever there is one, and the count tells
its byte position.
-/

namespace HeaderBinding
namespace Spelling

open Text

/-!
# Open parentheses
-/

/-- A text in which a number of parentheses are open, and all others are paired. -/
inductive Unclosed : Nat → List Char → Prop where
  | zero : Unclosed 0 []
  | succ {n : Nat} {s t : List Char} (hs : Unclosed n s) (ht : Balanced t) :
      Unclosed (n + 1) (s ++ '(' :: t)

namespace Unclosed

theorem append {n : Nat} {s t : List Char} (hs : Unclosed (n + 1) s) (ht : Balanced t) :
    Unclosed (n + 1) (s ++ t) := by
  cases hs with
  | succ hs hinner =>
      rw [List.append_assoc]
      exact hs.succ (hinner.append ht)

/-- A closing parenthesis is paired with the last one that is open. -/
theorem close {n : Nat} {s : List Char} (hs : Unclosed (n + 2) s) :
    Unclosed (n + 1) (s ++ [')']) := by
  cases hs with
  | succ hs hinner =>
      rw [List.append_assoc]
      exact hs.append hinner.nested

theorem exists_group {s : List Char} (hs : Unclosed 1 s) :
    ∃ g : Group, s ++ [')'] = g.text := by
  cases hs with
  | succ hs hinner =>
      cases hs with
      | zero =>
          exact ⟨⟨_, hinner⟩, rfl⟩

end Unclosed

/-!
# Groups
-/

theorem exists_taken_of_map {taken : Option (List Char × List Char)} {c : Char}
    {group rest : List Char}
    (h : taken.map (fun r => (c :: r.1, r.2)) = some (group, rest)) :
    ∃ inner, taken = some (inner, rest) ∧ group.reverse = inner.reverse ++ [c] := by
  obtain ⟨⟨inner, _⟩, htaken, heq⟩ := Option.map_eq_some_iff.mp h
  cases heq
  exact ⟨inner, htaken, List.reverse_cons⟩

/-- What is taken up to the end of a count opens as many parentheses as were counted. -/
theorem unclosed_of_takeGroup {depth : Nat} {s group rest : List Char}
    (h : takeGroup (depth + 1) s = some (group, rest)) :
    Unclosed (depth + 1) group.reverse := by
  induction s generalizing depth group with
  | nil =>
      cases h
  | cons c s ih =>
      by_cases hclose : c = ')'
      · subst hclose
        obtain ⟨inner, hinner, hgroup⟩ := exists_taken_of_map h
        rw [hgroup]
        exact (ih hinner).close
      · by_cases hopen : c = '('
        · subst hopen
          cases depth with
          | zero =>
              cases h
              exact Unclosed.zero.succ Balanced.empty
          | succ depth =>
              obtain ⟨inner, hinner, hgroup⟩ := exists_taken_of_map h
              rw [hgroup]
              exact (ih hinner).succ Balanced.empty
        · rw [takeGroup_plain _ s hopen hclose] at h
          obtain ⟨inner, hinner, hgroup⟩ := exists_taken_of_map h
          rw [hgroup]
          exact (ih hinner).append (Balanced.plain hopen hclose)

/-- A text is split in front of its last group, and only there. -/
theorem lastGroup?_eq_some_iff {s front group : List Char} :
    lastGroup? s = some (front, group) ↔
      ∃ g : Group, group = g.text ∧ s = front ++ g.text := by
  constructor
  · intro h
    have hsplit := append_of_lastGroup? h
    unfold lastGroup? at h
    split at h
    next rest _ =>
      obtain ⟨⟨taken, _⟩, htaken, heq⟩ := Option.map_eq_some_iff.mp h
      cases heq
      obtain ⟨inner, hinner, hgroup⟩ := exists_taken_of_map htaken
      obtain ⟨g, hg⟩ := (unclosed_of_takeGroup hinner).exists_group
      rw [hgroup, hg] at hsplit ⊢
      exact ⟨g, rfl, hsplit.symm⟩
    next =>
      cases h
  · rintro ⟨g, rfl, rfl⟩
    exact lastGroup?_append_text front g

theorem lastGroup?_eq_none_iff {s : List Char} :
    lastGroup? s = none ↔ ¬∃ (front : List Char) (g : Group), s = front ++ g.text := by
  rw [Option.eq_none_iff_forall_ne_some]
  constructor
  · rintro h ⟨front, g, hs⟩
    exact h (front, g.text) (lastGroup?_eq_some_iff.mpr ⟨g, rfl, hs⟩)
  · rintro h ⟨front, group⟩ hgroup
    obtain ⟨g, -, hs⟩ := lastGroup?_eq_some_iff.mp hgroup
    exact h ⟨front, g, hs⟩

/-!
# Byte positions
-/

theorem charPositions_append (i : Nat) (s t : List Char) :
    charPositions i (s ++ t) = charPositions i s ++ charPositions (i + byteLength s) t := by
  induction s generalizing i with
  | nil =>
      rfl
  | cons c s ih =>
      have hnext : i + c.utf8Size + byteLength s = i + byteLength (c :: s) := by
        rw [byteLength_cons, Nat.add_assoc]
      rw [List.cons_append, charPositions, ih, hnext]
      rfl

theorem reverse_charPositions_concat (s : List Char) (c : Char) :
    (charPositions 0 (s ++ [c])).reverse = (byteLength s, c) :: (charPositions 0 s).reverse := by
  rw [charPositions_append, List.reverse_append, Nat.zero_add]
  rfl

/-- The position at which a count ends is that of the text which is left. -/
theorem openingFrom_reverse (depth : Nat) (s : List Char) :
    openingFrom (depth + 1 : Nat) (charPositions 0 s.reverse).reverse =
      (takeGroup (depth + 1) s).map fun r => byteLength r.2.reverse := by
  induction s generalizing depth with
  | nil =>
      rfl
  | cons c s ih =>
      rw [List.reverse_cons, reverse_charPositions_concat]
      by_cases hclose : c = ')'
      · subst hclose
        rw [takeGroup_close, Option.map_map]
        exact ih (depth + 1)
      · by_cases hopen : c = '('
        · subst hopen
          cases depth with
          | zero =>
              rfl
          | succ depth =>
              have hcount : ((depth + 1 + 1 : Nat) : Int) - 1 = (depth + 1 : Nat) := by
                omega
              have hpositive : ((depth + 1 : Nat) : Int) ≠ 0 := by
                omega
              rw [takeGroup_open, Option.map_map, openingFrom, if_neg hclose, if_pos rfl, hcount,
                if_neg hpositive]
              exact ih depth
        · rw [takeGroup_plain _ s hopen hclose, Option.map_map, openingFrom, if_neg hclose,
            if_neg hopen]
          exact ih depth

/-- The matching parenthesis starts the last group. -/
theorem matchingOpen?_eq (s : List Char) :
    matchingOpen? s = (lastGroup? s).map fun r => byteLength r.1 := by
  rcases List.eq_nil_or_concat s with rfl | ⟨front, c, rfl⟩
  · rfl
  · rw [List.concat_eq_append]
    by_cases hclose : c = ')'
    · subst hclose
      have hreverse : (front ++ [')']).reverse = ')' :: front.reverse := by
        simp
      have hcount := openingFrom_reverse 0 front.reverse
      rw [List.reverse_reverse] at hcount
      unfold matchingOpen? lastGroup?
      rw [List.getLast?_concat, if_pos rfl, reverse_charPositions_concat, hreverse]
      change openingFrom (0 + 1 : Nat) _ = ((takeGroup 0 (')' :: front.reverse)).map _).map _
      rw [hcount, takeGroup_close, Option.map_map, Option.map_map]
      rfl
    · have hlast : (front ++ [c]).getLast? ≠ some ')' := by
        rw [List.getLast?_concat]
        exact mt Option.some.inj hclose
      rw [lastGroup?_eq_none hlast, matchingOpen?, if_neg hlast]
      rfl

end Spelling
end HeaderBinding
