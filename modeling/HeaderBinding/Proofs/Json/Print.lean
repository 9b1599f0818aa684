import HeaderBinding.Json.Tree
import HeaderBinding.Proofs.Json.Layout

/-!
# Every datum has a text

A datum is printed without padding, its strings being quoted as in any JSON that is
written, and what is printed lays out its tokens.
-/

namespace HeaderBinding
namespace Json

/-!
# Quoted strings
-/

theorem hexUnit_controlDigits {c : Char} (h : c.toNat < 0x20) :
    HexUnit c.toNat ('0' :: '0' :: controlDigits c) := by
  have hdigits : ∀ n < 0x20, Text.hexDigit? (Nat.digitChar (n / 16)) = some (n / 16) ∧
      Text.hexDigit? (Nat.digitChar (n % 16)) = some (n % 16) := by
    decide
  rcases hdigits c.toNat h with ⟨hhigh, hlow⟩
  have hzero : Text.hexDigit? '0' = some 0 := by decide
  have hunit := HexUnit.digits hzero hzero hhigh hlow
  have hvalue : ((0 * 16 + 0) * 16 + c.toNat / 16) * 16 + c.toNat % 16 = c.toNat := by
    omega
  rw [hvalue] at hunit
  exact hunit

theorem spelled_escapedChar (c : Char) : Spelled c (escapedChar c) := by
  unfold escapedChar
  split
  case h_8 hquote hback _ _ _ _ _ =>
    by_cases hcontrol : c.toNat < 0x20
    · rw [if_pos hcontrol]
      exact .unit (hexUnit_controlDigits hcontrol)
    · rw [if_neg hcontrol]
      exact .plain (Nat.not_lt.mp hcontrol) hquote hback
  all_goals exact .short (by decide)

theorem body_escaped (s : List Char) : Body s (s.flatMap escapedChar) := by
  induction s with
  | nil =>
      exact .nil
  | cons c s ih =>
      exact .cons (spelled_escapedChar c) ih

/-!
# Decimal digits
-/

theorem digits_toDigits (n : Nat) : Digits n (Nat.toDigits 10 n) := by
  have hdigit : ∀ k < 10, (Nat.digitChar k).isDigit = true ∧ digitOf (Nat.digitChar k) = k := by
    decide
  induction n using Nat.strongRecOn with
  | ind n ih =>
      rw [Nat.toDigits_eq_if (by decide)]
      by_cases hn : n < 10
      · rw [if_pos hn]
        rcases hdigit n hn with ⟨hchar, hvalue⟩
        have hsingle := Digits.single hchar
        rw [hvalue] at hsingle
        exact hsingle
      · rw [if_neg hn]
        rcases hdigit (n % 10) (Nat.mod_lt n (by decide)) with ⟨hchar, hvalue⟩
        have happend := Digits.append (ih (n / 10) (by omega)) (by omega) hchar
        rw [hvalue, Nat.div_add_mod'] at happend
        exact happend

/-!
# Printing
-/

namespace Datum

mutual

def print : Datum → List Char
  | null => ['n', 'u', 'l', 'l']
  | flag true => ['t', 'r', 'u', 'e']
  | flag false => ['f', 'a', 'l', 's', 'e']
  | natural n => Nat.toDigits 10 n.toNat
  | text s => quote s
  | array [] => ['[', ']']
  | array (d :: items) => '[' :: (d.print ++ printItems items)
  | object [] => ['{', '}']
  | object ((key, d) :: members) =>
      '{' :: (quote key ++ ':' :: (d.print ++ printMembers members))

def printItems : List Datum → List Char
  | [] => [']']
  | d :: items => ',' :: (d.print ++ printItems items)

def printMembers : List (String × Datum) → List Char
  | [] => ['}']
  | (key, d) :: members => ',' :: (quote key ++ ':' :: (d.print ++ printMembers members))

end

end Datum

theorem layout_quote {s : String} {tokens : List Token} {text : List Char}
    (h : Layout tokens text) : Layout (.text (.whole s) :: tokens) (quote s ++ text) :=
  .cons (.text (body_escaped s.toList)) h

theorem layout_mark {c : Char} {token : Token} {tokens : List Token} {text : List Char}
    (hpiece : Lexeme token [c]) (h : Layout tokens text) : Layout (token :: tokens) (c :: text) :=
  .cons hpiece h

theorem layout_key (key : String) {tokens : List Token} {text : List Char}
    (h : Layout tokens text) :
    Layout (.text (.whole key) :: .colon :: tokens) (quote key ++ ':' :: text) :=
  layout_quote (layout_mark .colon h)

namespace Datum

mutual

theorem layout_print (d : Datum) {ts : List Token} {text : List Char}
    (h : Layout ts text) (hend : ∀ c ∈ text.head?, c ∈ enders) :
    Layout (d.tokens ++ ts) (d.print ++ text) := by
  cases d with
  | null =>
      exact .cons .null h
  | flag b =>
      cases b with
      | true =>
          exact .cons .true h
      | false =>
          exact .cons .false h
  | natural n =>
      exact .number (digits_toDigits n.toNat) hend h
  | text s =>
      exact layout_quote h
  | array items =>
      cases items with
      | nil =>
          exact layout_mark .openArray (layout_mark .closeArray h)
      | cons d items =>
          rcases layout_printItems items h with ⟨hitems, hitemsEnd⟩
          have hd := layout_print d hitems hitemsEnd
          rw [← List.append_assoc, ← List.append_assoc] at hd
          exact layout_mark .openArray hd
  | object members =>
      cases members with
      | nil =>
          exact layout_mark .openObject (layout_mark .closeObject h)
      | cons member members =>
          rcases member with ⟨key, d⟩
          rcases layout_printMembers members h with ⟨hmembers, hmembersEnd⟩
          have hd := layout_print d hmembers hmembersEnd
          have hkey := layout_mark .openObject (layout_key key hd)
          simpa [tokens, print] using hkey

/-- Items end a number that stands before them. -/
theorem layout_printItems (items : List Datum) {ts : List Token} {text : List Char}
    (h : Layout ts text) :
    Layout (itemTokens items ++ ts) (printItems items ++ text) ∧
      ∀ c ∈ (printItems items ++ text).head?, c ∈ enders := by
  cases items with
  | nil =>
      refine ⟨layout_mark .closeArray h, ?_⟩
      rintro c ⟨⟩
      decide
  | cons d items =>
      rcases layout_printItems items h with ⟨hitems, hend⟩
      have hd := layout_print d hitems hend
      rw [← List.append_assoc, ← List.append_assoc] at hd
      refine ⟨layout_mark .comma hd, ?_⟩
      rintro c ⟨⟩
      decide

theorem layout_printMembers (members : List (String × Datum)) {ts : List Token}
    {text : List Char} (h : Layout ts text) :
    Layout (memberTokens members ++ ts) (printMembers members ++ text) ∧
      ∀ c ∈ (printMembers members ++ text).head?, c ∈ enders := by
  cases members with
  | nil =>
      refine ⟨layout_mark .closeObject h, ?_⟩
      rintro c ⟨⟩
      decide
  | cons member members =>
      rcases member with ⟨key, d⟩
      rcases layout_printMembers members h with ⟨hmembers, hend⟩
      have hd := layout_print d hmembers hend
      have hkey := layout_mark .comma (layout_key key hd)
      refine ⟨by simpa [memberTokens, printMembers] using hkey, ?_⟩
      rintro c ⟨⟩
      decide

end

/-- What is printed of a datum lays out its tokens. -/
theorem layout_tokens (d : Datum) : Layout d.tokens d.print := by
  have hprint := layout_print d Layout.nil (fun c hc => absurd hc (Option.not_mem_none c))
  rw [List.append_nil, List.append_nil] at hprint
  exact hprint

end Datum
end Json
end HeaderBinding
