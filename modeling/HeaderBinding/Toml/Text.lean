import HeaderBinding.Text.Hex

/-!
# Strings in TOML

Four forms: on one line or over several, with escapes or without. The scanners
start behind the opening quotes and end behind the closing ones.
-/

namespace HeaderBinding
namespace Toml

/-- Whether a character may stand for itself in a comment or on a line of a string. -/
def isPrintable (c : Char) : Bool :=
  c == '\t' || (0x20 ≤ c.toNat && c.toNat ≠ 0x7f)

/-- The character with a number, unless it is a surrogate or out of range. -/
def scalar? (n : Nat) : Option Char :=
  if h : n.isValidChar then some (Char.ofNatAux n h) else none

/-- Takes so many hexadecimal digits as the number of a character. -/
def numbered (count n : Nat) (s : List Char) : Option (Char × List Char) :=
  match count, s with
  | 0, s => (scalar? n).map (·, s)
  | _ + 1, [] => none
  | count + 1, c :: rest =>
      match Text.hexDigit? c with
      | some d => numbered count (n * 16 + d) rest
      | none => none

/-- Takes an escape, which starts behind its backslash. -/
def escape : List Char → Option (Char × List Char)
  | 'b' :: rest => some ('\x08', rest)
  | 't' :: rest => some ('\t', rest)
  | 'n' :: rest => some ('\n', rest)
  | 'f' :: rest => some ('\x0c', rest)
  | 'r' :: rest => some ('\r', rest)
  | 'e' :: rest => some ('\x1b', rest)
  | '"' :: rest => some ('"', rest)
  | '\\' :: rest => some ('\\', rest)
  | 'x' :: rest => numbered 2 0 rest
  | 'u' :: rest => numbered 4 0 rest
  | 'U' :: rest => numbered 8 0 rest
  | _ => none

theorem length_numbered_le {count n : Nat} {s rest : List Char} {c : Char}
    (h : numbered count n s = some (c, rest)) : rest.length ≤ s.length := by
  induction count generalizing n s with
  | zero =>
      obtain ⟨_, _, he⟩ := Option.map_eq_some_iff.mp h
      cases he
      exact Nat.le_refl _
  | succ count ih =>
      cases s with
      | nil =>
          cases h
      | cons d s =>
          unfold numbered at h
          split at h
          · exact Nat.le_succ_of_le (ih h)
          · cases h

theorem length_escape_lt {s rest : List Char} {c : Char}
    (h : escape s = some (c, rest)) : rest.length < s.length := by
  unfold escape at h
  split at h
  all_goals first
    | (cases h; exact Nat.lt_succ_self _)
    | exact Nat.lt_succ_of_le (length_numbered_le h)
    | cases h

/-!
# On one line
-/

def literal : List Char → Option (List Char × List Char)
  | [] => none
  | c :: rest =>
      if c = '\'' then some ([], rest)
      else if isPrintable c then (literal rest).map fun r => (c :: r.1, r.2)
      else none

def basic (s : List Char) : Option (List Char × List Char) :=
  match s with
  | [] => none
  | c :: rest =>
      if c = '"' then some ([], rest)
      else if c = '\\' then
        match _h : escape rest with
        | some (d, rest) => (basic rest).map fun r => (d :: r.1, r.2)
        | none => none
      else if isPrintable c then (basic rest).map fun r => (c :: r.1, r.2)
      else none
termination_by s.length
decreasing_by
  · have := length_escape_lt _h
    simp only [List.length_cons]
    omega
  · exact Nat.lt_succ_self _

/-!
# Over several lines

A line break right behind the opening quotes is dropped. Up to two quotes may stand
before the closing ones. A line that ends in a backslash goes on with the next text.
-/

/-- Takes a line break off the front. -/
def lineBreak? : List Char → Option (List Char)
  | '\n' :: rest => some rest
  | '\r' :: '\n' :: rest => some rest
  | _ => none

def dropFirstBreak (s : List Char) : List Char :=
  (lineBreak? s).getD s

/-- The quotes at the end of a string over several lines: three close it, and up to
two more are text. -/
def closing? (quote : Char) (s : List Char) : Option (List Char × List Char) :=
  let found := (s.takeWhile (· = quote)).length
  if found < 3 then none
  else
    let count := min found 5
    some (List.replicate (count - 3) quote, s.drop count)

def literalLines (s : List Char) : Option (List Char × List Char) :=
  match closing? '\'' s with
  | some closed => some closed
  | none =>
      match s with
      | [] => none
      | '\n' :: rest => (literalLines rest).map fun r => ('\n' :: r.1, r.2)
      | '\r' :: '\n' :: rest => (literalLines rest).map fun r => ('\n' :: r.1, r.2)
      | c :: rest =>
          if isPrintable c then (literalLines rest).map fun r => (c :: r.1, r.2) else none

def isSpace (c : Char) : Bool :=
  c == ' ' || c == '\t'

def isSpaceOrBreak (c : Char) : Bool :=
  isSpace c || c == '\n' || c == '\r'

/-- What follows a backslash at the end of a line: the next text that is not blank. -/
def continued? (s : List Char) : Option (List Char) :=
  (lineBreak? (s.dropWhile isSpace)).map (·.dropWhile isSpaceOrBreak)

theorem length_lineBreak?_lt {s rest : List Char} (h : lineBreak? s = some rest) :
    rest.length < s.length := by
  unfold lineBreak? at h
  split at h
  all_goals first
    | cases h; done
    | (simp only [Option.some.injEq] at h; subst h; simp only [List.length_cons]; omega)

theorem length_continued?_lt {s rest : List Char} (h : continued? s = some rest) :
    rest.length < s.length := by
  obtain ⟨t, ht, he⟩ := Option.map_eq_some_iff.mp h
  have h₁ := length_lineBreak?_lt ht
  have h₂ := (List.dropWhile_sublist isSpace (l := s)).length_le
  have h₃ := (List.dropWhile_sublist isSpaceOrBreak (l := t)).length_le
  rw [← he]
  omega

def basicLines (s : List Char) : Option (List Char × List Char) :=
  match closing? '"' s with
  | some closed => some closed
  | none =>
      match s with
      | [] => none
      | '\n' :: rest => (basicLines rest).map fun r => ('\n' :: r.1, r.2)
      | '\r' :: '\n' :: rest => (basicLines rest).map fun r => ('\n' :: r.1, r.2)
      | c :: rest =>
          if c = '\\' then
            match _h : continued? rest with
            | some rest => basicLines rest
            | none =>
                match _h : escape rest with
                | some (d, rest) => (basicLines rest).map fun r => (d :: r.1, r.2)
                | none => none
          else if isPrintable c then (basicLines rest).map fun r => (c :: r.1, r.2)
          else none
termination_by s.length
decreasing_by
  · simp only [List.length_cons]
    omega
  · simp only [List.length_cons]
    omega
  · have := length_continued?_lt _h
    simp only [List.length_cons]
    omega
  · have := length_escape_lt _h
    simp only [List.length_cons]
    omega
  · exact Nat.lt_succ_self _

/-!
# Nothing is read twice
-/

theorem length_lt_of_map {found : Option (List Char × List Char)} {n : Nat}
    {f : List Char → List Char} {text rest : List Char}
    (h : found.map (fun r => (f r.1, r.2)) = some (text, rest))
    (shorter : ∀ {t r}, found = some (t, r) → r.length < n) : rest.length < n := by
  obtain ⟨⟨t, r⟩, hr, he⟩ := Option.map_eq_some_iff.mp h
  cases he
  exact shorter hr

theorem length_literal_lt {s text rest : List Char}
    (h : literal s = some (text, rest)) : rest.length < s.length := by
  induction s generalizing text rest with
  | nil =>
      cases h
  | cons c s ih =>
      unfold literal at h
      split at h
      · cases h
        exact Nat.lt_succ_self _
      · split at h
        · exact Nat.lt_succ_of_lt (length_lt_of_map h ih)
        · cases h

theorem length_basic_lt {s text rest : List Char}
    (h : basic s = some (text, rest)) : rest.length < s.length := by
  fun_induction basic s generalizing text rest with
  | case1 =>
      cases h
  | case2 =>
      cases h
      exact Nat.lt_succ_self _
  | case3 tail d behind he _ ih =>
      have h₁ := length_escape_lt he
      have h₂ := length_lt_of_map h ih
      simp only [List.length_cons]
      omega
  | case4 =>
      cases h
  | case5 c tail _ _ _ ih =>
      exact Nat.lt_succ_of_lt (length_lt_of_map h ih)
  | case6 =>
      cases h

theorem length_closing?_lt {quote : Char} {s text rest : List Char}
    (h : closing? quote s = some (text, rest)) : rest.length < s.length := by
  have hle := (List.takeWhile_sublist (· = quote) (l := s)).length_le
  simp only [closing?] at h
  split at h
  · cases h
  · cases h
    simp only [List.length_drop]
    omega

theorem length_literalLines_lt {s text rest : List Char}
    (h : literalLines s = some (text, rest)) : rest.length < s.length := by
  fun_induction literalLines s generalizing text rest with
  | case1 s closed hc =>
      cases h
      exact length_closing?_lt hc
  | case2 =>
      cases h
  | case3 tail _ ih =>
      exact Nat.lt_succ_of_lt (length_lt_of_map h ih)
  | case4 tail _ ih =>
      exact Nat.lt_succ_of_lt (Nat.lt_succ_of_lt (length_lt_of_map h ih))
  | case5 c tail _ _ _ _ ih =>
      exact Nat.lt_succ_of_lt (length_lt_of_map h ih)
  | case6 =>
      cases h

theorem length_basicLines_lt {s text rest : List Char}
    (h : basicLines s = some (text, rest)) : rest.length < s.length := by
  fun_induction basicLines s generalizing text rest with
  | case1 s closed hc =>
      cases h
      exact length_closing?_lt hc
  | case2 =>
      cases h
  | case3 tail _ ih =>
      exact Nat.lt_succ_of_lt (length_lt_of_map h ih)
  | case4 tail _ ih =>
      exact Nat.lt_succ_of_lt (Nat.lt_succ_of_lt (length_lt_of_map h ih))
  | case5 tail behind hc _ _ _ ih =>
      have h₁ := length_continued?_lt hc
      have h₂ := ih h
      simp only [List.length_cons]
      omega
  | case6 tail _ d behind he _ _ _ ih =>
      have h₁ := length_escape_lt he
      have h₂ := length_lt_of_map h ih
      simp only [List.length_cons]
      omega
  | case7 =>
      cases h
  | case8 c tail _ _ _ _ _ ih =>
      exact Nat.lt_succ_of_lt (length_lt_of_map h ih)
  | case9 =>
      cases h

end Toml
end HeaderBinding
