import HeaderBinding.Toml.Text

/-!
# TOML tokens

Comments are dropped, blanks and line breaks are not: some texts go on over a blank,
and a statement ends with its line. What stands without quotes is a run of the
characters of keys, numbers and dates; points are tokens of their own.
-/

namespace HeaderBinding
namespace Toml

inductive Token where
  | point
  | equals
  | comma
  | openArray
  | closeArray
  | openTable
  | closeTable
  | newline
  | blank
  | bare (text : List Char)
  | quoted (oneLine : Bool) (text : List Char)
  deriving DecidableEq

def isBareChar (c : Char) : Bool :=
  c.isAlphanum || c == '_' || c == '-' || c == '+' || c == ':'

def punctuation? : Char → Option Token
  | '.' => some .point
  | '=' => some .equals
  | ',' => some .comma
  | '[' => some .openArray
  | ']' => some .closeArray
  | '{' => some .openTable
  | '}' => some .closeTable
  | _ => none

/-- Takes a string off the front. -/
def quoted? (s : List Char) : Option (Token × List Char) :=
  match s with
  | '"' :: '"' :: '"' :: rest =>
      (basicLines (dropFirstBreak rest)).map fun r => (.quoted false r.1, r.2)
  | '\'' :: '\'' :: '\'' :: rest =>
      (literalLines (dropFirstBreak rest)).map fun r => (.quoted false r.1, r.2)
  | '"' :: rest => (basic rest).map fun r => (.quoted true r.1, r.2)
  | '\'' :: rest => (literal rest).map fun r => (.quoted true r.1, r.2)
  | _ => none

/-- Drops a comment, up to the end of its line. -/
def comment? (s : List Char) : Option (List Char) :=
  match s with
  | '#' :: rest => some (rest.dropWhile isPrintable)
  | _ => none

/-- Takes one token off the front. -/
def token? (s : List Char) : Option (Token × List Char) :=
  match s with
  | [] => none
  | c :: rest =>
      if isSpace c then some (.blank, rest.dropWhile isSpace)
      else if isBareChar c then
        some (.bare (c :: rest.takeWhile isBareChar), rest.dropWhile isBareChar)
      else
        match punctuation? c with
        | some token => some (token, rest)
        | none =>
            match lineBreak? s with
            | some rest => some (.newline, rest)
            | none => quoted? s

theorem length_dropFirstBreak_le (s : List Char) : (dropFirstBreak s).length ≤ s.length := by
  unfold dropFirstBreak
  cases h : lineBreak? s with
  | none =>
      exact Nat.le_refl _
  | some rest =>
      exact Nat.le_of_lt (length_lineBreak?_lt h)

theorem length_lt_of_mapToken {found : Option (List Char × List Char)} {n : Nat}
    {f : List Char → Token} {token : Token} {rest : List Char}
    (h : found.map (fun r => (f r.1, r.2)) = some (token, rest))
    (shorter : ∀ {t r}, found = some (t, r) → r.length < n) : rest.length < n := by
  obtain ⟨⟨t, r⟩, hr, he⟩ := Option.map_eq_some_iff.mp h
  cases he
  exact shorter hr

theorem length_quoted?_lt {s rest : List Char} {token : Token}
    (h : quoted? s = some (token, rest)) : rest.length < s.length := by
  unfold quoted? at h
  split at h
  next tail =>
    have := length_lt_of_mapToken h length_basicLines_lt
    have := length_dropFirstBreak_le tail
    simp only [List.length_cons]
    omega
  next tail =>
    have := length_lt_of_mapToken h length_literalLines_lt
    have := length_dropFirstBreak_le tail
    simp only [List.length_cons]
    omega
  next tail _ =>
    exact Nat.lt_succ_of_lt (length_lt_of_mapToken h length_basic_lt)
  next tail _ =>
    exact Nat.lt_succ_of_lt (length_lt_of_mapToken h length_literal_lt)
  next =>
    cases h

theorem length_token?_lt {s rest : List Char} {token : Token}
    (h : token? s = some (token, rest)) : rest.length < s.length := by
  unfold token? at h
  split at h
  · cases h
  next c tail =>
    split at h
    · cases h
      exact Nat.lt_succ_of_le (List.dropWhile_sublist _).length_le
    · split at h
      · cases h
        exact Nat.lt_succ_of_le (List.dropWhile_sublist _).length_le
      · split at h
        · cases h
          exact Nat.lt_succ_self _
        · split at h
          next hb =>
            cases h
            exact length_lineBreak?_lt hb
          next =>
            exact length_quoted?_lt h

theorem length_comment?_lt {s rest : List Char} (h : comment? s = some rest) :
    rest.length < s.length := by
  unfold comment? at h
  split at h
  · cases h
    exact Nat.lt_succ_of_le (List.dropWhile_sublist _).length_le
  · cases h

/-- The tokens of a text, if it falls into tokens. -/
def lex? (s : List Char) : Option (List Token) :=
  if s = [] then some []
  else
    match _h : comment? s with
    | some rest => lex? rest
    | none =>
        match _h : token? s with
        | some (token, rest) => (lex? rest).map (token :: ·)
        | none => none
termination_by s.length
decreasing_by
  · exact length_comment?_lt _h
  · exact length_token?_lt _h

end Toml
end HeaderBinding
