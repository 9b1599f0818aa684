import HeaderBinding.Text.PrintTable

/-!
# Text in quotes, as log lines show it

The quote mark and the backslash are escaped, four controls have escapes of
their own, and a combining or unprintable character is written by its number.
-/

namespace HeaderBinding
namespace Text

def inRanges (ranges : List (Nat × Nat)) (n : Nat) : Bool :=
  ranges.any fun range => range.1 ≤ n && n ≤ range.2

/-- Whether a character can be shown as it is. -/
def isPlain (c : Char) : Bool :=
  let n := c.toNat
  if n < 0x7f then 0x20 ≤ n
  else !inRanges combiningRanges n && !inRanges unprintableRanges n

def hexDigits (n : Nat) : List Char :=
  Nat.toDigits 16 n

def quotedChar (c : Char) : List Char :=
  match c with
  | '\t' => ['\\', 't']
  | '\r' => ['\\', 'r']
  | '\n' => ['\\', 'n']
  | '\x00' => ['\\', '0']
  | '"' => ['\\', '"']
  | '\\' => ['\\', '\\']
  | c => if isPlain c then [c] else ['\\', 'u', '\x7b'] ++ hexDigits c.toNat ++ ['\x7d']

def quoted (s : String) : String :=
  String.ofList ('"' :: s.toList.flatMap quotedChar ++ ['"'])

/-- A character of a command line's word. A single quote is escaped too, and other
controls are written as bytes. -/
def quotedWordChar (c : Char) : List Char :=
  if c = '\'' then ['\\', '\'']
  else if c = '\t' ∨ c = '\r' ∨ c = '\n' then quotedChar c
  else if c.toNat < 0x10 then ['\\', 'x', '0'] ++ hexDigits c.toNat
  else if c.toNat < 0x20 ∨ c.toNat = 0x7f then ['\\', 'x'] ++ hexDigits c.toNat
  else quotedChar c

def quotedWord (s : String) : String :=
  String.ofList ('"' :: s.toList.flatMap quotedWordChar ++ ['"'])

/-- An optional text, as `Some("text")` or `None`. -/
def quotedOption : Option String → String
  | none => "None"
  | some s => "Some(" ++ quoted s ++ ")"

end Text
end HeaderBinding
