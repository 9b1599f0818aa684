import HeaderBinding.Json.Number
import HeaderBinding.Json.Text

/-!
# The tokens of a JSON text

Blanks are dropped. The list ends with the text, or with a token that nothing can
be read behind.
-/

namespace HeaderBinding
namespace Json

open Except (ok error)

/-- Reads the rest of a literal name. -/
def restOfName : List Char → List UInt8 → Except Fault (List UInt8)
  | [], s => ok s
  | _ :: _, [] => error .cutOff
  | c :: name, b :: s => if Char.ofUInt8 b = c then restOfName name s else error .malformed

theorem length_restOfName_le {name : List Char} {s rest : List UInt8}
    (h : restOfName name s = ok rest) : rest.length ≤ s.length := by
  induction name generalizing s with
  | nil =>
      cases h
      exact Nat.le_refl _
  | cons c name ih =>
      cases s with
      | nil =>
          cases h
      | cons b s =>
          unfold restOfName at h
          split at h
          · exact Nat.le_succ_of_le (ih h)
          · cases h

def isPadding (c : Char) : Bool :=
  c == ' ' || c == '\n' || c == '\t' || c == '\r'

def punctuation? : Char → Option Token
  | '{' => some .openObject
  | '}' => some .closeObject
  | '[' => some .openArray
  | ']' => some .closeArray
  | ':' => some .colon
  | ',' => some .comma
  | _ => none

/-- The literal names, by their first letter. -/
def name? : Char → Option (List Char × Atom)
  | 'n' => some (['u', 'l', 'l'], .null)
  | 't' => some (['r', 'u', 'e'], .flag true)
  | 'f' => some (['a', 'l', 's', 'e'], .flag false)
  | _ => none

def lex (s : List UInt8) : List Token :=
  match s with
  | [] => []
  | b :: rest =>
      let c := Char.ofUInt8 b
      if isPadding c then lex rest
      else
        match punctuation? c with
        | some token => token :: lex rest
        | none =>
            if c = '"' then
              match _h : passText rest with
              | error fault => [.text ⟨readText rest, some fault⟩]
              | ok rest' => .text ⟨readText rest, none⟩ :: lex rest'
            else if c = '-' ∨ isDigit b then
              let number := scanNumber (b :: rest)
              match number.1.passing with
              | some _ => [.atom number.1]
              | none => .atom number.1 :: lex number.2
            else
              match name? c with
              | none => [.stray]
              | some (name, atom) =>
                  match _h : restOfName name rest with
                  | error fault => [.atom (.broken fault)]
                  | ok rest' => .atom (.whole atom) :: lex rest'
termination_by s.length
decreasing_by
  · exact Nat.lt_succ_self _
  · exact Nat.lt_succ_self _
  · have := length_passText _h
    simp only [List.length_cons]
    omega
  · exact length_scanNumber
  · have := length_restOfName_le _h
    simp only [List.length_cons]
    omega

end Json
end HeaderBinding
