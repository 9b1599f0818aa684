import HeaderBinding.Json.Token
import HeaderBinding.Text.Hex

/-!
# Strings in a JSON text

The scanners start behind the opening quote. Reading undoes the escapes, wants
surrogates in pairs and, at the closing quote, UTF-8. Passing over a string only
looks at the form of its escapes.
-/

namespace HeaderBinding
namespace Json

open Except (ok error)

def hexValue? (b : UInt8) : Option Nat :=
  Text.hexDigit? (Char.ofUInt8 b)

/-- Four hexadecimal digits. They are looked at only when four bytes are left. -/
def hexUnit : List UInt8 → Except Fault (Nat × List UInt8)
  | a :: b :: c :: d :: rest =>
      match hexValue? a, hexValue? b, hexValue? c, hexValue? d with
      | some a, some b, some c, some d => ok (((a * 16 + b) * 16 + c) * 16 + d, rest)
      | _, _, _, _ => error .malformed
  | _ => error .cutOff

theorem length_hexUnit {s rest : List UInt8} {n : Nat}
    (h : hexUnit s = ok (n, rest)) : s.length = rest.length + 4 := by
  unfold hexUnit at h
  split at h
  · split at h
    · cases h
      rfl
    · cases h
  · cases h

def isHighSurrogate (n : Nat) : Bool :=
  0xd800 ≤ n && n ≤ 0xdbff

def isLowSurrogate (n : Nat) : Bool :=
  0xdc00 ≤ n && n ≤ 0xdfff

/-- The character above U+FFFF that two surrogates make. -/
def surrogatePair (high low : Nat) : Char :=
  Char.ofNat ((high - 0xd800) * 0x400 + (low - 0xdc00) + 0x10000)

/-- What a backslash and the letter behind it stand for, when it is one byte. -/
def shortEscape? (b : UInt8) : Option UInt8 :=
  match Char.ofUInt8 b with
  | '"' => some 0x22
  | '\\' => some 0x5c
  | '/' => some 0x2f
  | 'b' => some 0x08
  | 'f' => some 0x0c
  | 'n' => some 0x0a
  | 'r' => some 0x0d
  | 't' => some 0x09
  | _ => none

/-- The second half of a surrogate pair, as an escape of its own. -/
def lowSurrogate (s : List UInt8) : Except Fault (Nat × List UInt8) :=
  match s with
  | [] => error .cutOff
  | backslash :: rest =>
      if Char.ofUInt8 backslash ≠ '\\' then error .malformed
      else
        match rest with
        | [] => error .cutOff
        | letter :: rest =>
            if Char.ofUInt8 letter ≠ 'u' then error .malformed
            else
              match hexUnit rest with
              | error fault => error fault
              | ok (n, rest) => if isLowSurrogate n then ok (n, rest) else error .malformed

/-- The bytes of the character that an escape stands for. The escape starts behind
its backslash. -/
def escape : List UInt8 → Except Fault (List UInt8 × List UInt8)
  | [] => error .cutOff
  | letter :: rest =>
      match shortEscape? letter with
      | some b => ok ([b], rest)
      | none =>
          if Char.ofUInt8 letter ≠ 'u' then error .malformed
          else
            match hexUnit rest with
            | error fault => error fault
            | ok (n, rest) =>
                if isLowSurrogate n then error .malformed
                else if isHighSurrogate n then
                  match lowSurrogate rest with
                  | error fault => error fault
                  | ok (m, rest) => ok (String.utf8EncodeChar (surrogatePair n m), rest)
                else ok (String.utf8EncodeChar (Char.ofNat n), rest)

theorem length_lowSurrogate {s rest : List UInt8} {n : Nat}
    (h : lowSurrogate s = ok (n, rest)) : rest.length ≤ s.length := by
  unfold lowSurrogate at h
  repeat' split at h
  all_goals simp only [reduceCtorEq, Except.ok.injEq, Prod.mk.injEq] at h
  next hu _ =>
    have hlen := length_hexUnit hu
    simp only [List.length_cons, ← h.2]
    omega

theorem length_escape {s bytes rest : List UInt8}
    (h : escape s = ok (bytes, rest)) : rest.length < s.length := by
  unfold escape at h
  repeat' split at h
  all_goals simp only [reduceCtorEq, Except.ok.injEq, Prod.mk.injEq] at h
  next =>
    simp only [List.length_cons, ← h.2]
    omega
  next hu _ _ _ _ _ hl =>
    have h₁ := length_hexUnit hu
    have h₂ := length_lowSurrogate hl
    simp only [List.length_cons, ← h.2]
    omega
  next hu _ _ =>
    have h₁ := length_hexUnit hu
    simp only [List.length_cons, ← h.2]
    omega

/-- The bytes of a string, with its escapes undone. -/
def textBytes (s : List UInt8) : Except Fault (List UInt8) :=
  match s with
  | [] => error .cutOff
  | b :: rest =>
      if Char.ofUInt8 b = '"' then ok []
      else if Char.ofUInt8 b = '\\' then
        match _h : escape rest with
        | error fault => error fault
        | ok (bytes, rest) => (textBytes rest).map (bytes ++ ·)
      else if b < 0x20 then error .malformed
      else (textBytes rest).map (b :: ·)
termination_by s.length
decreasing_by
  · have := length_escape _h
    simp only [List.length_cons]
    omega
  · exact Nat.lt_succ_self _

def decodeUtf8 (bytes : List UInt8) : Except Fault String :=
  match String.fromUTF8? ⟨bytes.toArray⟩ with
  | some s => ok s
  | none => error .malformed

/-- Reads a string for its content. -/
def readText (s : List UInt8) : Except Fault String :=
  match textBytes s with
  | error fault => error fault
  | ok bytes => decodeUtf8 bytes

/-- Passes over an escape, which starts behind its backslash. -/
def passEscape : List UInt8 → Except Fault (List UInt8)
  | [] => error .cutOff
  | letter :: rest =>
      if (shortEscape? letter).isSome then ok rest
      else if Char.ofUInt8 letter = 'u' then (hexUnit rest).map (·.2)
      else error .malformed

theorem length_passEscape {s rest : List UInt8}
    (h : passEscape s = ok rest) : rest.length < s.length := by
  unfold passEscape at h
  split at h
  · cases h
  · split at h
    · cases h
      exact Nat.lt_succ_self _
    · split at h
      · next letter tail _ _ =>
          cases hu : hexUnit tail with
          | error fault =>
              rw [hu] at h
              cases h
          | ok pair =>
              obtain ⟨n, left⟩ := pair
              rw [hu] at h
              cases h
              have := length_hexUnit hu
              simp only [List.length_cons]
              omega
      · cases h

/-- Passes over a string, to what is behind its closing quote. -/
def passText (s : List UInt8) : Except Fault (List UInt8) :=
  match s with
  | [] => error .cutOff
  | b :: rest =>
      if Char.ofUInt8 b = '"' then ok rest
      else if Char.ofUInt8 b = '\\' then
        match _h : passEscape rest with
        | error fault => error fault
        | ok rest => passText rest
      else if b < 0x20 then error .malformed
      else passText rest
termination_by s.length
decreasing_by
  · have := length_passEscape _h
    simp only [List.length_cons]
    omega
  · exact Nat.lt_succ_self _

theorem length_passText {s rest : List UInt8}
    (h : passText s = ok rest) : rest.length < s.length := by
  fun_induction passText s with
  | case1 => cases h
  | case2 => cases h; exact Nat.lt_succ_self _
  | case3 => cases h
  | case4 b tail _ _ rest' h' ih =>
      have := length_passEscape h'
      have := ih h
      simp only [List.length_cons]
      omega
  | case5 => cases h
  | case6 b tail _ _ _ ih =>
      have := ih h
      simp only [List.length_cons]
      omega

end Json
end HeaderBinding
