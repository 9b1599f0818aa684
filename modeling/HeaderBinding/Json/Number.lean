import HeaderBinding.Decimal.Rounding
import HeaderBinding.Json.Token

/-!
# Numbers in a JSON text

Only the grammar matters when a number is passed over. One that is read has to
stay within the range of double precision, and counts only if it is a natural
number of 64 bits.
-/

namespace HeaderBinding
namespace Json

open Except (ok error)

def isDigit (b : UInt8) : Bool :=
  0x30 ≤ b && b ≤ 0x39

def digitValue (b : UInt8) : Nat :=
  b.toNat - 0x30

def decimalValue (digits : List UInt8) : Nat :=
  digits.foldl (fun n b => n * 10 + digitValue b) 0

/-- The parts of a number as it is written. -/
structure Numeral where
  negative : Bool
  integer : List UInt8
  fraction : Option (List UInt8)
  exponent : Option (Bool × List UInt8)

namespace Numeral

/-!
# Grammar

A failure says whether the text ended where a digit was due.
-/

def digits (s : List UInt8) : Except Bool (List UInt8 × List UInt8) :=
  match s.takeWhile isDigit with
  | [] => error s.isEmpty
  | ds => ok (ds, s.dropWhile isDigit)

def sign (s : List UInt8) : Bool × List UInt8 :=
  match s with
  | b :: rest => if Char.ofUInt8 b = '-' then (true, rest) else (false, s)
  | [] => (false, s)

def integerPart (s : List UInt8) : Except Bool (List UInt8 × List UInt8) :=
  match digits s with
  | ok (b :: c :: ds, rest) =>
      if digitValue b = 0 then error false else ok (b :: c :: ds, rest)
  | result => result

def fractionPart (s : List UInt8) : Except Bool (Option (List UInt8) × List UInt8) :=
  match s with
  | b :: rest =>
      if Char.ofUInt8 b = '.' then (digits rest).map fun part => (some part.1, part.2)
      else ok (none, s)
  | [] => ok (none, s)

def exponentSign (s : List UInt8) : Bool × List UInt8 :=
  match s with
  | b :: rest => if Char.ofUInt8 b = '+' then (false, rest) else sign s
  | [] => (false, s)

def exponentPart (s : List UInt8) :
    Except Bool (Option (Bool × List UInt8) × List UInt8) :=
  match s with
  | b :: rest =>
      if Char.ofUInt8 b = 'e' ∨ Char.ofUInt8 b = 'E' then
        let (negative, rest) := exponentSign rest
        (digits rest).map fun part => (some (negative, part.1), part.2)
      else ok (none, s)
  | [] => ok (none, s)

def scan (s : List UInt8) : Except Bool (Numeral × List UInt8) := do
  let (negative, s) := sign s
  let (integer, s) ← integerPart s
  let (fraction, s) ← fractionPart s
  let (exponent, s) ← exponentPart s
  return (⟨negative, integer, fraction, exponent⟩, s)

/-!
# Range

Digits are gathered as long as they fit into 64 bits; what is left of the integer
part then only shifts the value.
-/

/-- Gathers digits onto `n`, and says how many did not fit. -/
def gather (n : Nat) : List UInt8 → Nat × Nat
  | [] => (n, 0)
  | b :: ds =>
      let m := n * 10 + digitValue b
      if m < UInt64.size then gather m ds else (n, ds.length + 1)

/-- The gathered digits and the power of ten that they are to be scaled by. -/
def scaled (m : Numeral) : Nat × Int :=
  let (n, shift) := gather 0 m.integer
  let fraction := m.fraction.getD []
  let (n, unused) := gather n fraction
  let shift : Int := shift - (fraction.length - unused : Nat)
  match m.exponent with
  | none => (n, shift)
  | some (negative, ds) =>
      let e : Int := decimalValue ds
      (n, if negative then shift - e else shift + e)

/-- The least magnitude that rounds to no double. -/
def firstInfinite : Nat :=
  Nat.pow 2 1024 - Nat.pow 2 970

/-- Whether a scaled number is beyond the doubles, both factors being rounded
before they are multiplied. -/
def isInfinite (n : Nat) (shift : Int) : Bool :=
  n ≠ 0 && 0 ≤ shift &&
    (308 < shift ||
      firstInfinite ≤
        Decimal.leadingBits 53 n * Decimal.leadingBits 53 (Nat.pow 10 shift.toNat))

def isInteger (m : Numeral) : Bool :=
  m.fraction.isNone && m.exponent.isNone

/-- The number, if it is a natural number of 64 bits. -/
def natural? (m : Numeral) : Option UInt64 :=
  let n := decimalValue m.integer
  if m.isInteger ∧ ¬m.negative ∧ n < UInt64.size then some (UInt64.ofNat n) else none

def content (m : Numeral) : Except Fault Atom :=
  let (n, shift) := m.scaled
  if isInfinite n shift then error .malformed else ok (.number m.natural?)

/-!
# Scanning a number

The end of the text where a digit is due counts as such only when the number is
read for its content.
-/

end Numeral

def scanNumber (s : List UInt8) : Scan Atom × List UInt8 :=
  match Numeral.scan s with
  | error atEnd => (⟨error (if atEnd then .cutOff else .malformed), some .malformed⟩, [])
  | ok (m, rest) => (⟨m.content, none⟩, rest)

theorem length_dropWhile_bytes_le (p : UInt8 → Bool) (s : List UInt8) :
    (s.dropWhile p).length ≤ s.length :=
  (List.dropWhile_sublist p).length_le

namespace Numeral

theorem length_digits {s ds rest : List UInt8} (h : digits s = ok (ds, rest)) :
    rest.length < s.length := by
  unfold digits at h
  cases s with
  | nil =>
      cases h
  | cons b s =>
      by_cases hb : isDigit b
      · have hle := length_dropWhile_bytes_le isDigit s
        simp only [List.takeWhile_cons, List.dropWhile_cons, hb, if_true,
          Except.ok.injEq, Prod.mk.injEq] at h
        rw [← h.2, List.length_cons]
        omega
      · simp [hb] at h

theorem length_sign_le (s : List UInt8) : (sign s).2.length ≤ s.length := by
  unfold sign
  split
  · split <;> simp
  · exact Nat.le_refl _

theorem length_integerPart {s ds rest : List UInt8}
    (h : integerPart s = ok (ds, rest)) : rest.length < s.length := by
  unfold integerPart at h
  split at h
  next hd =>
    split at h
    · cases h
    · cases h
      exact length_digits hd
  · exact length_digits h

theorem length_fractionPart {s rest : List UInt8} {part : Option (List UInt8)}
    (h : fractionPart s = ok (part, rest)) : rest.length ≤ s.length := by
  unfold fractionPart at h
  split at h
  next b tail =>
    split at h
    · cases hd : digits tail with
      | error atEnd =>
          rw [hd] at h
          cases h
      | ok found =>
          obtain ⟨ds, left⟩ := found
          rw [hd] at h
          cases h
          have := length_digits hd
          simp only [List.length_cons]
          omega
    · cases h
      exact Nat.le_refl _
  next =>
    cases h
    exact Nat.le_refl _

theorem length_exponentSign_le (s : List UInt8) :
    (exponentSign s).2.length ≤ s.length := by
  unfold exponentSign
  split
  · split
    · simp
    · exact length_sign_le _
  · exact Nat.le_refl _

theorem length_exponentPart {s rest : List UInt8} {part : Option (Bool × List UInt8)}
    (h : exponentPart s = ok (part, rest)) : rest.length ≤ s.length := by
  unfold exponentPart at h
  split at h
  next b tail =>
    split at h
    · have hle := length_exponentSign_le tail
      cases hd : digits (exponentSign tail).2 with
      | error atEnd =>
          simp only [hd] at h
          cases h
      | ok found =>
          obtain ⟨ds, left⟩ := found
          simp only [hd] at h
          cases h
          have := length_digits hd
          simp only [List.length_cons]
          omega
    · cases h
      exact Nat.le_refl _
  next =>
    cases h
    exact Nat.le_refl _

theorem length_scan {s rest : List UInt8} {m : Numeral}
    (h : scan s = ok (m, rest)) : rest.length < s.length := by
  simp only [scan, bind, Except.bind, pure, Except.pure] at h
  split at h
  · cases h
  next hi =>
    split at h
    · cases h
    next hf =>
      split at h
      · cases h
      next he =>
        cases h
        have h₀ := length_sign_le s
        have h₁ := length_integerPart hi
        have h₂ := length_fractionPart hf
        have h₃ := length_exponentPart he
        omega

end Numeral

theorem length_scanNumber {b : UInt8} {s : List UInt8} :
    (scanNumber (b :: s)).2.length < (b :: s).length := by
  unfold scanNumber
  split
  · exact Nat.succ_pos _
  next h =>
    exact Numeral.length_scan h

end Json
end HeaderBinding
