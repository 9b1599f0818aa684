/-!
# Integers in decimal digits
-/

namespace HeaderBinding
namespace Decimal

def digitsValue (ds : List Char) : Nat :=
  ds.foldl (fun n c => n * 10 + (c.toNat - '0'.toNat)) 0

def natural? (ds : List Char) : Option Nat :=
  if ds ≠ [] ∧ ds.all Char.isDigit then some (digitsValue ds) else none

/-- An optional sign and one or more digits. -/
def integer? : List Char → Option Int
  | '-' :: ds => (natural? ds).map fun n => -(n : Int)
  | '+' :: ds => (natural? ds).map Int.ofNat
  | ds => (natural? ds).map Int.ofNat

/-- The least number that is too great for an integer of so many bits. -/
def signedLimit (bits : Nat) : Int :=
  Int.ofNat (Nat.pow 2 (bits - 1))

/-- An integer of at most so many bits, in two's complement. -/
def boundedInteger? (bits : Nat) (s : List Char) : Option Int :=
  (integer? s).filter fun n => -signedLimit bits ≤ n ∧ n < signedLimit bits

end Decimal
end HeaderBinding
