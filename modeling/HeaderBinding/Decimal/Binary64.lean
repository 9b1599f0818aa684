import HeaderBinding.Decimal.Rounding

/-!
# Double precision

Numbers of double precision as an integer times a power of two, and the nearest of
them to a decimal.
-/

namespace HeaderBinding
namespace Decimal

inductive Binary64 where
  | finite (negative : Bool) (mantissa : Nat) (exponent : Int)
  | infinite (negative : Bool)
  | notANumber
  deriving DecidableEq, Repr

/-- A power, split into a numerator and a denominator. -/
def power (base : Nat) (e : Int) : Nat × Nat :=
  (Nat.pow base e.toNat, Nat.pow base (-e).toNat)

namespace Binary64

def leastExponent : Int :=
  -1074

def greatestExponent : Int :=
  971

/-- The quotient in units of a power of two, and what it is rounded to. -/
def inUnits (n d : Nat) (e : Int) : Nat × Nat :=
  let unit := power 2 e
  (n * unit.2 / (d * unit.1), nearest (n * unit.2) (d * unit.1))

/-- The double nearest to a quotient. -/
def ofRatio (negative : Bool) (n d : Nat) : Binary64 :=
  if n = 0 then finite negative 0 leastExponent
  else
    let low := max leastExponent ((Nat.log2 n : Int) - Nat.log2 d - 53)
    let e := if (inUnits n d low).1 < Nat.pow 2 53 then low else low + 1
    let m := (inUnits n d e).2
    let (m, e) := if m = Nat.pow 2 53 then (Nat.pow 2 52, e + 1) else (m, e)
    if greatestExponent < e then infinite negative else finite negative m e

/-- The double nearest to a decimal, given the number of its digits. A decimal far
out of range is not multiplied out. -/
def ofDecimal (negative : Bool) (n : Nat) (digits : Nat) (scale : Int) : Binary64 :=
  if n = 0 ∨ digits + scale < -400 then finite negative 0 leastExponent
  else if 400 < digits + scale then infinite negative
  else
    let p := power 10 scale
    ofRatio negative (n * p.1) p.2

def isInfinite : Binary64 → Bool
  | infinite _ => true
  | _ => false

def isZero : Binary64 → Bool
  | finite _ 0 _ => true
  | _ => false

end Binary64
end Decimal
end HeaderBinding
