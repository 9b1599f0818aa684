import HeaderBinding.Decimal.Binary64

/-!
# The shortest decimal that reads back

Of the decimals that round to a number, one with the fewest digits is written, and
of those the nearest. The two neighbours of the number on each grid of decimals are
the only candidates; of two as near the upper one is written.
-/

namespace HeaderBinding
namespace Decimal

/-- A number in quarters of the unit of its last place, with the ends of the
interval that rounds to it. -/
structure Interval where
  low : Nat
  value : Nat
  high : Nat
  closed : Bool
  exponent : Int

namespace Interval

/-- Below a power of two the numbers lie twice as close. -/
def ofParts (m : Nat) (e : Int) : Interval :=
  { low := 4 * m - if m = Nat.pow 2 52 ∧ Binary64.leastExponent < e then 1 else 2
    value := 4 * m
    high := 4 * m + 2
    closed := m % 2 = 0
    exponent := e - 2 }

/-- A decimal and a count of quarters, brought to one denominator. -/
def sides (i : Interval) (n : Nat) (scale : Int) (quarters : Nat) : Nat × Nat :=
  let ten := power 10 scale
  let two := power 2 i.exponent
  (n * ten.1 * two.2, quarters * two.1 * ten.2)

def contains (i : Interval) (n : Nat) (scale : Int) : Bool :=
  let low := i.sides n scale i.low
  let high := i.sides n scale i.high
  if i.closed then low.2 ≤ low.1 && high.1 ≤ high.2
  else low.2 < low.1 && high.1 < high.2

/-- How far a decimal is from the number, in a unit that all decimals of a scale
share. -/
def distance (i : Interval) (n : Nat) (scale : Int) : Nat :=
  let s := i.sides n scale i.value
  (s.1 - s.2) + (s.2 - s.1)

/-- The number in units of a power of ten, rounded down. -/
def floor (i : Interval) (scale : Int) : Nat :=
  let s := i.sides 1 scale i.value
  s.2 / s.1

/-- The candidate on a grid, if one of the neighbours reads back. -/
def onGrid? (i : Interval) (scale : Int) : Option Nat :=
  let below := i.floor scale
  let above := below + 1
  match i.contains below scale, i.contains above scale with
  | true, true => some (if i.distance above scale ≤ i.distance below scale then above else below)
  | true, false => some below
  | false, true => some above
  | false, false => none

/-- The number of digits before the decimal point, negative for zeros behind it. -/
def magnitude (i : Interval) : Int :=
  let bits := (Nat.log2 i.value : Int) + i.exponent
  let guess := bits * 30103 / 100000
  let candidates := (List.range 4).map fun (n : Nat) => guess - 1 + n
  (candidates.find? fun p => i.floor p = 0).getD (guess + 2)

/-- The digits and the scale of the shortest decimal. Seventeen digits always do. -/
def shortest (i : Interval) : Nat × Int :=
  let p := i.magnitude
  let scales := (List.range 17).map fun (n : Nat) => p - 1 - n
  match scales.findSome? fun scale => (i.onGrid? scale).map fun n => (n, scale) with
  | some found => found
  | none => (i.floor (p - 17), p - 17)

end Interval

/-!
# Positional notation

Zeros fill the places between the digits and the decimal point. A whole number has
no point.
-/

def digits (n : Nat) : List Char :=
  Nat.toDigits 10 n

def positional (n : Nat) (scale : Int) : List Char :=
  let ds := digits n
  if 0 ≤ scale then
    if n = 0 then ['0'] else ds ++ List.replicate scale.toNat '0'
  else
    let places := (-scale).toNat
    let padded := List.replicate (places + 1 - ds.length) '0' ++ ds
    let whole := padded.take (padded.length - places)
    let fraction := padded.drop (padded.length - places)
    let kept := (fraction.reverse.dropWhile (· = '0')).reverse
    if kept = [] then whole else whole ++ '.' :: kept

namespace Binary64

def magnitudeText (m : Nat) (e : Int) : List Char :=
  if m = 0 then ['0']
  else
    let shortest := (Interval.ofParts m e).shortest
    positional shortest.1 shortest.2

/-- The shortest text, without an exponent. -/
def text : Binary64 → String
  | finite negative m e =>
      String.ofList (if negative then '-' :: magnitudeText m e else magnitudeText m e)
  | infinite negative => if negative then "-inf" else "inf"
  | notANumber => "NaN"

end Binary64
end Decimal
end HeaderBinding
