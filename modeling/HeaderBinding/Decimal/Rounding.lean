/-!
# Rounding to the nearest

A quotient is rounded to the nearest natural number, and a tie goes to the even
one. Keeping the leading bits of a natural number is such a rounding.
-/

namespace HeaderBinding
namespace Decimal

def nearest (n d : Nat) : Nat :=
  let q := n / d
  let r := 2 * (n % d)
  if r < d then q
  else if d < r then q + 1
  else q + q % 2

/-- The number with at most so many significant bits that is nearest to `n`. -/
def leadingBits (bits n : Nat) : Nat :=
  let unit := Nat.pow 2 (Nat.log2 n + 1 - bits)
  nearest n unit * unit

end Decimal
end HeaderBinding
