import HeaderBinding.Settings.Setting
import HeaderBinding.Text.Hex
import HeaderBinding.Toml.Date

/-!
# Values written without quotes

Booleans, integers of 64 bits, floats, dates and times. Underscores may stand
between digits. A float that is written with digits is finite.
-/

namespace HeaderBinding
namespace Toml
namespace Scalar

/-- Digits, with the underscores between them removed. -/
def separated? (isDigit : Char → Bool) : List Char → Option (List Char)
  | [] => none
  | [c] => if isDigit c then some [c] else none
  | c :: d :: rest =>
      if ¬isDigit c then none
      else if d = '_' then (separated? isDigit rest).map (c :: ·)
      else (separated? isDigit (d :: rest)).map (c :: ·)

def sign (s : List Char) : Bool × List Char :=
  match s with
  | '-' :: rest => (true, rest)
  | '+' :: rest => (false, rest)
  | s => (false, s)

/-- Digits of a decimal that do not begin with a zero, unless it is the only one. -/
def whole? (s : List Char) : Option (List Char) :=
  (separated? Char.isDigit s).filter fun ds => ds.length = 1 ∨ ds.head? ≠ some '0'

def decimal? (s : List Char) : Option Int :=
  let (negative, s) := sign s
  (whole? s).map fun ds =>
    let n : Int := Decimal.digitsValue ds
    if negative then -n else n

def isHexDigit (c : Char) : Bool :=
  (Text.hexDigit? c).isSome

def radixValue? (radix : Nat) (s : List Char) : Option Int :=
  (separated? isHexDigit s).bind fun ds =>
    ds.foldl (fun n c => do
      let n ← n
      let d ← Text.hexDigit? c
      if d < radix then some (n * radix + d) else none) (some (0 : Int))

def integer? (s : List Char) : Option Int :=
  match s with
  | '0' :: 'x' :: rest => radixValue? 16 rest
  | '0' :: 'o' :: rest => radixValue? 8 rest
  | '0' :: 'b' :: rest => radixValue? 2 rest
  | s => decimal? s

def isWord (n : Int) : Bool :=
  -Decimal.signedLimit 64 ≤ n && n < Decimal.signedLimit 64

/-!
# Floats
-/

def isExponentMark (c : Char) : Bool :=
  c == 'e' || c == 'E'

/-- The exponent behind its mark. -/
def exponent? (s : List Char) : Option Int :=
  match s with
  | [] => some 0
  | _ :: rest =>
      let (negative, rest) := sign rest
      (separated? Char.isDigit rest).map fun ds =>
        let n : Int := Decimal.digitsValue ds
        if negative then -n else n

/-- The digits behind the point. -/
def fraction? (s : List Char) : Option (List Char) :=
  match s with
  | [] => some []
  | _ :: rest => separated? Char.isDigit rest

def special? (s : List Char) : Option Decimal.Binary64 :=
  let (negative, s) := sign s
  if s = ['i', 'n', 'f'] then some (.infinite negative)
  else if s = ['n', 'a', 'n'] then some .notANumber
  else none

def float? (s : List Char) : Option Decimal.Binary64 := do
  let (negative, s) := sign s
  let mantissa := s.takeWhile fun c => !isExponentMark c
  let exponent ← exponent? (s.dropWhile fun c => !isExponentMark c)
  let whole ← whole? (mantissa.takeWhile (· ≠ '.'))
  let fraction ← fraction? (mantissa.dropWhile (· ≠ '.'))
  let n := Decimal.digitsValue (whole ++ fraction)
  let f := Decimal.Binary64.ofDecimal negative n (Decimal.digits n).length
    (exponent - fraction.length)
  if f.isInfinite then none else some f

/-- The value of a text that stands without quotes. -/
def setting? (s : List Char) : Option Setting :=
  if s = ['t', 'r', 'u', 'e'] then some (.flag true)
  else if s = ['f', 'a', 'l', 's', 'e'] then some (.flag false)
  else
    match integer? s with
    | some n => if isWord n then some (.integer n) else none
    | none =>
        match special? s with
        | some f => some (.float f)
        | none =>
            match Date.ofText? s with
            | some date => some (.text (String.ofList date))
            | none => (float? s).map .float

end Scalar
end Toml
end HeaderBinding
