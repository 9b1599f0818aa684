import HeaderBinding.Decimal.Integer

/-!
# Dates and times

A date, a time, or both, and then perhaps an offset. They are kept as text in one
form: `T` between date and time, `Z` or hours and minutes for the offset, and a
fraction of a second without zeros at its end.
-/

namespace HeaderBinding
namespace Toml
namespace Date

/-- Takes so many decimal digits. -/
def digits? (count : Nat) (s : List Char) : Option (List Char × List Char) :=
  let ds := s.take count
  if ds.length = count ∧ ds.all Char.isDigit then some (ds, s.drop count) else none

def value (ds : List Char) : Nat :=
  Decimal.digitsValue ds

/-- Takes a number of two digits that is not above a limit. -/
def upTo? (limit : Nat) (s : List Char) : Option (List Char × List Char) :=
  (digits? 2 s).filter fun r => value r.1 ≤ limit

def expect? (c : Char) : List Char → Option (List Char)
  | d :: rest => if d = c then some rest else none
  | [] => none

def isLeap (year : Nat) : Bool :=
  year % 4 = 0 && (year % 100 ≠ 0 || year % 400 = 0)

def daysIn (year month : Nat) : Nat :=
  if month = 2 then (if isLeap year then 29 else 28)
  else if month = 4 ∨ month = 6 ∨ month = 9 ∨ month = 11 then 30
  else 31

def date? (s : List Char) : Option (List Char × List Char) := do
  let (year, s) ← digits? 4 s
  let s ← expect? '-' s
  let (month, s) ← upTo? 12 s
  let s ← expect? '-' s
  let (day, s) ← digits? 2 s
  let m := value month
  let d := value day
  if 1 ≤ m ∧ 1 ≤ d ∧ d ≤ daysIn (value year) m then
    some (year ++ '-' :: month ++ '-' :: day, s)
  else none

/-- A fraction counts up to nine digits. -/
def fraction? (s : List Char) : Option (List Char × List Char) :=
  match s with
  | '.' :: rest =>
      match rest.takeWhile Char.isDigit with
      | [] => none
      | ds =>
          let kept := ((ds.take 9).reverse.dropWhile (· = '0')).reverse
          some ('.' :: (if kept = [] then ['0'] else kept), rest.dropWhile Char.isDigit)
  | s => some ([], s)

def seconds? (s : List Char) : Option (List Char × List Char) :=
  match s with
  | ':' :: rest => do
      let (second, rest) ← upTo? 60 rest
      let (fraction, rest) ← fraction? rest
      some (':' :: second ++ fraction, rest)
  | s => some ([], s)

def time? (s : List Char) : Option (List Char × List Char) := do
  let (hour, s) ← upTo? 23 s
  let s ← expect? ':' s
  let (minute, s) ← upTo? 59 s
  let (seconds, s) ← seconds? s
  some (hour ++ ':' :: minute ++ seconds, s)

/-- Nothing, `Z`, or a sign with hours and minutes up to a day. There is no negative
zero. -/
def offset? (s : List Char) : Option (List Char) :=
  match s with
  | [] => some []
  | ['Z'] => some ['Z']
  | ['z'] => some ['Z']
  | sign :: rest => do
      let (hour, rest) ← upTo? 24 rest
      let rest ← expect? ':' rest
      let (minute, rest) ← upTo? 59 rest
      let total := value hour * 60 + value minute
      if rest = [] ∧ (sign = '+' ∨ sign = '-') ∧ total ≤ 24 * 60 then
        some ((if total = 0 then '+' else sign) :: hour ++ ':' :: minute)
      else none

def isSeparator (c : Char) : Bool :=
  c == 'T' || c == 't' || c == ' '

/-- Reads a date, a time or both, into their one form. -/
def ofText? (s : List Char) : Option (List Char) :=
  match date? s with
  | none => do
      let (time, rest) ← time? s
      if rest = [] then some time else none
  | some (date, []) => some date
  | some (date, c :: rest) => do
      if isSeparator c then
        let (time, rest) ← time? rest
        let offset ← offset? rest
        some (date ++ 'T' :: time ++ offset)
      else none

end Date
end Toml
end HeaderBinding
