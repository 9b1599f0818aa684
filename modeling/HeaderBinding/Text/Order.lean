/-!
# Order by bytes

Names are ordered by the bytes of their UTF-8 form. Of entries under one name the
last one stays.
-/

namespace HeaderBinding
namespace Text

def utf8 (s : String) : List UInt8 :=
  s.toUTF8.data.toList

def bytesBefore (a b : String) : Bool :=
  utf8 a < utf8 b

/-- Puts an entry into an ordered list, in front of those of its name. -/
def insertByName (name : α → String) (x : α) : List α → List α
  | [] => [x]
  | y :: ys =>
      if bytesBefore (name y) (name x) then y :: insertByName name x ys
      else x :: y :: ys

/-- Sorts entries by their names. Those of one name stay in their order. -/
def sortByName (name : α → String) (xs : List α) : List α :=
  xs.foldr (insertByName name) []

/-- An entry and those behind it, without those that have the name of the one before. -/
def dedupFrom (name : α → String) (x : α) : List α → List α
  | [] => [x]
  | y :: ys =>
      if name y = name x then dedupFrom name x ys
      else x :: dedupFrom name y ys

def dedupByName (name : α → String) : List α → List α
  | [] => []
  | x :: xs => dedupFrom name x xs

/-- Sorts entries by their names and keeps the last one of each name. Being reversed
first, the entries of a name have the last one in front when they are sorted. -/
def sortNamed (name : α → String) (xs : List α) : List α :=
  dedupByName name (sortByName name xs.reverse)

end Text
end HeaderBinding
