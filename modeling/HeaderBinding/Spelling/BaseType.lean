import HeaderBinding.ForeignType
import HeaderBinding.Text.Blank

/-!
# Base types

The words of a type that is neither an array nor a pointer. Known words are
matched in any ASCII case; an unknown type keeps the case it was written in.
-/

namespace HeaderBinding

def lowerCase (w : List Char) : List Char :=
  w.map Char.toLower

/-!
# Combinations of the integer keywords

Only how often each keyword occurs counts, not the order.
-/

inductive IntegerKeyword where
  | unsigned
  | signed
  | long
  | short
  | char
  | int
  deriving DecidableEq, Repr

namespace IntegerKeyword

def word : IntegerKeyword → List Char
  | unsigned => ['u', 'n', 's', 'i', 'g', 'n', 'e', 'd']
  | signed => ['s', 'i', 'g', 'n', 'e', 'd']
  | long => ['l', 'o', 'n', 'g']
  | short => ['s', 'h', 'o', 'r', 't']
  | char => ['c', 'h', 'a', 'r']
  | int => ['i', 'n', 't']

def all : List IntegerKeyword :=
  [unsigned, signed, long, short, char, int]

def ofWord? (w : List Char) : Option IntegerKeyword :=
  all.find? fun k => k.word = w

/-- The integer type that a combination of keywords means. -/
def classify? (ks : List IntegerKeyword) : Option ForeignType :=
  let pick (signedType unsignedType : ForeignType) : Option ForeignType :=
    some (if unsigned ∈ ks then unsignedType else signedType)
  let longs := ks.count long
  if char ∈ ks then
    if short ∉ ks ∧ longs = 0 ∧ int ∉ ks then pick .i8 .u8 else none
  else if short ∈ ks then
    if longs = 0 then pick .i16 .u16 else none
  else if longs = 0 then pick .i32 .u32
  else if longs ≤ 2 then pick .i64 .u64
  else none

end IntegerKeyword

namespace Spelling

open Text

def standardTypes : List (String × ForeignType) :=
  [ ("void", .void), ("_bool", .bool), ("bool", .bool), ("float", .f32),
    ("double", .f64), ("size_t", .usize), ("uintptr_t", .usize),
    ("ssize_t", .isize), ("ptrdiff_t", .isize), ("intptr_t", .isize),
    ("int8_t", .i8), ("uint8_t", .u8), ("int16_t", .i16), ("uint16_t", .u16),
    ("int32_t", .i32), ("uint32_t", .u32), ("int64_t", .i64),
    ("uint64_t", .u64) ]

def standardType? (w : List Char) : Option ForeignType :=
  standardTypes.lookup (String.ofList w)

def integerType? (ws : List (List Char)) : Option ForeignType :=
  match ws with
  | [] => none
  | _ => (ws.mapM IntegerKeyword.ofWord?).bind IntegerKeyword.classify?

/-- The type that lower-case words mean, for the types that are known. -/
def knownType? (ws : List (List Char)) : Option ForeignType :=
  match ws with
  | [w] => (standardType? w).or (integerType? [w])
  | _ => integerType? ws

def tagKeywords : List (List Char) :=
  [ ['s', 't', 'r', 'u', 'c', 't'], ['u', 'n', 'i', 'o', 'n'], ['e', 'n', 'u', 'm'] ]

/-- The name of a tagged type, without the keyword of its tag. -/
def tagName? : List (List Char) → Option (List (List Char))
  | keyword :: name :: rest =>
      if lowerCase keyword ∈ tagKeywords then some (name :: rest) else none
  | _ => none

def baseType (ws : List (List Char)) : ForeignType :=
  match knownType? (ws.map lowerCase) with
  | some type => type
  | none => .named (String.ofList (joinWords ((tagName? ws).getD ws)))

end Spelling
end HeaderBinding
