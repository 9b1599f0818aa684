import HeaderBinding.Spelling.BaseType
import HeaderBinding.Spelling.Declarator

/-!
# Spellings to foreign types

Every spelling means some foreign type. Arrays decay to pointers and lose their
bounds; a pointer to `char` is a C string; qualifiers are dropped everywhere else.
-/

namespace HeaderBinding
namespace Spelling

open Text

def charWord : List Char :=
  ['c', 'h', 'a', 'r']

/-- Whether a pointee is `char`, up to qualifiers and case. -/
def isChar (s : List Char) : Bool :=
  lowerCase (unqualified s) = charWord

def stringType (pointee : List Char) : ForeignType :=
  if mentions .const pointee then .constCString else .cstring

def typeOf (s : List Char) : ForeignType :=
  match _h : arrayElement? (trim s) with
  | some element => .ptr (typeOf element)
  | none =>
      match _h : pointee? (trim s) with
      | some pointee =>
          if isChar pointee then stringType pointee
          else .ptr (typeOf pointee)
      | none => baseType (unqualifiedWords (trim s))
termination_by s.length
decreasing_by
  · exact Nat.lt_of_lt_of_le (length_arrayElement?_lt _h) (length_trim_le s)
  · exact Nat.lt_of_lt_of_le (length_pointee?_lt _h) (length_trim_le s)

end Spelling

namespace ForeignType

/-- The foreign type that a C spelling means. -/
def ofSpelling (spelling : String) : ForeignType :=
  Spelling.typeOf spelling.toList

end ForeignType
end HeaderBinding
