import HeaderBinding.ForeignType

/-!
# Declarations of a binding

What a header declares, by category, in the types of the binding language.
-/

namespace HeaderBinding

/-- A name with its type: a parameter, a field, an alias or a global. -/
structure TypedName where
  name : String
  type : ForeignType
  deriving DecidableEq

structure Function where
  name : String
  returns : ForeignType
  parameters : List TypedName
  variadic : Bool
  deriving DecidableEq

/-- A struct or a union. -/
structure Record where
  name : String
  fields : List TypedName
  isUnion : Bool
  deriving DecidableEq

structure Enumerator where
  name : String
  value : Int
  deriving DecidableEq

structure Enumeration where
  name : String
  underlying : ForeignType
  values : List Enumerator
  deriving DecidableEq

structure Declarations where
  functions : List Function
  structs : List Record
  unions : List Record
  enums : List Enumeration
  typedefs : List TypedName
  globals : List TypedName
  deriving DecidableEq

namespace Declarations

/-- How many declarations there are of each category. -/
def summary (d : Declarations) : String :=
  ", ".intercalate
    [ toString d.functions.length ++ " functions",
      toString d.structs.length ++ " structs",
      toString d.unions.length ++ " unions",
      toString d.enums.length ++ " enums",
      toString d.typedefs.length ++ " typedefs",
      toString d.globals.length ++ " globals" ]

end Declarations
end HeaderBinding
