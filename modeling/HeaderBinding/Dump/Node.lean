import HeaderBinding.Decimal.Integer
import HeaderBinding.Dump.Location
import HeaderBinding.Text.Blank

/-!
# The declaration tree of a header

Only the kinds of node that a binding can depend on are told apart. All others
are kept under their own kind name, since their positions and their children
still count.
-/

namespace HeaderBinding
namespace Dump

/-- A type as it is written, and as it reads with its aliases resolved. -/
structure TypeSpelling where
  written : String
  resolved : Option String
  deriving DecidableEq

def TypeSpelling.resolvedOrWritten (t : TypeSpelling) : String :=
  t.resolved.getD t.written

structure Extent where
  location : Option Location
  range : Option Range
  deriving DecidableEq

inductive Entity where
  | translationUnit
  | function (extent : Extent) (name : String) (type : TypeSpelling)
      (variadic : Option Bool) (implicit : Bool)
  | parameter (extent : Extent) (name : Option String) (type : TypeSpelling)
  | record (extent : Extent) (name : Option String) (tag : Option String)
      (complete : Bool) (implicit : Bool)
  | field (extent : Extent) (name : Option String) (type : TypeSpelling)
      (implicit : Bool)
  | enumeration (extent : Extent) (name : Option String)
      (fixedType : Option TypeSpelling) (implicit : Bool)
  | enumerator (extent : Extent) (name : String)
  | typedef (extent : Extent) (name : String) (type : TypeSpelling) (implicit : Bool)
  | global (extent : Extent) (name : String) (type : TypeSpelling) (implicit : Bool)
  | compoundStatement (range : Option Range)
  | constantExpression (range : Option Range) (value : Option String)
  | integerLiteral (range : Option Range) (value : Option String)
  | other (kind : Option String) (extent : Extent)
  deriving DecidableEq

inductive Node where
  | mk (id : UInt64) (entity : Entity) (children : List Node)

namespace Node

def id : Node → UInt64
  | mk id _ _ => id

def entity : Node → Entity
  | mk _ entity _ => entity

def children : Node → List Node
  | mk _ _ children => children

end Node

/-!
# What a node says
-/

namespace Entity

def location : Entity → Option Location
  | function extent _ _ _ _ => extent.location
  | parameter extent _ _ => extent.location
  | record extent _ _ _ _ => extent.location
  | field extent _ _ _ => extent.location
  | enumeration extent _ _ _ => extent.location
  | enumerator extent _ => extent.location
  | typedef extent _ _ _ => extent.location
  | global extent _ _ _ => extent.location
  | other _ extent => extent.location
  | translationUnit => none
  | compoundStatement _ => none
  | constantExpression _ _ => none
  | integerLiteral _ _ => none

def name? : Entity → Option String
  | function _ name _ _ _ => some name
  | enumerator _ name => some name
  | typedef _ name _ _ => some name
  | global _ name _ _ => some name
  | parameter _ name _ => name
  | record _ name _ _ _ => name
  | field _ name _ _ => name
  | enumeration _ name _ _ => name
  | _ => none

/-- Whether a declaration was made up by the front end. -/
def isImplicit : Entity → Bool
  | function _ _ _ _ implicit => implicit
  | record _ _ _ _ implicit => implicit
  | field _ _ _ implicit => implicit
  | enumeration _ _ _ implicit => implicit
  | typedef _ _ _ implicit => implicit
  | global _ _ _ implicit => implicit
  | _ => false

/-- Reads the value of an expression: a signed decimal of 128 bits. -/
def valueOf (text : String) : Option Int :=
  Decimal.boundedInteger? 128 (Text.trim text.toList)

def value? : Entity → Option Int
  | constantExpression _ value => value.bind valueOf
  | integerLiteral _ value => value.bind valueOf
  | _ => none

end Entity
end Dump
end HeaderBinding
