import HeaderBinding.Declarations
import HeaderBinding.HeaderScope
import HeaderBinding.Logged
import HeaderBinding.Spelling.FunctionType
import HeaderBinding.Spelling.TypeMap
import HeaderBinding.Text.Order

/-!
# Extracting the declarations of a header

Each node of the header is read on its own. A category holds one declaration of a
name, the last one in the tree, in the order of names. A header that declares a
variadic function has no binding. What passes through or is left out is reported when
it is met.
-/

namespace HeaderBinding

open Dump

/-- What a single node declares. -/
inductive Declaration where
  | function (f : Function)
  | record (r : Record)
  | enumeration (e : Enumeration)
  | typedef (t : TypedName)
  | global (g : TypedName)
  deriving DecidableEq

namespace Declaration

/-- The types of a declaration, in the order in which they are mapped. -/
def types : Declaration → List ForeignType
  | function f => f.parameters.map TypedName.type ++ [f.returns]
  | record r => r.fields.map TypedName.type
  | enumeration e => [e.underlying]
  | typedef t => [t.type]
  | global g => [g.type]

def function? : Declaration → Option Function
  | function f => some f
  | _ => none

def struct? : Declaration → Option Record
  | record r => if r.isUnion then none else some r
  | _ => none

def union? : Declaration → Option Record
  | record r => if r.isUnion then some r else none
  | _ => none

def enumeration? : Declaration → Option Enumeration
  | enumeration e => some e
  | _ => none

def typedef? : Declaration → Option TypedName
  | typedef t => some t
  | _ => none

def global? : Declaration → Option TypedName
  | global g => some g
  | _ => none

end Declaration

namespace Extraction

/-!
# Types
-/

/-- The report on a type, if it passes through. -/
def passing (type : ForeignType) : List Event :=
  (type.opaqueName?.map .passingThrough).toList

def mapType (spelling : String) : Logged ForeignType :=
  let type := ForeignType.ofSpelling spelling
  ⟨passing type, type⟩

/-!
# Parameters and fields

One without a name is named by its position.
-/

def parameter? (n : Node) : Option (Option String × String) :=
  match n.entity with
  | .parameter _ name type => some (name, type.written)
  | _ => none

def field? (n : Node) : Option (Option String × String) :=
  match n.entity with
  | .field _ name type _ => some (name, type.written)
  | _ => none

def nameAt (stem : String) (index : Nat) (name : Option String) : String :=
  (name.filter (· ≠ "")).getD (stem ++ toString (index + 1))

def mapMembers (stem : String) (members : List (Option String × String)) :
    Logged (List TypedName) :=
  .all (members.mapIdx fun i m => do return ⟨nameAt stem i m.1, ← mapType m.2⟩)

/-!
# Functions

A type without parentheses is an alias of a function type, which only its resolved
form spells out.
-/

def functionSpelling (type : TypeSpelling) : String :=
  if type.written.toList.contains '(' then type.written else type.resolvedOrWritten

/-- The return type and the own parameter list of a function type. -/
def splitFunction (spelling : String) : String × List Char :=
  match Spelling.splitFunction? spelling.toList with
  | some (returned, own) => (String.ofList returned, own)
  | none => (spelling, [])

def readFunction (name : String) (type : TypeSpelling) (variadic : Option Bool)
    (children : List Node) : Logged Function := do
  let (returned, own) := splitFunction (functionSpelling type)
  let parameters ← mapMembers "param" (children.filterMap parameter?)
  return {
    name
    returns := ← mapType returned
    parameters
    variadic := variadic.getD (Spelling.isVariadic own) }

/-!
# Enumerations

An enumerator without an initializer is one more than the one before it; the first
one is zero. The values are counted in 128 bits.
-/

/-- The first value below an enumerator. -/
def initializer? (enumerator : Node) : Option Int :=
  (enumerator.children.flatMap Node.walk).findSome? fun n => n.entity.value?

/-- The value that the counter has next. Past its greatest value it starts at its least. -/
def nextValue (v : Int) : Int :=
  (v + 1).bmod (Nat.pow 2 128)

def enumerators (previous : Int) : List Node → List Enumerator
  | [] => []
  | n :: ns =>
      match n.entity with
      | .enumerator _ name =>
          let value := (initializer? n).getD (nextValue previous)
          ⟨name, value⟩ :: enumerators value ns
      | _ => enumerators previous ns

def readEnumeration (name : String) (fixed : Option TypeSpelling) (children : List Node) :
    Logged Enumeration := do
  let values := enumerators (-1) children
  let underlying ← fixed.elim (pure .i32) fun type => mapType type.resolvedOrWritten
  return ⟨name, underlying, values⟩

/-!
# Nodes
-/

def readRecord (name : String) (tag : Option String) (children : List Node) :
    Logged Record := do
  let fields ← mapMembers "field" (children.filterMap field?)
  return ⟨name, fields, tag = some "union"⟩

def skip (e : Event) : Logged (Option Declaration) :=
  ⟨[e], none⟩

/-- What a node declares, if it declares anything that a binding holds. A record or an
enumeration that a binding does not hold is reported. -/
def readNode (n : Node) : Logged (Option Declaration) := do
  match n.entity with
  | .function _ name type variadic _ =>
      return some (.function (← readFunction name type variadic n.children))
  | .record _ (some name) tag true _ =>
      if name = "" then skip (.skippingRecord name)
      else return some (.record (← readRecord name tag n.children))
  | .record _ name _ _ _ => skip (.skippingRecord name)
  | .enumeration _ (some name) fixed _ =>
      if name = "" then skip (.skippingEnumeration name)
      else return some (.enumeration (← readEnumeration name fixed n.children))
  | .enumeration _ none _ _ => skip (.skippingEnumeration none)
  | .typedef _ name type _ =>
      return some (.typedef ⟨name, ← mapType type.resolvedOrWritten⟩)
  | .global _ name type _ => return some (.global ⟨name, ← mapType type.written⟩)
  | _ => return none

/-!
# Values without reports
-/

def function (name : String) (type : TypeSpelling) (variadic : Option Bool)
    (children : List Node) : Function :=
  (readFunction name type variadic children).value

def record (name : String) (tag : Option String) (children : List Node) : Record :=
  (readRecord name tag children).value

def enumeration (name : String) (fixed : Option TypeSpelling) (children : List Node) :
    Enumeration :=
  (readEnumeration name fixed children).value

def declaration? (n : Node) : Option Declaration :=
  (readNode n).value

def events (n : Node) : List Event :=
  (readNode n).events

end Extraction

/-!
# The whole header
-/

inductive ExtractionError where
  | variadicFunction (name : String)
  deriving DecidableEq, Repr

namespace ExtractionError

def construct : ExtractionError → String
  | variadicFunction _ => "variadic function"

def name : ExtractionError → String
  | variadicFunction name => name

def message (e : ExtractionError) : String :=
  e.construct ++ " `" ++ e.name ++ "` cannot be represented in a binding module"

end ExtractionError

namespace Declarations

open Text

/-- Sorts declarations into their categories. -/
def ofList (ds : List Declaration) : Declarations where
  functions := sortNamed Function.name (ds.filterMap Declaration.function?)
  structs := sortNamed Record.name (ds.filterMap Declaration.struct?)
  unions := sortNamed Record.name (ds.filterMap Declaration.union?)
  enums := sortNamed Enumeration.name (ds.filterMap Declaration.enumeration?)
  typedefs := sortNamed TypedName.name (ds.filterMap Declaration.typedef?)
  globals := sortNamed TypedName.name (ds.filterMap Declaration.global?)

/-- Refuses declarations that no binding can express. -/
def check (d : Declarations) : Except ExtractionError Declarations :=
  match d.functions.find? Function.variadic with
  | some f => .error (.variadicFunction f.name)
  | none => .ok d

end Declarations

namespace HeaderScope

/-- Extracts the declarations of a header. What has been extracted is summed up. -/
def extraction (scope : HeaderScope) (root : Node) :
    Logged (Except ExtractionError Declarations) := do
  let read ← .all ((scope.declarations root).map Extraction.readNode)
  let result := (Declarations.ofList (read.filterMap id)).check
  match result with
  | .ok d => .report (.extracted d.summary)
  | .error _ => pure ()
  return result

/-- The declarations of a header. -/
def extract (scope : HeaderScope) (root : Node) : Except ExtractionError Declarations :=
  (scope.extraction root).value

/-- What is reported while the declarations of a header are extracted. -/
def extractionEvents (scope : HeaderScope) (root : Node) : List Event :=
  (scope.extraction root).events

end HeaderScope
end HeaderBinding
