import HeaderBinding.Dump.Node
import HeaderBinding.Json.Value
import HeaderBinding.Text.Hex

/-!
# Declaration trees from JSON

A dump leaves out the file and the line of a position when they are those of the
position written last before it, so reading carries them along from left to
right, through every position that is read. Values that no field asks for are
passed over and do not count for the nesting limit.
-/

namespace HeaderBinding
namespace Dump

open Json

/-- The file and the line of the position read last. -/
structure Recent where
  file : String
  line : UInt64
  deriving DecidableEq

abbrev Reading :=
  StateT Recent (Except Fault)

def refuse (fault : Fault) : Reading α :=
  throw fault

/-!
# Scalars
-/

def readText : Value → Except Fault String
  | .atom ⟨.ok (.text s), _⟩ => .ok s
  | v => .error v.mismatch

def readFlag : Value → Except Fault Bool
  | .atom ⟨.ok (.flag b), _⟩ => .ok b
  | v => .error v.mismatch

def readNumber : Value → Except Fault UInt64
  | .atom ⟨.ok (.number (some n)), _⟩ => .ok n
  | v => .error v.mismatch

/-- Reads a value that may be null. -/
def optional [Monad m] (read : Value → m α) : Value → m (Option α)
  | .atom ⟨.ok .null, _⟩ => pure none
  | v => some <$> read v

def pass (v : Value) : Except Fault Unit :=
  match v.passing with
  | some fault => .error fault
  | none => .ok ()

/-- An identifier: `0x`, an optional plus, and the hexadecimal digits of a number
of 64 bits. -/
def idOfText? (text : String) : Option UInt64 :=
  match text.toList with
  | '0' :: 'x' :: ds =>
      let ds :=
        match ds with
        | '+' :: ds => ds
        | ds => ds
      (Text.hexValue? ds).bind fun n =>
        if n < UInt64.size then some (UInt64.ofNat n) else none
  | _ => none

def readId (v : Value) : Except Fault UInt64 := do
  match idOfText? (← readText v) with
  | some id => return id
  | none => throw .misshapen

/-!
# Objects

An object that is read uses up one level of nesting before anything in it counts.
-/

def finish (ending : Option Fault) : Except Fault Unit :=
  match ending with
  | some fault => .error fault
  | none => .ok ()

/-- One level less of nesting, if there is one. -/
def deeper (room : Nat) : Except Fault Nat :=
  match room with
  | 0 => .error .malformed
  | room + 1 => .ok room

/-- Reads the members of an object in order, each added to what is known so far. -/
def readMembers (add : σ → String → Value → Except Fault σ) (known : σ)
    (ending : Option Fault) : List Member → Except Fault σ
  | [] => do
      finish ending
      return known
  | (key, v) :: members => do
      let known ← add known (← key.content) v
      readMembers add known ending members

def readObject (add : σ → String → Value → Except Fault σ) (known : σ) (room : Nat) :
    Value → Except Fault σ
  | .object members ending => do
      let _ ← deeper room
      readMembers add known ending members
  | v => throw v.mismatch

/-!
# Positions
-/

inductive PositionKey where
  | file
  | line
  | presumedFile
  | presumedLine
  | column
  | tokenLength
  | includedFrom
  | inMacroArgument
  deriving DecidableEq

namespace PositionKey

def name : PositionKey → String
  | file => "file"
  | line => "line"
  | presumedFile => "presumedFile"
  | presumedLine => "presumedLine"
  | column => "col"
  | tokenLength => "tokLen"
  | includedFrom => "includedFrom"
  | inMacroArgument => "isMacroArgExpansion"

def all : List PositionKey :=
  [file, line, presumedFile, presumedLine, column, tokenLength, includedFrom, inMacroArgument]

def ofName? (name : String) : Option PositionKey :=
  all.find? fun key => key.name = name

end PositionKey

/-- A position as far as its members have been read. -/
structure PositionDraft where
  file : Option String
  line : Option UInt64
  presumedFile : Option String
  presumedLine : Option UInt64
  column : Option UInt64
  tokenLength : Option UInt64
  includedFrom : Option String
  inMacroArgument : Bool

namespace PositionDraft

def empty : PositionDraft :=
  ⟨none, none, none, none, none, none, none, false⟩

end PositionDraft

/-- The file that included another one. How that one was included does not matter. -/
def addIncluder (known : Option String) (name : String) (v : Value) :
    Except Fault (Option String) :=
  match name with
  | "file" => some <$> readText v
  | "includedFrom" => do
      pass v
      return known
  | _ => throw .misshapen

def readIncluder (room : Nat) (v : Value) : Except Fault String := do
  match ← readObject addIncluder none room v with
  | some file => return file
  | none => throw .misshapen

def addToPosition (room : Nat) (p : PositionDraft) (name : String) (v : Value) :
    Except Fault PositionDraft :=
  match PositionKey.ofName? name with
  | some .file => return { p with file := some (← readText v) }
  | some .line => return { p with line := some (← readNumber v) }
  | some .presumedFile => return { p with presumedFile := some (← readText v) }
  | some .presumedLine => return { p with presumedLine := some (← readNumber v) }
  | some .column => return { p with column := some (← readNumber v) }
  | some .tokenLength => return { p with tokenLength := some (← readNumber v) }
  | some .includedFrom => return { p with includedFrom := some (← readIncluder room v) }
  | some .inMacroArgument => return { p with inMacroArgument := ← readFlag v }
  | none => throw .misshapen

/-- Completes a position with the file and line of the one before it. -/
def completePosition (offset : UInt64) (p : PositionDraft) : Reading Position := do
  let recent ← get
  match p.column, p.tokenLength with
  | some column, some tokenLength =>
      let file := p.file.getD recent.file
      let line := p.line.getD recent.line
      set (Recent.mk file line)
      return ⟨offset, file, line, p.presumedFile, p.presumedLine, column, tokenLength,
        p.includedFrom, p.inMacroArgument⟩
  | _, _ => refuse .misshapen

/-- The members of a position. Its offset comes first. -/
def readPositionMembers (room : Nat) (ending : Option Fault) :
    List Member → Reading Position
  | [] => do
      finish ending
      refuse .misshapen
  | (key, v) :: members => do
      if (← key.content) ≠ "offset" then refuse .misshapen
      else
        let offset ← readNumber v
        let p ← readMembers (addToPosition room) .empty ending members
        completePosition offset p

def readPosition (room : Nat) : Value → Reading Position
  | .object members ending => do
      readPositionMembers (← deeper room) ending members
  | v => refuse v.mismatch

/-- The members of a location: none, those of a position, or a spelling and an
expansion position, and nothing behind them. -/
def readLocationMembers (room : Nat) (ending : Option Fault) (members : List Member) :
    Reading Location := do
  match members with
  | [] =>
      finish ending
      return .none
  | (key, v) :: rest =>
      match ← key.content with
      | "offset" => return .plain (← readPositionMembers room ending members)
      | "spellingLoc" =>
          let spelling ← readPosition room v
          match rest with
          | [] =>
              finish ending
              refuse .misshapen
          | (key, v) :: rest =>
              if (← key.content) ≠ "expansionLoc" then refuse .misshapen
              else
                let expansion ← readPosition room v
                match rest with
                | [] =>
                    finish ending
                    return ⟨some spelling, some expansion⟩
                | _ => refuse .malformed
      | _ => refuse .misshapen

def readLocation (room : Nat) : Value → Reading Location
  | .object members ending => do
      readLocationMembers (← deeper room) ending members
  | v => refuse v.mismatch

/-- The members of a range: where it begins and where it ends. -/
def readRangeMembers (room : Nat) (ending : Option Fault) (start stop : Option Location) :
    List Member → Reading Range
  | [] => do
      finish ending
      match start, stop with
      | some start, some stop => return ⟨start, stop⟩
      | _, _ => refuse .misshapen
  | (key, v) :: members => do
      match ← key.content with
      | "begin" => readRangeMembers room ending (some (← readLocation room v)) stop members
      | "end" => readRangeMembers room ending start (some (← readLocation room v)) members
      | _ => refuse .misshapen

def readRange (room : Nat) : Value → Reading Range
  | .object members ending => do
      readRangeMembers (← deeper room) ending none none members
  | v => refuse v.mismatch

/-!
# Types

A type may also be written as the array of its resolved and its written form.
-/

/-- A type as far as its members have been read. The resolved form may be null. -/
structure TypeDraft where
  resolved : Option (Option String)
  written : Option String

def addToType (t : TypeDraft) (name : String) (v : Value) : Except Fault TypeDraft :=
  match name with
  | "desugaredQualType" => do
      if t.resolved.isSome then throw .misshapen
      else return { t with resolved := some (← optional readText v) }
  | "qualType" => do
      if t.written.isSome then throw .misshapen
      else return { t with written := some (← readText v) }
  | _ => do
      pass v
      return t

def readTypeItems (ending : Option Fault) : List Value → Except Fault TypeSpelling
  | [] => do
      finish ending
      throw .misshapen
  | resolved :: items => do
      let resolved ← optional readText resolved
      match items with
      | [] =>
          finish ending
          throw .misshapen
      | written :: items =>
          let written ← readText written
          match items with
          | [] =>
              finish ending
              return ⟨written, resolved⟩
          | _ => throw .malformed

def readType (room : Nat) : Value → Except Fault TypeSpelling
  | .array items ending => do
      let _ ← deeper room
      readTypeItems ending items
  | v => do
      let t ← readObject addToType ⟨none, none⟩ room v
      match t.written with
      | some written => return ⟨written, t.resolved.join⟩
      | none => throw .misshapen

/-!
# Fields of a node

Each kind of node declares the fields that are read of it. The others, and all of
a field's name that a kind does not declare, are passed over.
-/

inductive NodeField where
  | location
  | range
  | name
  | type
  | variadic
  | implicit
  | tag
  | complete
  | fixedType
  | value
  | kind
  deriving DecidableEq

namespace NodeField

def key : NodeField → String
  | location => "loc"
  | range => "range"
  | name => "name"
  | type => "type"
  | variadic => "variadic"
  | implicit => "isImplicit"
  | tag => "tagUsed"
  | complete => "completeDefinition"
  | fixedType => "fixedUnderlyingType"
  | value => "value"
  | kind => "kind"

end NodeField

inductive NodeKind where
  | translationUnit
  | function
  | parameter
  | record
  | field
  | enumeration
  | enumerator
  | typedef
  | global
  | compoundStatement
  | constantExpression
  | integerLiteral
  | other
  deriving DecidableEq

namespace NodeKind

def name : NodeKind → String
  | translationUnit => "TranslationUnitDecl"
  | function => "FunctionDecl"
  | parameter => "ParmVarDecl"
  | record => "RecordDecl"
  | field => "FieldDecl"
  | enumeration => "EnumDecl"
  | enumerator => "EnumConstantDecl"
  | typedef => "TypedefDecl"
  | global => "VarDecl"
  | compoundStatement => "CompoundStmt"
  | constantExpression => "ConstantExpr"
  | integerLiteral => "IntegerLiteral"
  | other => "Other"

def all : List NodeKind :=
  [translationUnit, function, parameter, record, field, enumeration, enumerator, typedef,
    global, compoundStatement, constantExpression, integerLiteral, other]

def ofName? (name : String) : Option NodeKind :=
  all.find? fun kind => kind.name = name

def declares : NodeKind → List NodeField
  | translationUnit => []
  | function => [.location, .range, .name, .type, .variadic, .implicit]
  | parameter => [.location, .range, .name, .type]
  | record => [.location, .range, .name, .tag, .complete, .implicit]
  | field => [.location, .range, .name, .type, .implicit]
  | enumeration => [.location, .range, .name, .fixedType, .implicit]
  | enumerator => [.location, .range, .name]
  | typedef => [.location, .range, .name, .type, .implicit]
  | global => [.location, .range, .name, .type, .implicit]
  | compoundStatement => [.range]
  | constantExpression => [.range, .value]
  | integerLiteral => [.range, .value]
  | other => [.kind, .location, .range]

def field? (kind : NodeKind) (key : String) : Option NodeField :=
  kind.declares.find? fun field => field.key = key

/-- Whether a node of this kind cannot be without a name. -/
def named : NodeKind → Bool
  | function => true
  | enumerator => true
  | typedef => true
  | global => true
  | _ => false

end NodeKind

/-- What has been read of the fields of a node. -/
structure NodeDraft where
  given : List NodeField
  location : Option Location
  range : Option Range
  name : Option String
  type : Option TypeSpelling
  variadic : Option Bool
  implicit : Bool
  tag : Option String
  complete : Bool
  fixedType : Option TypeSpelling
  value : Option String
  kind : Option String

namespace NodeDraft

def empty : NodeDraft :=
  ⟨[], none, none, none, none, none, false, none, false, none, none, none⟩

/-- The draft of a node whose kind is known by name only. -/
def ofKind (name : String) : NodeDraft :=
  { empty with given := [.kind], kind := some name }

def extent (d : NodeDraft) : Extent :=
  ⟨d.location, d.range⟩

/-- The entity that a draft describes, if nothing that its kind requires is missing. -/
def entity? (d : NodeDraft) : NodeKind → Option Entity
  | .translationUnit => some .translationUnit
  | .function => return .function d.extent (← d.name) (← d.type) d.variadic d.implicit
  | .parameter => return .parameter d.extent d.name (← d.type)
  | .record => some (.record d.extent d.name d.tag d.complete d.implicit)
  | .field => return .field d.extent d.name (← d.type) d.implicit
  | .enumeration => some (.enumeration d.extent d.name d.fixedType d.implicit)
  | .enumerator => return .enumerator d.extent (← d.name)
  | .typedef => return .typedef d.extent (← d.name) (← d.type) d.implicit
  | .global => return .global d.extent (← d.name) (← d.type) d.implicit
  | .compoundStatement => some (.compoundStatement d.range)
  | .constantExpression => some (.constantExpression d.range d.value)
  | .integerLiteral => some (.integerLiteral d.range d.value)
  | .other => some (.other d.kind d.extent)

end NodeDraft

/-- Reads one field into a draft that does not have it yet. -/
def readField (room : Nat) (kind : NodeKind) (field : NodeField) (v : Value) (d : NodeDraft) :
    Reading NodeDraft := do
  let d := { d with given := field :: d.given }
  match field with
  | .location => return { d with location := ← optional (readLocation room) v }
  | .range => return { d with range := ← optional (readRange room) v }
  | .name =>
      if kind.named then return { d with name := some (← readText v) }
      else return { d with name := ← (optional readText v : Except Fault _) }
  | .type => return { d with type := some (← readType room v) }
  | .variadic => return { d with variadic := ← (optional readFlag v : Except Fault _) }
  | .implicit => return { d with implicit := ← readFlag v }
  | .tag => return { d with tag := ← (optional readText v : Except Fault _) }
  | .complete => return { d with complete := ← readFlag v }
  | .fixedType => return { d with fixedType := ← (optional (readType room) v : Except Fault _) }
  | .value => return { d with value := ← (optional readText v : Except Fault _) }
  | .kind => return { d with kind := ← (optional readText v : Except Fault _) }

/-- Reads or passes over a member that does not hold the children of the node. -/
def readMember (room : Nat) (kind : NodeKind) (key : String) (v : Value) (d : NodeDraft) :
    Reading NodeDraft :=
  match kind.field? key with
  | some field =>
      if field ∈ d.given then refuse .misshapen else readField room kind field v d
  | none => do
      pass v
      return d

/-!
# Nodes

The identifier and the kind come first, in this order. A node without a kind is
one of no known kind.
-/

/-- How the members behind the kind are to be read. -/
def draftFor (name : String) : NodeKind × NodeDraft :=
  match NodeKind.ofName? name with
  | some kind => (kind, .empty)
  | none => (.other, .ofKind name)

def kindless (id : UInt64) : Node :=
  .mk id (.other none ⟨none, none⟩) []

def complete (id : UInt64) (kind : NodeKind) (d : NodeDraft) (children : List Node) :
    Reading Node :=
  match d.entity? kind with
  | some entity => return .mk id entity children
  | none => refuse .misshapen

mutual

def readNode (room : Nat) : Value → Reading Node
  | .object members ending => do
      readNodeMembers (← deeper room) ending members
  | .array _ _ => refuse .misshapen
  | .atom scan => refuse (Value.atom scan).mismatch
  | .absent fault => refuse fault

def readNodeMembers (room : Nat) (ending : Option Fault) : List Member → Reading Node
  | [] => do
      finish ending
      return kindless 0
  | (key, v) :: members => do
      match ← key.content with
      | "id" => readFromKind room ending (← readId v) members
      | "kind" =>
          let (kind, d) := draftFor (← readText v)
          readFields room ending 0 kind d [] members
      | _ => refuse .misshapen

def readFromKind (room : Nat) (ending : Option Fault) (id : UInt64) :
    List Member → Reading Node
  | [] => do
      finish ending
      return kindless id
  | (key, v) :: members => do
      if (← key.content) ≠ "kind" then refuse .misshapen
      else
        let (kind, d) := draftFor (← readText v)
        readFields room ending id kind d [] members

def readFields (room : Nat) (ending : Option Fault) (id : UInt64) (kind : NodeKind)
    (d : NodeDraft) (children : List Node) : List Member → Reading Node
  | [] => do
      finish ending
      complete id kind d children
  | (key, v) :: members => do
      let key ← key.content
      if key = "inner" then
        let children ← readChildren room v
        readFields room ending id kind d children members
      else
        let d ← readMember room kind key v d
        readFields room ending id kind d children members

def readChildren (room : Nat) : Value → Reading (List Node)
  | .array items ending => do
      readNodes (← deeper room) ending items
  | .object _ _ => refuse .misshapen
  | .atom scan => refuse (Value.atom scan).mismatch
  | .absent fault => refuse fault

def readNodes (room : Nat) (ending : Option Fault) : List Value → Reading (List Node)
  | [] => do
      finish ending
      return []
  | v :: items => do
      let node ← readNode room v
      let nodes ← readNodes room ending items
      return node :: nodes

end

/-- How deep the objects and arrays that are read may nest. -/
def nestingLimit : Nat :=
  127

/-- Reads the text of a dump. -/
def Node.ofText (text : List UInt8) : Except Fault Node := do
  let document := Document.ofText text
  let (root, _) ← (readNode nestingLimit document.value).run ⟨"", 0⟩
  finish document.trailing
  return root

end Dump
end HeaderBinding
