import HeaderBinding.Dump.Reader
import HeaderBinding.Proofs.Json.Datum

/-!
# How a tree is written

A dump may leave out the file and the line of a position when they are those of the
position written last before it. So what a datum stands for depends on that position,
and every datum that holds positions passes on the last one of them.
-/

namespace HeaderBinding
namespace Dump

open Json

abbrev Members :=
  List (String × Datum)

def Members.keys (members : Members) : List String :=
  members.map Prod.fst

/-!
# Identifiers
-/

/-- The hexadecimal digits of a number, of either case. -/
inductive HexNumeral : List Char → Nat → Prop where
  | single {c : Char} {k : Nat} (hc : Text.hexDigit? c = some k) : HexNumeral [c] k
  | append {ds : List Char} {n : Nat} {c : Char} {k : Nat} (hds : HexNumeral ds n)
      (hc : Text.hexDigit? c = some k) : HexNumeral (ds ++ [c]) (n * 16 + k)

def IdWrittenAs (id : UInt64) (text : String) : Prop :=
  ∃ ds, text.toList = '0' :: 'x' :: ds ∧ HexNumeral ds id.toNat

/-!
# Positions
-/

/-- The file that included another one, and possibly how that one was included. -/
inductive IncluderWrittenAs (file : String) : Datum → Prop where
  | plain : IncluderWrittenAs file (.object [("file", .text file)])
  | before {d : Datum} :
      IncluderWrittenAs file (.object [("includedFrom", d), ("file", .text file)])
  | behind {d : Datum} :
      IncluderWrittenAs file (.object [("file", .text file), ("includedFrom", d)])

/-- The members that a position can have behind its offset. -/
inductive Position.Member (p : Position) : String → Datum → Prop where
  | file : Member p "file" (.text p.file)
  | line : Member p "line" (.natural p.line)
  | presumedFile {file : String} (h : p.presumedFile = some file) :
      Member p "presumedFile" (.text file)
  | presumedLine {line : UInt64} (h : p.presumedLine = some line) :
      Member p "presumedLine" (.natural line)
  | column : Member p "col" (.natural p.column)
  | tokenLength : Member p "tokLen" (.natural p.tokenLength)
  | includedFrom {file : String} {d : Datum} (h : p.includedFrom = some file)
      (hd : IncluderWrittenAs file d) : Member p "includedFrom" d
  | inMacroArgument : Member p "isMacroArgExpansion" (.flag p.inMacroArgument)

/-- Members behind an offset that make up a position. Each key stands there once, and
what is left out is known otherwise. -/
structure Position.HasMembers (recent : Recent) (p : Position) (members : Members) : Prop where
  once : members.keys.Nodup
  each : ∀ key d, (key, d) ∈ members → p.Member key d
  file : "file" ∈ members.keys ∨ p.file = recent.file
  line : "line" ∈ members.keys ∨ p.line = recent.line
  presumedFile : "presumedFile" ∈ members.keys ∨ p.presumedFile = none
  presumedLine : "presumedLine" ∈ members.keys ∨ p.presumedLine = none
  column : "col" ∈ members.keys
  tokenLength : "tokLen" ∈ members.keys
  includedFrom : "includedFrom" ∈ members.keys ∨ p.includedFrom = none
  inMacroArgument : "isMacroArgExpansion" ∈ members.keys ∨ p.inMacroArgument = false

/-- The file and the line that the position behind `p` may leave out. -/
def Position.recent (p : Position) : Recent :=
  ⟨p.file, p.line⟩

inductive Position.WrittenAs (recent : Recent) (p : Position) : Datum → Prop where
  | members {members : Members} (h : p.HasMembers recent members) :
      WrittenAs recent p (.object (("offset", .natural p.offset) :: members))

/-- A location is empty, one position, or the two of them. -/
inductive Location.WrittenAs (recent : Recent) : Location → Datum → Recent → Prop where
  | none : WrittenAs recent .none (.object []) recent
  | plain {p : Position} {d : Datum} (h : p.WrittenAs recent d) :
      WrittenAs recent (.plain p) d p.recent
  | both {p q : Position} {d e : Datum} (hp : p.WrittenAs recent d)
      (hq : q.WrittenAs p.recent e) :
      WrittenAs recent ⟨some p, some q⟩ (.object [("spellingLoc", d), ("expansionLoc", e)])
        q.recent

inductive Range.WrittenAs (recent : Recent) : Range → Datum → Recent → Prop where
  | startFirst {r : Range} {d e : Datum} {between after : Recent}
      (hstart : r.start.WrittenAs recent d between) (hstop : r.stop.WrittenAs between e after) :
      WrittenAs recent r (.object [("begin", d), ("end", e)]) after
  | stopFirst {r : Range} {d e : Datum} {between after : Recent}
      (hstop : r.stop.WrittenAs recent d between) (hstart : r.start.WrittenAs between e after) :
      WrittenAs recent r (.object [("end", d), ("begin", e)]) after

/-!
# Fields
-/

/-- What may stand for a text that need not be there. -/
def resolvedDatum : Option String → Datum
  | some s => .text s
  | none => .null

inductive TypeSpelling.WrittenAs (t : TypeSpelling) : Datum → Prop where
  | plain (h : t.resolved = none) : WrittenAs t (.object [("qualType", .text t.written)])
  | writtenFirst :
      WrittenAs t (.object [("qualType", .text t.written),
        ("desugaredQualType", resolvedDatum t.resolved)])
  | resolvedFirst :
      WrittenAs t (.object [("desugaredQualType", resolvedDatum t.resolved),
        ("qualType", .text t.written)])

/-- What a field of a node holds. A mark is a flag that is only worth writing when it
is set. -/
inductive Content where
  | location (l : Option Location)
  | range (r : Option Range)
  | text (s : Option String)
  | type (t : Option TypeSpelling)
  | flag (b : Option Bool)
  | mark (b : Bool)

/-- Whether a field holds nothing that has to be written. -/
def Content.Omissible : Content → Prop
  | location l => l = none
  | range r => r = none
  | text s => s = none
  | type t => t = none
  | flag b => b = none
  | mark b => b = false

inductive Content.WrittenAs (recent : Recent) : Content → Datum → Recent → Prop where
  | noLocation : WrittenAs recent (.location none) .null recent
  | location {l : Location} {d : Datum} {after : Recent} (h : l.WrittenAs recent d after) :
      WrittenAs recent (.location (some l)) d after
  | noRange : WrittenAs recent (.range none) .null recent
  | range {r : Range} {d : Datum} {after : Recent} (h : r.WrittenAs recent d after) :
      WrittenAs recent (.range (some r)) d after
  | noText : WrittenAs recent (.text none) .null recent
  | text {s : String} : WrittenAs recent (.text (some s)) (.text s) recent
  | noType : WrittenAs recent (.type none) .null recent
  | type {t : TypeSpelling} {d : Datum} (h : t.WrittenAs d) :
      WrittenAs recent (.type (some t)) d recent
  | noFlag : WrittenAs recent (.flag none) .null recent
  | flag {b : Bool} : WrittenAs recent (.flag (some b)) (.flag b) recent
  | mark {b : Bool} : WrittenAs recent (.mark b) (.flag b) recent

/-!
# Nodes
-/

def kindNames : List String :=
  [ "TranslationUnitDecl", "FunctionDecl", "ParmVarDecl", "RecordDecl", "FieldDecl",
    "EnumDecl", "EnumConstantDecl", "TypedefDecl", "VarDecl", "CompoundStmt", "ConstantExpr",
    "IntegerLiteral", "Other" ]

namespace Entity

/-- Whether an entity is of the kind of this name. -/
def HasKind : Entity → String → Prop
  | translationUnit, kind => kind = "TranslationUnitDecl"
  | function _ _ _ _ _, kind => kind = "FunctionDecl"
  | parameter _ _ _, kind => kind = "ParmVarDecl"
  | record _ _ _ _ _, kind => kind = "RecordDecl"
  | field _ _ _ _, kind => kind = "FieldDecl"
  | enumeration _ _ _ _, kind => kind = "EnumDecl"
  | enumerator _ _, kind => kind = "EnumConstantDecl"
  | typedef _ _ _ _, kind => kind = "TypedefDecl"
  | global _ _ _ _, kind => kind = "VarDecl"
  | compoundStatement _, kind => kind = "CompoundStmt"
  | constantExpression _ _, kind => kind = "ConstantExpr"
  | integerLiteral _ _, kind => kind = "IntegerLiteral"
  | other known _, kind => known = some kind ∧ kind ∉ kindNames

/-- The fields of an entity, and what they hold. -/
def fields : Entity → List (String × Content)
  | translationUnit => []
  | function extent name type variadic implicit =>
      [("loc", .location extent.location), ("range", .range extent.range),
        ("name", .text (some name)), ("type", .type (some type)), ("variadic", .flag variadic),
        ("isImplicit", .mark implicit)]
  | parameter extent name type =>
      [("loc", .location extent.location), ("range", .range extent.range),
        ("name", .text name), ("type", .type (some type))]
  | record extent name tag complete implicit =>
      [("loc", .location extent.location), ("range", .range extent.range),
        ("name", .text name), ("tagUsed", .text tag), ("completeDefinition", .mark complete),
        ("isImplicit", .mark implicit)]
  | field extent name type implicit =>
      [("loc", .location extent.location), ("range", .range extent.range),
        ("name", .text name), ("type", .type (some type)), ("isImplicit", .mark implicit)]
  | enumeration extent name fixedType implicit =>
      [("loc", .location extent.location), ("range", .range extent.range),
        ("name", .text name), ("fixedUnderlyingType", .type fixedType),
        ("isImplicit", .mark implicit)]
  | enumerator extent name =>
      [("loc", .location extent.location), ("range", .range extent.range),
        ("name", .text (some name))]
  | typedef extent name type implicit =>
      [("loc", .location extent.location), ("range", .range extent.range),
        ("name", .text (some name)), ("type", .type (some type)),
        ("isImplicit", .mark implicit)]
  | global extent name type implicit =>
      [("loc", .location extent.location), ("range", .range extent.range),
        ("name", .text (some name)), ("type", .type (some type)),
        ("isImplicit", .mark implicit)]
  | compoundStatement range => [("range", .range range)]
  | constantExpression range value => [("range", .range range), ("value", .text value)]
  | integerLiteral range value => [("range", .range range), ("value", .text value)]
  | other _ extent => [("loc", .location extent.location), ("range", .range extent.range)]

/-- Members behind the kind that say all of an entity that is not understood. -/
structure Covers (e : Entity) (children : List Node) (members : Members) : Prop where
  once : members.keys.Nodup
  fields : ∀ key content, (key, content) ∈ e.fields → key ∈ members.keys ∨ content.Omissible
  children : "inner" ∈ members.keys ∨ children = []

end Entity

mutual

/-- A datum that stands for a node. The identifier and the kind come first, the fields and
the children behind them in any order. -/
inductive Node.WrittenAs : Recent → Node → Datum → Recent → Prop where
  | mk {recent after : Recent} {id : UInt64} {entity : Entity} {children : List Node}
      {text kind : String} {members : Members} (hid : IdWrittenAs id text)
      (hkind : entity.HasKind kind) (hcovers : entity.Covers children members)
      (hmembers : Entity.MembersWrittenAs recent entity children members after) :
      Node.WrittenAs recent (.mk id entity children)
        (.object (("id", .text text) :: ("kind", .text kind) :: members)) after

/-- Members that each stand for a field of an entity or for its children. -/
inductive Entity.MembersWrittenAs :
    Recent → Entity → List Node → Members → Recent → Prop where
  | nil {recent : Recent} {e : Entity} {children : List Node} :
      Entity.MembersWrittenAs recent e children [] recent
  | field {recent between after : Recent} {e : Entity} {children : List Node} {key : String}
      {content : Content} {d : Datum} {members : Members} (hkey : (key, content) ∈ e.fields)
      (hd : content.WrittenAs recent d between)
      (hmembers : Entity.MembersWrittenAs between e children members after) :
      Entity.MembersWrittenAs recent e children ((key, d) :: members) after
  | children {recent between after : Recent} {e : Entity} {children : List Node}
      {items : List Datum} {members : Members}
      (hitems : Node.AllWrittenAs recent children items between)
      (hmembers : Entity.MembersWrittenAs between e children members after) :
      Entity.MembersWrittenAs recent e children (("inner", .array items) :: members) after

inductive Node.AllWrittenAs : Recent → List Node → List Datum → Recent → Prop where
  | nil {recent : Recent} : Node.AllWrittenAs recent [] [] recent
  | cons {recent between after : Recent} {n : Node} {ns : List Node} {d : Datum}
      {items : List Datum} (hn : Node.WrittenAs recent n d between)
      (hns : Node.AllWrittenAs between ns items after) :
      Node.AllWrittenAs recent (n :: ns) (d :: items) after

end

end Dump
end HeaderBinding
