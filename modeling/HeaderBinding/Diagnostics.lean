import HeaderBinding.Declarations
import HeaderBinding.Json.Tree

/-!
# Declarations as JSON

The record of what was extracted, for those who look into a binding. It has no line
break at its end.
-/

namespace HeaderBinding

open Json

namespace TypedName

def tree (typeKey : String) (t : TypedName) : Tree :=
  .object [("name", .text t.name), (typeKey, .text t.type.token)]

end TypedName

namespace Function

def tree (f : Function) : Tree :=
  .object
    [ ("name", .text f.name),
      ("return_type", .text f.returns.token),
      ("params", .array (f.parameters.map (TypedName.tree "type"))),
      ("variadic", .flag f.variadic) ]

end Function

namespace Record

def tree (r : Record) : Tree :=
  .object
    [ ("name", .text r.name),
      ("fields", .array (r.fields.map (TypedName.tree "type"))),
      ("is_union", .flag r.isUnion) ]

end Record

namespace Enumeration

def valueTree (e : Enumerator) : Tree :=
  .object [("name", .text e.name), ("value", .integer e.value)]

def tree (e : Enumeration) : Tree :=
  .object
    [ ("name", .text e.name),
      ("underlying", .text e.underlying.token),
      ("values", .array (e.values.map valueTree)) ]

end Enumeration

namespace Declarations

def tree (d : Declarations) : Tree :=
  .object
    [ ("functions", .array (d.functions.map Function.tree)),
      ("structs", .array (d.structs.map Record.tree)),
      ("unions", .array (d.unions.map Record.tree)),
      ("enums", .array (d.enums.map Enumeration.tree)),
      ("typedefs", .array (d.typedefs.map (TypedName.tree "target"))),
      ("globals", .array (d.globals.map (TypedName.tree "type"))) ]

/-- The text of the diagnostics file. -/
def diagnostics (d : Declarations) : String :=
  d.tree.render

/-- What the record of the declarations is called among the artifacts of an import. -/
def artifactName : String :=
  "declarations"

end Declarations
end HeaderBinding
