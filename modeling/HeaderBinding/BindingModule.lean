import HeaderBinding.Declarations
import HeaderBinding.Text.Blank

/-!
# Binding modules

The text of a module: a banner, the module line with the libraries to link, and a
block or a line for each declaration. A block ends in an empty line. No line ends in
a blank, and the text ends in a single line break.
-/

namespace HeaderBinding

/-- What stands on the first lines of a module. Without a source there is no
banner. -/
structure ModuleHeader where
  name : String
  links : List String
  source : Option String

structure BindingModule where
  name : String
  text : String
  deriving DecidableEq

namespace BindingModule

open Text

/-!
# The first lines
-/

def escapedLinkChar (c : Char) : List Char :=
  match c with
  | '\\' => ['\\', '\\']
  | '"' => ['\\', '"']
  | c => [c]

def quotedLink (link : String) : String :=
  String.ofList ('"' :: link.toList.flatMap escapedLinkChar ++ ['"'])

def linkClause (links : List String) : String :=
  match links with
  | [] => ""
  | links => " links " ++ ", ".intercalate (links.map quotedLink)

def moduleLine (h : ModuleHeader) : String :=
  "foreign module " ++ h.name ++ linkClause h.links ++ ":"

def bannerLines (h : ModuleHeader) : List String :=
  match h.source with
  | none => []
  | some source => ["# Auto-generated by c-import", "# Source: " ++ source]

/-!
# Declarations
-/

def layout (r : Record) : String :=
  if r.isUnion then "c union" else "c"

def recordLines (r : Record) : List String :=
  ("  foreign type " ++ r.name ++ " layout " ++ layout r ++ ":") ::
    r.fields.map (fun f => "    field " ++ f.name ++ ": " ++ f.type.token) ++ [""]

def enumerationLines (e : Enumeration) : List String :=
  ("  foreign enum " ++ e.name ++ " layout " ++ e.underlying.token ++ ":") ::
    e.values.map (fun v => "    const " ++ v.name ++ " = " ++ toString v.value) ++ [""]

def typedefLine (t : TypedName) : String :=
  "  foreign alias " ++ t.name ++ " = " ++ t.type.token

def globalLine (g : TypedName) : String :=
  "  foreign global " ++ g.name ++ ": " ++ g.type.token

def parameter (p : TypedName) : String :=
  p.name ++ ": " ++ p.type.token

def functionLine (f : Function) : String :=
  "  foreign define " ++ f.name ++ "(" ++ ", ".intercalate (f.parameters.map parameter) ++
    ") -> " ++ f.returns.token

def declarationLines (d : Declarations) : List String :=
  (d.structs ++ d.unions).flatMap recordLines ++ d.enums.flatMap enumerationLines ++
    d.typedefs.map typedefLine ++ d.globals.map globalLine ++ d.functions.map functionLine

/-!
# The whole text
-/

def lines (h : ModuleHeader) (d : Declarations) : List String :=
  bannerLines h ++ moduleLine h :: declarationLines d

def joinLines (lines : List String) : List Char :=
  ['\n'].intercalate (lines.map fun line => trimEnd line.toList)

def renderText (h : ModuleHeader) (d : Declarations) : String :=
  String.ofList (trimEnd (joinLines (lines h d)) ++ ['\n'])

def render (h : ModuleHeader) (d : Declarations) : BindingModule :=
  ⟨h.name, renderText h d⟩

/-- What a module is called among the artifacts of an import. -/
def artifactName : String :=
  "binding_module"

end BindingModule
end HeaderBinding
