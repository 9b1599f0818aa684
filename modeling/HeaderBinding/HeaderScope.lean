import HeaderBinding.Dump.Walk
import HeaderBinding.Files.Store

/-!
# Which nodes belong to the header

A node belongs to the header when the file that it was expanded in is the header.
Paths are compared by what they lead to.
-/

namespace HeaderBinding

/-- The header under import, among the files that its path is looked up in. -/
structure HeaderScope where
  files : Files.Store
  header : String

namespace HeaderScope

open Dump

def isHeader (scope : HeaderScope) (file : String) : Bool :=
  scope.files.resolve file = scope.files.resolve scope.header

/-- Whether a position is in the header. A position that names neither a file nor
an including file is taken to be. -/
def covers (scope : HeaderScope) (file includedFrom : Option String) : Bool :=
  match file.filter (· ≠ "") with
  | some file => scope.isHeader file
  | none =>
      match includedFrom.filter (· ≠ "") with
      | some includer => scope.isHeader includer
      | none => true

def isLocal (scope : HeaderScope) (n : Node) : Bool :=
  match n.entity.location.bind Location.deciding with
  | some p => scope.covers (some p.file) p.includedFrom
  | none => false

/-- The nodes that the header declares itself, in the order of the walk. -/
def declarations (scope : HeaderScope) (root : Node) : List Node :=
  root.walk.filter fun n => !n.entity.isImplicit && scope.isLocal n

end HeaderScope
end HeaderBinding
