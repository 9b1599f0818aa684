import HeaderBinding.Files.Store

/-!
# The C front end

The program that dumps the declaration tree of a header, how it is called, and the
ways in which a call can end.
-/

namespace HeaderBinding

structure FrontEnd where
  program : String
  standard : String
  target : Option String
  includes : List String
  defines : List String

namespace FrontEnd

def defaultStandard : String :=
  "c11"

def ofProgram (program : String) : FrontEnd :=
  ⟨program, defaultStandard, none, [], []⟩

def arguments (f : FrontEnd) (header : String) : List String :=
  ["-Xclang", "-ast-dump=json", "-fsyntax-only", "-x", "c", "-std=" ++ f.standard] ++
    (match f.target with
      | some target => ["--target", target]
      | none => []) ++
    f.includes.flatMap (fun directory => ["-I", directory]) ++
    f.defines.flatMap (fun definition => ["-D", definition]) ++ [header]

def command (f : FrontEnd) (header : String) : List String :=
  f.program :: f.arguments header

/-- How a call of the front end ends: it could not be started, it failed and said
why, or it printed a dump. -/
inductive Outcome where
  | notStarted (error : Files.OsError)
  | failed (status : Nat) (report : String)
  | dumped (text : List UInt8)

end FrontEnd

namespace Files
namespace Store

/-- Starts a program among the files of a store. Only some of the files are
programs. A name without a slash is that of a program which is not there; two such
names are always those of directories. -/
def start (s : Store) (programs : Place → Option FrontEnd.Outcome) (program : String) :
    FrontEnd.Outcome :=
  if program = "." ∨ program = ".." then .notStarted .permissionDenied
  else if ¬program.toList.contains '/' then .notStarted .notFound
  else
    match s.locate program with
    | .error e => .notStarted e
    | .ok place => (programs place).getD (.notStarted .permissionDenied)

end Store
end Files
end HeaderBinding
