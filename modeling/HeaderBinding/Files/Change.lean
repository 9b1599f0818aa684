import HeaderBinding.Files.Store

/-!
# Changing files

Directories are made with the parents they lack. A file is written through links,
or replaced as a whole: then a link in its place is replaced itself.
-/

namespace HeaderBinding
namespace Files
namespace Store

/-- The place that a path names, without following it there if it is a link. The
directory above has to be there. -/
def entryPlace (s : Store) (onDot : OsError) (path : String) : Except OsError Place :=
  match (pieces path).reverse with
  | [] => .error (if path = "" then .notFound else onDot)
  | last :: front =>
      match s.walk linkLimit (s.origin path) front.reverse with
      | .error e => .error e
      | .ok (.missing _) => .error .notFound
      | .ok (.present parent) =>
          if ¬s.isDirectory parent then .error .notADirectory
          else if last = "." ∨ last = ".." then .error onDot
          else .ok (parent ++ [last])

def makeDirectory (s : Store) (path : String) : Except OsError Store :=
  match s.entryPlace .alreadyExists path with
  | .error e => .error e
  | .ok place =>
      match s.lookup place with
      | some _ => .error .alreadyExists
      | none => .ok (s.insert place .directory)

def leadsToDirectory (s : Store) (path : String) : Bool :=
  match s.locate path with
  | .ok place => s.isDirectory place
  | .error _ => false

/-- Makes the first of some directories, each of which is to be inside the next one.
What was made before an error stays. -/
def makeDirectories (s : Store) : List String → Store × Except OsError Unit
  | [] => (s, .ok ())
  | path :: above =>
      let orThere (s : Store) : Except OsError Store → Store × Except OsError Unit
        | .ok s => (s, .ok ())
        | .error e => (s, if s.leadsToDirectory path then .ok () else .error e)
      match s.makeDirectory path with
      | .error .notFound =>
          match s.makeDirectories above with
          | (s, .ok ()) => orThere s (s.makeDirectory path)
          | (s, .error e) => (s, .error e)
      | result => orThere s result

def ensureDirectory (s : Store) (path : String) : Store × Except OsError Unit :=
  s.makeDirectories (upward path)

/-- Makes the directory that a file is to be in. -/
def ensureParent (s : Store) (path : String) : Store × Except OsError Unit :=
  s.ensureDirectory (parent path)

/-- Writes a file, through links and over what it held. -/
def write (s : Store) (path text : String) : Store × Except OsError Unit :=
  match s.find path with
  | .error e => (s, .error e)
  | .ok (.missing place) => (s.insert place (.file text), .ok ())
  | .ok (.present place) =>
      if s.isDirectory place then (s, .error .isADirectory)
      else (s.insert place (.file text), .ok ())

/-!
# Replacing a file

The new file is finished under a name of its own, next to the one that it is to take
the place of, and moved there. If it cannot be moved it is taken away again.
-/

def remove (s : Store) (place : Place) : Store :=
  { s with entries := s.entries.filter (·.1 ≠ place) }

/-- Moves a file to a path. Only a directory stands in its way. -/
def move (s : Store) (source : Place) (path : String) : Except OsError Store :=
  match s.entryPlace .busy path with
  | .error e => .error e
  | .ok place =>
      if endsInSlash path then .error .notADirectory
      else if s.isDirectory place then .error .isADirectory
      else
        match s.lookup source with
        | none => .error .notFound
        | some entry => .ok ((s.remove source).insert place entry)

/-- The names that an entry has and, if it is a link, where it leads. -/
def textsOf : Place × Entry → List String
  | (place, .link target) => target :: place
  | (place, _) => place

/-- A name that nothing in a store has or leads to, being longer than all that does. -/
def temporaryName (s : Store) (path : String) : String :=
  let used := ((path :: s.entries.flatMap textsOf).map String.toList).flatten
  ".tmp" ++ String.ofList (used.map fun _ => '0')

/-- The path of the directory next to which a file is finished. -/
def besidePath (path : String) : String :=
  if names path = [] ∨ parent path = "" then "." else parent path

/-- The directory next to which a file is finished. -/
def placeBeside (s : Store) (path : String) : Except OsError Place :=
  match s.locate (besidePath path) with
  | .error e => .error e
  | .ok directory => if s.isDirectory directory then .ok directory else .error .notADirectory

/-- The path that a file is finished under, if there is a directory for it. -/
def temporaryPath? (s : Store) (path : String) : Option String :=
  match s.placeBeside path with
  | .error _ => none
  | .ok _ => some (join (s.absolutePath (besidePath path)) (s.temporaryName path))

/-- Puts a finished file at a path. -/
def replace (s : Store) (path text : String) : Store × Except OsError Unit :=
  match s.placeBeside path with
  | .error e => (s, .error e)
  | .ok directory =>
      let temporary := directory ++ [s.temporaryName path]
      let finished := s.insert temporary (.file text)
      match finished.move temporary path with
      | .error e => (finished.remove temporary, .error e)
      | .ok s => (s, .ok ())

end Store
end Files
end HeaderBinding
