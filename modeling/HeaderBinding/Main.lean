import HeaderBinding.Invocation

/-!
# The program

The outer layer: it looks up files, takes the dump that the front end has printed
from its standard input, and writes what the library says is to be written.
-/

namespace HeaderBinding
namespace Main

/-!
# Looking at files
-/

/-- Adds what stands at a real path, and the directories above it. -/
def addReal (s : Files.Store) (place : Files.Place) (isDirectory : Bool) : Files.Store :=
  let above := (List.range place.length).map fun n => place.take n
  let s := above.foldl (fun s p => if p = [] then s else s.insert p .directory) s
  if place = [] then s
  else s.insert place (if isDirectory then .directory else .file "")

/-- Looks at one name of a directory. A name that leads elsewhere is a link. -/
def lookAt (s : Files.Store) (place : Files.Place) :
    IO (Files.Store × Option Files.Place) := do
  try
    let real ← IO.FS.realPath (Files.pathOf true place)
    let target := Files.names real.toString
    let s := addReal s target (← real.isDir)
    let s := if target = place then s else s.insert place (.link real.toString)
    return (s, some target)
  catch _ => return (s, none)

/-- Looks at all that a path passes through. -/
def lookAlong (s : Files.Store) (place : Files.Place) : List String → IO Files.Store
  | [] => return s
  | step :: rest =>
      if step = "." then lookAlong s place rest
      else if step = ".." then lookAlong s place.dropLast rest
      else do
        match ← lookAt s (place ++ [step]) with
        | (s, some place) => lookAlong s place rest
        | (s, none) => return s

/-- The files that a tree names. -/
def filesOf (root : Dump.Node) : List String :=
  (root.walk.flatMap fun n =>
    match n.entity.location.bind Dump.Location.deciding with
    | some p => p.file :: p.includedFrom.toList
    | none => []).eraseDups

/-- A store of what the header and the files in its dump lead to. -/
def lookUp (paths : List String) : IO Files.Store := do
  let current := Files.names (← IO.currentDir).toString
  let start := addReal ⟨[], current⟩ current true
  paths.foldlM (fun s path => lookAlong s (s.origin path) (Files.steps path)) start

def filesPresent (paths : List String) : IO (List Configuration.File) := do
  let found ← paths.mapM fun (path : String) => do
    try return some ⟨path, ← IO.FS.readFile path⟩ catch _ => return none
  return found.filterMap id

def userDirectory : IO (Option String) := do
  return Configuration.userDirectory (← IO.getEnv "HOME") (← IO.getEnv "XDG_CONFIG_HOME")

/-!
# Writing
-/

def report (verbose : Bool) (events : List Event) : IO Unit :=
  for e in events do
    if verbose ∨ e.level ≠ .debug then IO.println e.line

def fail (message : String) : IO UInt32 := do
  IO.eprintln ("Error: " ++ message)
  return 1

/-- Makes a file in a directory under a name that is free there. -/
def createDraft (directory : String) : Nat → IO (String × IO.FS.Handle)
  | 0 => throw (IO.userError "no free name for a temporary file")
  | tries + 1 => do
      let path := Files.join directory (".tmp" ++ toString (← IO.rand 0 999999999))
      try return (path, ← IO.FS.Handle.mk path .writeNew)
      catch
        | .alreadyExists .. => createDraft directory tries
        | e => throw e

/-- Finishes a file beside its place and moves it there. If that fails it is taken away
again. -/
def replace (verbose : Bool) (path text : String) : IO Unit := do
  let (draft, handle) ← createDraft (Files.Store.besidePath path) 100
  try
    handle.putStr text
    handle.flush
    report verbose [.persisting draft path]
    IO.FS.rename draft path
  catch e =>
    IO.FS.removeFile draft
    throw e

/-- Makes the directory for an artifact and puts its text there. -/
def deliver (verbose : Bool) (a : Artifact) : IO Unit :=
  match a.inDirectory with
  | some directory => do
      IO.FS.createDirAll directory
      IO.FS.writeFile a.path a.text
  | none => do
      IO.FS.createDirAll (Files.Store.besidePath a.path)
      replace verbose a.path a.text

def deliverAll (c : Configuration) (verbose : Bool) (i : Import) : IO UInt32 := do
  try
    if let some (a, e) := i.recorded? c then
      report verbose [e]
      deliver verbose a
    deliver verbose (.ofModule c.output i.module)
    report verbose [.wrote c.output i.module.name]
    return 0
  catch e => fail ("failed to write: " ++ toString e)

/-!
# Running
-/

def readAll (stream : IO.FS.Stream) : IO (List UInt8) := do
  let mut bytes := ByteArray.empty
  repeat
    let more ← stream.read 65536
    if more.isEmpty then break
    bytes := bytes ++ more
  return bytes.toList

def run (c : Configuration) (verbose : Bool) : IO UInt32 := do
  let outcome := FrontEnd.Outcome.dumped (← readAll (← IO.getStdin))
  let paths :=
    match outcome.tree c.program c.header with
    | .ok root => c.header :: filesOf root
    | .error _ => [c.header]
  let (events, result) := c.importOutcome (← lookUp paths) outcome
  report verbose events
  match result with
  | .error e => fail e.message
  | .ok i => deliverAll c verbose i

def start (line : CommandLine) : IO UInt32 := do
  let directory ← userDirectory
  if line.printsConfigPath then
    IO.print (Invocation.configPathText directory)
    return 0
  let files ← filesPresent (Configuration.filePaths directory)
  match Configuration.ofSources line files with
  | .error e => fail (ImportError.settings e).message
  | .ok c => do
      report line.verbose c.unknownKeyEvents
      run c line.verbose

end Main
end HeaderBinding

open HeaderBinding in
def main (words : List String) : IO UInt32 := do
  match CommandLine.ofWords words with
  | .ok line => Main.start line
  | .error .helpWanted => do
      IO.println UsageError.helpWanted.message
      return 0
  | .error e => do
      IO.eprintln ("error: " ++ e.message)
      return 2
