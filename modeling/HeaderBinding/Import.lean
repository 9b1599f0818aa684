import HeaderBinding.Configuration
import HeaderBinding.Diagnostics
import HeaderBinding.Dump.Reader
import HeaderBinding.Files.Change
import HeaderBinding.ImportError

/-!
# Imports

From the dump of a header to its binding module, and from there to the files that
are left. Nothing is written before all else has succeeded.
-/

namespace HeaderBinding

open Dump

/-- What a header comes to. -/
structure Import where
  declarations : Declarations
  module : BindingModule
  deriving DecidableEq

namespace HeaderScope

/-- The binding module of a tree. -/
def importTree (scope : HeaderScope) (h : ModuleHeader) (root : Node) :
    Except ExtractionError Import :=
  (scope.extract root).map fun d => ⟨d, .render h d⟩

end HeaderScope

namespace FrontEnd
namespace Outcome

/-- The tree that a call of the front end has printed. -/
def tree (o : Outcome) (program header : String) : Except ImportError Node :=
  match o with
  | .notStarted e => .error (.notStarted program e)
  | .failed status report => .error (.frontEndFailed program header status report)
  | .dumped text =>
      match Node.ofText text with
      | .ok root => .ok root
      | .error fault => .error (.badDump header fault)

end Outcome
end FrontEnd

/-!
# Before anything is written
-/

namespace Configuration

def scope (c : Configuration) (s : Files.Store) : HeaderScope :=
  ⟨s, c.header⟩

/-- What is reported from the start of the front end to the end of the extraction. -/
def treeEvents (c : Configuration) (s : Files.Store) : Except ImportError Node → List Event
  | .error _ => [.running (c.frontEnd.command c.header)]
  | .ok root =>
      [ .running (c.frontEnd.command c.header), .parsed c.header root.children.length,
        .extracting c.header ] ++ (c.scope s).extractionEvents root

/-- The import of a header, given how the call of the front end ended. -/
def importOutcome (c : Configuration) (s : Files.Store) (o : FrontEnd.Outcome) :
    List Event × Except ImportError Import :=
  if c.header = "" then ([], .error .missingHeader)
  else
    let tree := o.tree c.program c.header
    let result := tree.bind fun root =>
      ((c.scope s).importTree c.moduleHeader root).mapError .refused
    (c.treeEvents s tree, result)

end Configuration

/-!
# Artifacts

An artifact is a text that an import leaves in a file. The record of the declarations
goes into a directory of its own, the module to the output.
-/

structure Artifact where
  path : String
  text : String
  inDirectory : Option String
  deriving DecidableEq, Repr

namespace Artifact

def ofDeclarations (directory : String) (d : Declarations) : Artifact where
  path := Files.join directory (Declarations.artifactName ++ ".json")
  text := d.diagnostics
  inDirectory := some directory

def ofModule (output : String) (m : BindingModule) : Artifact where
  path := output
  text := m.text
  inDirectory := none

/-- Makes the directory for an artifact. -/
def prepare (a : Artifact) (s : Files.Store) : Files.Store × Except Files.OsError Unit :=
  match a.inDirectory with
  | some directory => s.ensureDirectory directory
  | none => s.ensureParent a.path

/-- Puts the text of an artifact into its file. Only the module replaces a file as
a whole. -/
def put (a : Artifact) (s : Files.Store) : Files.Store × Except Files.OsError Unit :=
  match a.inDirectory with
  | some _ => s.write a.path a.text
  | none => s.replace a.path a.text

/-- What is reported while the text of an artifact is put into its file. -/
def putEvents (a : Artifact) (s : Files.Store) : List Event :=
  match a.inDirectory with
  | some _ => []
  | none => (s.temporaryPath? a.path).toList.map fun temporary => .persisting temporary a.path

def deliver (a : Artifact) (s : Files.Store) :
    Files.Store × List Event × Except ImportError Unit :=
  match a.prepare s with
  | (s, .error e) => (s, [], .error (.notWritten a.path e))
  | (s, .ok ()) =>
      match a.put s with
      | (t, .error e) => (t, a.putEvents s, .error (.notWritten a.path e))
      | (t, .ok ()) => (t, a.putEvents s, .ok ())

end Artifact

/-!
# Whole runs
-/

/-- What a run leaves, reports and comes to. -/
structure Run where
  store : Files.Store
  log : List Event
  result : Except ImportError BindingModule

/-- The log without the reports on names that are made up anew on every run. -/
def Run.events (r : Run) : List Event :=
  r.log.filter Event.isReproducible

namespace Import

/-- The record of the declarations, if it is wanted, with the report on it. -/
def recorded? (i : Import) (c : Configuration) : Option (Artifact × Event) :=
  c.diagnostics.map fun directory =>
    let a := Artifact.ofDeclarations directory i.declarations
    (a, .writingDiagnostics i.declarations.summary a.path)

/-- Delivers the record. -/
def deliverRecord (i : Import) (c : Configuration) (s : Files.Store) :
    Files.Store × List Event × Except ImportError Unit :=
  match i.recorded? c with
  | none => (s, [], .ok ())
  | some (a, report) =>
      let (s, events, result) := a.deliver s
      (s, report :: events, result)

/-- Delivers the record and then the module. -/
def deliver (i : Import) (c : Configuration) (s : Files.Store) : Run :=
  match i.deliverRecord c s with
  | (s, events, .error e) => ⟨s, events, .error e⟩
  | (s, events, .ok ()) =>
      match (Artifact.ofModule c.output i.module).deliver s with
      | (s, events', .error e) => ⟨s, events ++ events', .error e⟩
      | (s, events', .ok ()) =>
          ⟨s, events ++ events' ++ [.wrote c.output i.module.name], .ok i.module⟩

end Import

namespace Configuration

/-- The rest of a run, given how the call of the front end ended. -/
def runAfter (c : Configuration) (s : Files.Store) (o : FrontEnd.Outcome) : Run :=
  match c.importOutcome s o with
  | (events, .error e) => ⟨s, events, .error e⟩
  | (events, .ok i) =>
      let delivered := i.deliver c s
      { delivered with log := events ++ delivered.log }

/-- Runs an import among the files of a store, some of which are programs. -/
def run (c : Configuration) (s : Files.Store)
    (programs : Files.Place → Option FrontEnd.Outcome) : Run :=
  c.runAfter s (s.start programs c.program)

/-- The reports on settings that mean nothing, in the order of their keys. -/
def unknownKeyEvents (c : Configuration) : List Event :=
  Event.unknownKeys "" c.unknown.keys

end Configuration
end HeaderBinding
