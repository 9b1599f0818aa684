import HeaderBinding.BindingModule
import HeaderBinding.CommandLine
import HeaderBinding.FrontEnd
import HeaderBinding.Settings.Layers
import HeaderBinding.Toml.Document

/-!
# Configurations

What an import is told to do. A configuration is read from settings, which come,
lowest first, from the defaults, the configuration files and the overrides. The
options of the command line stand above them all.
-/

namespace HeaderBinding

structure Configuration where
  header : String
  output : String
  givenName : Option String
  links : List String
  includes : List String
  defines : List String
  target : Option String
  program : String
  standard : String
  banner : Bool
  diagnostics : Option String
  unknown : SettingTable

namespace Configuration

/-!
# What follows from a configuration
-/

/-- The name of the module for a header: its file name without the extension, with
underscores for dashes. -/
def nameFor (header : String) : String :=
  match Files.fileName? header with
  | some fileName =>
      String.ofList ((Files.stem fileName).toList.map fun c => if c = '-' then '_' else c)
  | none => "module"

def moduleName (c : Configuration) : String :=
  c.givenName.getD (nameFor c.header)

def moduleHeader (c : Configuration) : ModuleHeader :=
  ⟨c.moduleName, c.links, if c.banner then some c.header else none⟩

def frontEnd (c : Configuration) : FrontEnd :=
  ⟨c.program, c.standard, c.target, c.includes, c.defines⟩

/-!
# The fields
-/

/-- The fields that settings are read into. -/
inductive Field where
  | header
  | output
  | givenName
  | links
  | includes
  | defines
  | target
  | program
  | standard
  | banner
  | diagnostics
  deriving DecidableEq, Repr

namespace Field

def all : List Field :=
  [ header, output, givenName, links, includes, defines, target, program, standard, banner,
    diagnostics ]

def key : Field → String
  | header => "header"
  | output => "output"
  | givenName => "module"
  | links => "links"
  | includes => "includes"
  | defines => "defines"
  | target => "target"
  | program => "clang"
  | standard => "std"
  | banner => "banner"
  | diagnostics => "diagnostics"

def kind : Field → ValueKind
  | header | output | program | standard => .text
  | givenName | target | diagnostics => .optionalText
  | links | includes | defines => .texts
  | banner => .flag

abbrev Value (f : Field) : Type :=
  f.kind.Value

def convert (f : Field) (v : Setting) : Except SettingsError f.Value :=
  f.kind.convert f.key v

def ofKey? (key : String) : Option Field :=
  all.find? fun f => f.key == key

end Field

def fields : List String :=
  Field.all.map Field.key

/-!
# From settings
-/

/-- What has been read of the fields. -/
def Draft : Type :=
  (f : Field) → Option f.Value

namespace Draft

def empty : Draft :=
  fun _ => none

def put (d : Draft) (f : Field) (a : f.Value) : Draft :=
  fun g => if h : f = g then some (h ▸ a) else d g

/-- Reads the field that a member of a table stands for, if it stands for any. -/
def take (d : Draft) (member : String × Setting) : Except SettingsError Draft :=
  match Field.ofKey? member.1 with
  | some f => (f.convert member.2).map (d.put f)
  | none => .ok d

/-- Reads members one after the other, up to the first that cannot be converted. -/
def ofMembers (members : SettingTable) : Except SettingsError Draft :=
  members.foldlM take empty

def require (d : Draft) (f : Field) : Except SettingsError f.Value :=
  match d f with
  | some a => .ok a
  | none => .error (.missing f.key)

/-- A configuration from what has been read. The first missing field is reported. -/
def toConfiguration (d : Draft) (unknown : SettingTable) :
    Except SettingsError Configuration := do
  return {
    header := ← d.require .header
    output := ← d.require .output
    givenName := (d .givenName).join
    links := (d .links).getD []
    includes := (d .includes).getD []
    defines := (d .defines).getD []
    target := (d .target).join
    program := ← d.require .program
    standard := ← d.require .standard
    banner := ← d.require .banner
    diagnostics := (d .diagnostics).join
    unknown := unknown }

end Draft

def unknownSettings (t : SettingTable) : SettingTable :=
  t.filter fun member => !fields.contains member.1

/-- The configuration that settings make, if their members are gone through in an order. A
member that cannot be converted is reported before a missing field. -/
def ofSettings (t : SettingTable) (order : Arrangement) : Except SettingsError Configuration := do
  let d ← Draft.ofMembers (order.apply t)
  d.toConfiguration (unknownSettings t)

/-!
# The layers
-/

def defaults : Layer :=
  [ (.ofName "clang", .text "clang"),
    (.ofName "std", .text FrontEnd.defaultStandard),
    (.ofName "banner", .flag true) ]

/-- What stands under a field while its path is kept beside the settings. -/
def placeholder : Setting :=
  .text " "

/-- The options that take the place of a setting, whatever it holds. Their paths stay out of
the settings. -/
def shadowing (line : CommandLine) : Layer :=
  (line.header.map fun _ => (KeyPath.ofName "header", placeholder)).toList ++
    (line.output.map fun _ => (KeyPath.ofName "output", placeholder)).toList

/-- Puts the options over a configuration. Those that may be repeated add to its lists. -/
def withOptions (c : Configuration) (line : CommandLine) : Configuration :=
  { c with
    header := line.header.getD c.header
    output := line.output.getD c.output
    includes := c.includes ++ line.includes
    defines := c.defines ++ line.defines
    links := c.links ++ line.links
    target := line.target.or c.target
    givenName := line.moduleName.or c.givenName }

/-- A configuration file that is there. -/
structure File where
  path : String
  text : String

def File.layer (f : File) : Except SettingsError Layer :=
  match Toml.read? f.text with
  | some t => .ok (.ofTable t)
  | none => .error (.badFile f.path)

/-- The configuration for a command line and the configuration files, the lowest one
first. The overrides are looked at before the files. -/
def ofSources (line : CommandLine) (files : List File) (order : Arrangement := .asSet) :
    Except SettingsError Configuration := do
  let overrides ← Layer.ofOverrides line.settings
  let layers ← files.mapM File.layer
  let c ← ofSettings (Layer.stack (defaults :: layers ++ [overrides, shadowing line])) order
  return c.withOptions line

/-!
# Where the configuration files are
-/

def fileName : String :=
  "c-import.toml"

/-- The directory for the configuration of a user, given the user's home and the
directory for all configurations, which counts if it is absolute. -/
def userDirectory (home configHome : Option String) : Option String :=
  match configHome.filter Files.isRooted with
  | some directory => some (Files.join directory "c-import")
  | none => home.map fun home => Files.join (Files.join home ".config") "c-import"

/-- The paths of the configuration files, the lowest one first. -/
def filePaths (directory : Option String) : List String :=
  (directory.map fun directory => Files.join directory fileName).toList ++ [fileName]

def filesIn (s : Files.Store) (directory : Option String) : List File :=
  (filePaths directory).filterMap fun path => (s.read? path).map fun text => ⟨path, text⟩

/-- The configuration for a command line among the files of a store. -/
def load (s : Files.Store) (line : CommandLine) (directory : Option String)
    (order : Arrangement := .asSet) : Except SettingsError Configuration :=
  ofSources line (filesIn s directory) order

end Configuration
end HeaderBinding
