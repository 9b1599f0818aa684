import HeaderBinding.Proofs.Configuration.Draft
import HeaderBinding.Proofs.Toml.Keys

/-!
# Which source decides a field

Each field of a configuration is decided by the highest source that gives something
for its key: the options of the command line, the overrides, the configuration files
and the defaults. Lists are taken from one source as a whole, and what the command
line adds to them comes behind.
-/

namespace HeaderBinding
namespace Configuration

/-!
# The sources as tables
-/

/-- A table of one text, if there is one. -/
def textUnder (key : String) (text : Option String) : SettingTable :=
  (text.map fun text => (key, Setting.text text)).toList

/-- What the options set among the settings. -/
def shadowTable (line : CommandLine) : SettingTable :=
  textUnder "header" (line.header.map fun _ => " ") ++
    textUnder "output" (line.output.map fun _ => " ")

/-- The options that decide a field alone. -/
def lineTable (line : CommandLine) : SettingTable :=
  textUnder "header" line.header ++ textUnder "output" line.output ++
    textUnder "module" line.moduleName ++ textUnder "target" line.target

def overrideName (argument : String) : String :=
  String.ofList (argument.toList.takeWhile (· ≠ '='))

def overrideValue (argument : String) : String :=
  String.ofList (argument.toList.dropWhile (· ≠ '=')).tail

def overrideMember (argument : String) : String × Setting :=
  (overrideName argument, .text (overrideValue argument))

/-- The overrides, the last one first. -/
def overrideTable (line : CommandLine) : SettingTable :=
  (line.settings.map overrideMember).reverse

def File.table (f : File) : SettingTable :=
  (Toml.read? f.text).getD []

/-- What a configuration file holds. One that is not there holds nothing. -/
def fileTable (s : Files.Store) (path : String) : SettingTable :=
  ((s.read? path).bind Toml.read?).getD []

def defaultTable : SettingTable :=
  [("clang", .text "clang"), ("std", .text FrontEnd.defaultStandard), ("banner", .flag true)]

/-- The sources below the options, the highest one first. -/
def lowerSources (s : Files.Store) (line : CommandLine) (directory : Option String) :
    List SettingTable :=
  overrideTable line :: (filePaths directory).reverse.map (fileTable s) ++ [defaultTable]

/-- The sources of a configuration, the highest one first. -/
def sources (s : Files.Store) (line : CommandLine) (directory : Option String) :
    List SettingTable :=
  lineTable line :: lowerSources s line directory

/-- What the first source that gives something for a key gives for it. -/
def given? (tables : List SettingTable) (key : String) : Option Setting :=
  tables.findSome? fun t => t.get? key

/-- A configuration whose fields are what is given for their keys, converted. Without
anything given an optional field is left out, and a list has only what the command
line adds to it. -/
structure Follows (c : Configuration) (line : CommandLine) (given : String → Option Setting) :
    Prop where
  header : ∃ v, given "header" = some v ∧ v.toText "header" = .ok c.header
  output : ∃ v, given "output" = some v ∧ v.toText "output" = .ok c.output
  givenName : (given "module").elim (.ok none) (Setting.toOptionalText "module") = .ok c.givenName
  target : (given "target").elim (.ok none) (Setting.toOptionalText "target") = .ok c.target
  program : ∃ v, given "clang" = some v ∧ v.toText "clang" = .ok c.program
  standard : ∃ v, given "std" = some v ∧ v.toText "std" = .ok c.standard
  banner : ∃ v, given "banner" = some v ∧ v.toFlag "banner" = .ok c.banner
  diagnostics :
    (given "diagnostics").elim (.ok none) (Setting.toOptionalText "diagnostics") = .ok c.diagnostics
  links : ∃ items,
    (given "links").elim (.ok []) (Setting.toTexts "links") = .ok items ∧
      c.links = items ++ line.links
  includes : ∃ items,
    (given "includes").elim (.ok []) (Setting.toTexts "includes") = .ok items ∧
      c.includes = items ++ line.includes
  defines : ∃ items,
    (given "defines").elim (.ok []) (Setting.toTexts "defines") = .ok items ∧
      c.defines = items ++ line.defines

/-!
# The layers of the sources
-/

theorem shadowing_eq_layer (line : CommandLine) :
    shadowing line = (shadowTable line).layer := by
  unfold shadowing shadowTable textUnder
  cases line.header <;> cases line.output <;> rfl

theorem layer_of_override {argument : String} {entry : KeyPath × Setting}
    (plain : KeyPath.IsPlain (overrideName argument))
    (h : Layer.override argument = .ok entry) :
    entry = (.ofName (overrideName argument), .text (overrideValue argument)) := by
  unfold Layer.override at h
  split at h
  · cases h
  · next value hv =>
      have path := KeyPath.ofText?_of_isPlain plain
      unfold overrideName at path
      simp only [path, Except.ok.injEq] at h
      rw [← h, overrideName, overrideValue, hv, List.tail_cons]

theorem layer_of_overrides {line : CommandLine} {layer : Layer}
    (plain : ∀ argument ∈ line.settings, KeyPath.IsPlain (overrideName argument))
    (h : Layer.ofOverrides line.settings = .ok layer) :
    layer = (SettingTable.layer (overrideTable line).reverse) := by
  have each := eq_map_of_mapM line.settings
    (fun argument ha entry => layer_of_override (plain argument ha)) h
  rw [each, overrideTable, List.reverse_reverse, SettingTable.layer, List.map_map]
  rfl

theorem layers_of_files (files : List File) {layers : List Layer}
    (plain : ∀ f ∈ files, ∀ key ∈ f.table.keys, KeyPath.IsPlain key)
    (h : files.mapM File.layer = .ok layers) :
    layers = files.map fun f => f.table.layer := by
  refine eq_map_of_mapM files (fun f hf layer hl => ?_) h
  have hplain := plain f hf
  unfold File.layer at hl
  unfold File.table at hplain ⊢
  cases hr : Toml.read? f.text with
  | none =>
      rw [hr] at hl
      cases hl
  | some t =>
      rw [hr] at hl hplain
      cases hl
      exact SettingTable.ofTable_eq_layer hplain

/-!
# What the settings hold
-/

theorem table_of_mem_filesIn {s : Files.Store} {directory : Option String} {f : File}
    (h : f ∈ filesIn s directory) :
    f.path ∈ filePaths directory ∧ f.table = fileTable s f.path := by
  rcases List.mem_filterMap.mp h with ⟨path, hp, hf⟩
  rcases Option.map_eq_some_iff.mp hf with ⟨text, ht, rfl⟩
  refine ⟨hp, ?_⟩
  rw [File.table, fileTable, ht, Option.bind_some]

/-- A file that is not there is an empty table to whatever is collected from the files. -/
theorem flatMap_filesIn (s : Files.Store) (directory : Option String)
    {f : SettingTable → List α} (hf : f [] = []) :
    ((filesIn s directory).map File.table).flatMap f =
      ((filePaths directory).map (fileTable s)).flatMap f := by
  unfold filesIn
  induction filePaths directory with
  | nil =>
      rfl
  | cons path paths ih =>
      rw [List.map_cons, List.flatMap_cons, ← ih, List.filterMap_cons]
      cases hr : s.read? path with
      | none =>
          have nothing : f (fileTable s path) = [] := by
            rw [fileTable, hr]
            exact hf
          rw [nothing]
          rfl
      | some text =>
          have held : fileTable s path = File.table ⟨path, text⟩ := by
            rw [fileTable, hr]
            rfl
          rw [held]
          rfl

/-- A file that is not there adds nothing under any key. -/
theorem under_filesIn (s : Files.Store) (directory : Option String) (key : String) :
    (((filesIn s directory).map File.table).flatMap fun t => t.under key) =
      ((filePaths directory).map (fileTable s)).flatMap fun t => t.under key :=
  flatMap_filesIn s directory rfl

theorem nodup_fileTable (s : Files.Store) (path : String) : (fileTable s path).keys.Nodup := by
  unfold fileTable
  cases hr : (s.read? path).bind Toml.read? with
  | none =>
      exact List.nodup_nil
  | some t =>
      rcases Option.bind_eq_some_iff.mp hr with ⟨text, -, ht⟩
      exact Toml.nodup_keys_of_read? ht

theorem nodup_shadowTable (line : CommandLine) : (shadowTable line).keys.Nodup := by
  unfold shadowTable textUnder
  cases line.header <;> cases line.output <;> simp [SettingTable.keys]

/-- The sources that become layers, the lowest one first. -/
def layered (s : Files.Store) (line : CommandLine) (directory : Option String) :
    List SettingTable :=
  defaultTable :: (filePaths directory).map (fileTable s) ++
    [(overrideTable line).reverse, shadowTable line]

/-- The last of what the layers hold under a key is what the highest of their sources
gives. -/
theorem getLast?_layered (s : Files.Store) (line : CommandLine) (directory : Option String)
    (key : String) :
    ((layered s line directory).flatMap fun t => t.under key).getLast? =
      given? (shadowTable line :: lowerSources s line directory) key := by
  have shadows := SettingTable.getLast?_under_of_nodup (nodup_shadowTable line) key
  have overrides := SettingTable.getLast?_under (overrideTable line).reverse key
  have files (path : String) :=
    SettingTable.getLast?_under_of_nodup (nodup_fileTable s path) key
  have inner := SettingTable.getLast?_under_of_nodup (t := defaultTable) (by decide) key
  rw [List.reverse_reverse] at overrides
  rw [List.getLast?_flatMap, given?, layered, lowerSources]
  simp only [List.reverse_append, List.reverse_cons, List.reverse_nil, List.nil_append,
    List.cons_append, List.findSome?_cons, List.findSome?_append, List.findSome?_map,
    List.findSome?_nil, ← List.map_reverse, Function.comp_def, shadows, overrides, files, inner]

/-!
# From settings to fields
-/

/-- Settings that hold what is given under each key, except for tables. -/
structure Agrees (t : SettingTable) (given : String → Option Setting) : Prop where
  absent : ∀ key, t.get? key = none → given key = none
  held : ∀ key v, t.get? key = some v → v.isTable = false → given key = some v

theorem layers_eq_map_layer {s : Files.Store} {line : CommandLine} {directory : Option String}
    {layers : List Layer} {overrides : Layer}
    (filesPlain : ∀ path ∈ filePaths directory, ∀ key ∈ (fileTable s path).keys,
      KeyPath.IsPlain key)
    (linePlain : ∀ argument ∈ line.settings, KeyPath.IsPlain (overrideName argument))
    (hl : (filesIn s directory).mapM File.layer = .ok layers)
    (ho : Layer.ofOverrides line.settings = .ok overrides) :
    defaults :: layers ++ [overrides, shadowing line] =
      (defaultTable :: (filesIn s directory).map File.table ++
        [(overrideTable line).reverse, shadowTable line]).map SettingTable.layer := by
  have plain : ∀ f ∈ filesIn s directory, ∀ key ∈ f.table.keys, KeyPath.IsPlain key := by
    intro f hf key hk
    rcases table_of_mem_filesIn hf with ⟨hp, ht⟩
    exact filesPlain f.path hp key (ht ▸ hk)
  rw [layers_of_files _ plain hl, layer_of_overrides linePlain ho, shadowing_eq_layer]
  simp only [List.map_append, List.map_cons, List.map_map, List.map_nil]
  rfl

theorem agrees_stack {s : Files.Store} {line : CommandLine} {directory : Option String}
    {layers : List Layer} {overrides : Layer}
    (filesPlain : ∀ path ∈ filePaths directory, ∀ key ∈ (fileTable s path).keys,
      KeyPath.IsPlain key)
    (linePlain : ∀ argument ∈ line.settings, KeyPath.IsPlain (overrideName argument))
    (hl : (filesIn s directory).mapM File.layer = .ok layers)
    (ho : Layer.ofOverrides line.settings = .ok overrides) :
    Agrees (Layer.stack (defaults :: layers ++ [overrides, shadowing line]))
      (given? (shadowTable line :: lowerSources s line directory)) := by
  have values (key : String) :
      (Layer.stack (defaults :: layers ++ [overrides, shadowing line])).get? key =
        ((layered s line directory).flatMap fun t => t.under key).foldl Setting.put none := by
    rw [layers_eq_map_layer filesPlain linePlain hl ho, SettingTable.get?_stack, layered]
    simp only [List.cons_append, List.flatMap_cons, List.flatMap_append, under_filesIn]
  constructor
  · intro key h
    rw [values] at h
    rw [← getLast?_layered, Setting.foldl_put_eq_none _ h]
    rfl
  · intro key v h hv
    rw [values] at h
    rw [← getLast?_layered, Setting.getLast?_of_foldl_put hv h]

/-- No conversion takes a table. -/
theorem isTable_of_convert {kind : ValueKind} {key : String} {v : Setting} {a : kind.Value}
    (h : kind.convert key v = .ok a) : v.isTable = false := by
  cases v with
  | table members =>
      cases kind <;> cases h
  | _ =>
      rfl

section

variable {t : SettingTable} {given : String → Option Setting} {f : Field}

theorem given_of_read (agrees : Agrees t given) {held : Option f.Value}
    (h : f.read t = .ok held) :
    given f.key = none ∧ held = none ∨
      ∃ v a, given f.key = some v ∧ f.convert v = .ok a ∧ held = some a := by
  unfold Field.read at h
  cases ht : t.get? f.key with
  | none =>
      rw [ht] at h
      cases h
      exact .inl ⟨agrees.absent f.key ht, rfl⟩
  | some v =>
      rw [ht] at h
      rcases map_eq_ok h with ⟨a, hc, hr⟩
      exact .inr ⟨v, a, agrees.held f.key v ht (isTable_of_convert hc), hc, hr.symm⟩

variable {d : Draft} (agrees : Agrees t given) (reads : ∀ f : Field, f.read t = .ok (d f))

include agrees reads

theorem given_of_require {a : f.Value} (h : d.require f = .ok a) :
    ∃ v, given f.key = some v ∧ f.convert v = .ok a := by
  unfold Draft.require at h
  rcases given_of_read agrees (reads f) with ⟨-, hd⟩ | ⟨v, b, hv, hb, hd⟩
  · rw [hd] at h
    cases h
  · rw [hd] at h
    cases h
    exact ⟨v, hv, hb⟩

theorem elim_given (f : Field) (absent : f.Value) :
    (given f.key).elim (.ok absent) f.convert = .ok ((d f).getD absent) := by
  rcases given_of_read agrees (reads f) with ⟨hv, hd⟩ | ⟨v, b, hv, hb, hd⟩
  · rw [hv, hd]
    rfl
  · rw [hv, hd]
    exact hb

theorem follows_toConfiguration {unknown : SettingTable} {c : Configuration}
    (h : d.toConfiguration unknown = .ok c) : c.Follows .empty given := by
  unfold Draft.toConfiguration at h
  rcases bind_eq_ok h with ⟨header, header_is, h⟩
  rcases bind_eq_ok h with ⟨output, output_is, h⟩
  rcases bind_eq_ok h with ⟨program, program_is, h⟩
  rcases bind_eq_ok h with ⟨standard, standard_is, h⟩
  rcases bind_eq_ok h with ⟨banner, banner_is, h⟩
  cases h
  have joined (name : Option (Option String)) : name.join = name.getD none := by
    cases name <;> rfl
  constructor
  · exact given_of_require agrees reads header_is
  · exact given_of_require agrees reads output_is
  · exact joined (d .givenName) ▸ elim_given agrees reads .givenName none
  · exact joined (d .target) ▸ elim_given agrees reads .target none
  · exact given_of_require agrees reads program_is
  · exact given_of_require agrees reads standard_is
  · exact given_of_require agrees reads banner_is
  · exact joined (d .diagnostics) ▸ elim_given agrees reads .diagnostics none
  · exact ⟨_, elim_given agrees reads .links [], (List.append_nil _).symm⟩
  · exact ⟨_, elim_given agrees reads .includes [], (List.append_nil _).symm⟩
  · exact ⟨_, elim_given agrees reads .defines [], (List.append_nil _).symm⟩

end

theorem follows_ofSettings {t : SettingTable} {given : String → Option Setting}
    {order : Arrangement} {c : Configuration} (hkeys : t.keys.Nodup) (agrees : Agrees t given)
    (h : ofSettings t order = .ok c) : c.Follows .empty given := by
  rcases (ofSettings_eq_ok_iff hkeys).mp h with ⟨d, reads, hc⟩
  exact follows_toConfiguration agrees reads hc

/-!
# The options
-/

@[simp]
theorem get?_append (t u : SettingTable) (key : String) :
    SettingTable.get? (t ++ u) key = (t.get? key).or (u.get? key) :=
  List.lookup_append

@[simp]
theorem get?_textUnder (key other : String) (text : Option String) :
    (textUnder key text).get? other = if other = key then text.map .text else none := by
  cases text with
  | none =>
      simp [textUnder]
  | some text =>
      simp [textUnder]

@[simp]
theorem given?_cons (t : SettingTable) (tables : List SettingTable) (key : String) :
    given? (t :: tables) key = (t.get? key).or (given? tables key) := by
  rw [given?, List.findSome?_cons]
  cases t.get? key <;> rfl

variable (line : CommandLine) (lower : List SettingTable)

/-- The options decide no other keys. -/
theorem given?_lineTable_of_not_mem {key : String}
    (h : key ∉ ["header", "output", "module", "target"]) :
    given? (lineTable line :: lower) key = given? (shadowTable line :: lower) key := by
  simp only [List.mem_cons, List.not_mem_nil, or_false, not_or] at h
  rcases h with ⟨hheader, houtput, hmodule, htarget⟩
  simp [lineTable, shadowTable, hheader, houtput, hmodule, htarget]

theorem given?_header : given? (lineTable line :: lower) "header" =
    (line.header.map .text).or (given? lower "header") := by
  simp [lineTable]

theorem given?_output : given? (lineTable line :: lower) "output" =
    (line.output.map .text).or (given? lower "output") := by
  simp [lineTable]

theorem given?_module : given? (lineTable line :: lower) "module" =
    (line.moduleName.map .text).or (given? (shadowTable line :: lower) "module") := by
  simp [lineTable, shadowTable]

theorem given?_target : given? (lineTable line :: lower) "target" =
    (line.target.map .text).or (given? (shadowTable line :: lower) "target") := by
  simp [lineTable, shadowTable]

theorem given?_shadowed_header : given? (shadowTable line :: lower) "header" =
    (line.header.map fun _ => placeholder).or (given? lower "header") := by
  simp [shadowTable, placeholder, Function.comp_def]

theorem given?_shadowed_output : given? (shadowTable line :: lower) "output" =
    (line.output.map fun _ => placeholder).or (given? lower "output") := by
  simp [shadowTable, placeholder, Function.comp_def]

/-- A path that is kept beside the settings takes the place of what stands for it there. -/
theorem path_over_placeholder {key text : String} {option : Option String}
    {given : Option Setting}
    (h : ∃ v, (option.map fun _ => placeholder).or given = some v ∧ v.toText key = .ok text) :
    ∃ v, (option.map Setting.text).or given = some v ∧
      v.toText key = .ok (option.getD text) := by
  cases option with
  | none =>
      exact h
  | some path =>
      exact ⟨.text path, rfl, rfl⟩

/-- An optional text over which an option is put. -/
theorem elim_or_option {key : String} {option text : Option String} {given : Option Setting}
    (h : given.elim (.ok none) (Setting.toOptionalText key) = .ok text) :
    ((option.map Setting.text).or given).elim (.ok none) (Setting.toOptionalText key) =
      .ok (option.or text) := by
  cases option with
  | none =>
      exact h
  | some name =>
      rfl

theorem follows_withOptions {c : Configuration}
    (h : c.Follows .empty (given? (shadowTable line :: lower))) :
    (c.withOptions line).Follows line (given? (lineTable line :: lower)) := by
  have same (key : String) (differs : key ∉ ["header", "output", "module", "target"]) :=
    given?_lineTable_of_not_mem line lower differs
  have added {given : Option Setting} {key : String} {items : List String}
      (more : List String)
      (h : ∃ taken, given.elim (.ok []) (Setting.toTexts key) = .ok taken ∧
        items = taken ++ []) :
      ∃ taken, given.elim (.ok []) (Setting.toTexts key) = .ok taken ∧
        items ++ more = taken ++ more := by
    rcases h with ⟨taken, ht, rfl⟩
    exact ⟨taken, ht, by rw [List.append_nil]⟩
  have header := h.header
  have output := h.output
  rw [given?_shadowed_header] at header
  rw [given?_shadowed_output] at output
  constructor
  · exact given?_header line lower ▸ path_over_placeholder header
  · exact given?_output line lower ▸ path_over_placeholder output
  · exact given?_module line lower ▸ elim_or_option h.givenName
  · exact given?_target line lower ▸ elim_or_option h.target
  · exact same "clang" (by decide) ▸ h.program
  · exact same "std" (by decide) ▸ h.standard
  · exact same "banner" (by decide) ▸ h.banner
  · exact same "diagnostics" (by decide) ▸ h.diagnostics
  · exact same "links" (by decide) ▸ added line.links h.links
  · exact same "includes" (by decide) ▸ added line.includes h.includes
  · exact same "defines" (by decide) ▸ added line.defines h.defines

/-- **Precedence.** Where all names are plain, each field of a configuration that is
loaded is what the highest source that gives something for its key gives for it. -/
theorem load_follows {s : Files.Store} {line : CommandLine} {directory : Option String}
    {order : Arrangement} {c : Configuration}
    (filesPlain : ∀ path ∈ filePaths directory, ∀ key ∈ (fileTable s path).keys,
      KeyPath.IsPlain key)
    (linePlain : ∀ argument ∈ line.settings, KeyPath.IsPlain (overrideName argument))
    (h : load s line directory order = .ok c) :
    c.Follows line (given? (sources s line directory)) := by
  unfold load ofSources at h
  rcases bind_eq_ok h with ⟨overrides, ho, h⟩
  rcases bind_eq_ok h with ⟨layers, hl, h⟩
  rcases bind_eq_ok h with ⟨settled, hc, h⟩
  cases h
  have agrees := agrees_stack filesPlain linePlain hl ho
  have settings := follows_ofSettings (SettingTable.nodup_keys_stack _) agrees hc
  exact follows_withOptions line _ settings

/-- A setting in all layers, a list below the command line, and a name from the
local file. -/
theorem load_follows_layered :
    let s : Files.Store :=
      ⟨[(["c-import.toml"], .file "std = 'c17'\nmodule = 'near'\n"),
        (["u", "c-import.toml"], .file "std = 'c99'\nlinks = ['m']\nbanner = 0\n"),
        (["u"], .directory)], []⟩
    let line : CommandLine :=
      { CommandLine.empty with
        settings := ["std=c90", "std=gnu11"], links := ["z"], header := some "a.h",
        output := some "o" }
    ∃ c, load s line (some "/u") = .ok c ∧
      c.Follows line (given? (sources s line (some "/u"))) ∧
      c.standard = "gnu11" ∧ c.givenName = some "near" ∧ c.links = ["m", "z"] ∧
      c.banner = false := by
  intro s line
  have filesPlain : ∀ path ∈ filePaths (some "/u"), ∀ key ∈ (fileTable s path).keys,
      KeyPath.IsPlain key := by
    decide +kernel
  have linePlain : ∀ argument ∈ line.settings, KeyPath.IsPlain (overrideName argument) := by
    decide +kernel
  have values : (load s line (some "/u")).map
      (fun c => (c.standard, c.givenName, c.links, c.banner)) =
        .ok ("gnu11", some "near", ["m", "z"], false) := by
    decide +kernel
  rcases map_eq_ok values with ⟨c, h, hv⟩
  simp only [Prod.mk.injEq] at hv
  exact ⟨c, h, load_follows filesPlain linePlain h, hv⟩

end Configuration
end HeaderBinding
