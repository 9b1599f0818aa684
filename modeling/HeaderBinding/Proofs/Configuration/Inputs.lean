import HeaderBinding.Proofs.Configuration.Precedence

/-!
# What a configuration is read from

The files, the overrides and what stands for the paths on the command line come to one list
of entries, and a configuration is read from what these amount to.
-/

namespace HeaderBinding
namespace Configuration

/-- All that a configuration is read from. -/
structure Inputs where
  files : Files.Store
  directory : Option String
  line : CommandLine

namespace Inputs

def load (i : Inputs) (order : Arrangement) : Except SettingsError Configuration :=
  Configuration.load i.files i.line i.directory order

/-- What the user's configuration file holds. -/
def userTable (i : Inputs) : SettingTable :=
  i.directory.elim [] fun directory => fileTable i.files (Files.join directory fileName)

/-- What the configuration file in the current directory holds. -/
def localTable (i : Inputs) : SettingTable :=
  fileTable i.files fileName

/-- The layers below the options, the lowest one first. -/
def layers (i : Inputs) : List SettingTable :=
  [defaultTable, i.userTable, i.localTable, i.line.settings.map overrideMember]

/-- All that is set, the first one first. -/
def entries (i : Inputs) : SettingTable :=
  i.layers.flatten ++ shadowTable i.line

/-- Inputs that set nothing below a key at the top. -/
structure IsPlain (i : Inputs) : Prop where
  files : ∀ path ∈ filePaths i.directory, ∀ key ∈ (fileTable i.files path).keys,
    KeyPath.IsPlain key
  overrides : ∀ argument ∈ i.line.settings, KeyPath.IsPlain (overrideName argument)

/-- Inputs of which the files can be read, and the overrides too. -/
structure IsReadable (i : Inputs) : Prop where
  files : ∀ path ∈ filePaths i.directory, ∀ text ∈ i.files.read? path, (Toml.read? text).isSome
  overrides : ∀ argument ∈ i.line.settings, '=' ∈ argument.toList

/-!
# From inputs to settings
-/

theorem flatten_files (i : Inputs) :
    ((filesIn i.files i.directory).map File.table).flatten = i.userTable ++ i.localTable := by
  have hfiles := flatMap_filesIn i.files i.directory (f := fun t => t) rfl
  rw [List.flatMap_id', List.flatMap_id'] at hfiles
  rw [hfiles, filePaths]
  unfold userTable localTable
  cases i.directory with
  | none =>
      exact List.append_nil _
  | some directory =>
      exact congrArg _ (List.append_nil _)

theorem stack_eq_merged {i : Inputs} {layers : List Layer} {overrides : Layer}
    (hplain : i.IsPlain) (hlayers : (filesIn i.files i.directory).mapM File.layer = .ok layers)
    (hoverrides : Layer.ofOverrides i.line.settings = .ok overrides) :
    Layer.stack (defaults :: layers ++ [overrides, shadowing i.line]) = i.entries.merged := by
  rw [layers_eq_map_layer hplain.files hplain.overrides hlayers hoverrides,
    SettingTable.stack_map_layer, overrideTable, List.reverse_reverse, List.flatten_append,
    List.flatten_cons, flatten_files]
  unfold entries Inputs.layers
  simp only [List.flatten_cons, List.flatten_nil, List.append_nil, List.append_assoc]

theorem exists_settings_of_load {i : Inputs} {order : Arrangement} {c : Configuration}
    (hplain : i.IsPlain) (h : i.load order = .ok c) :
    ∃ settled, ofSettings i.entries.merged order = .ok settled ∧
      c = settled.withOptions i.line := by
  unfold load Configuration.load ofSources at h
  rcases bind_eq_ok h with ⟨overrides, hoverrides, h⟩
  rcases bind_eq_ok h with ⟨layers, hlayers, h⟩
  rcases bind_eq_ok h with ⟨settled, hsettled, h⟩
  cases h
  rw [stack_eq_merged hplain hlayers hoverrides] at hsettled
  exact ⟨settled, hsettled, rfl⟩

theorem exists_overrides {i : Inputs} (hplain : i.IsPlain) (hreadable : i.IsReadable) :
    ∃ overrides, Layer.ofOverrides i.line.settings = .ok overrides := by
  refine exists_mapM_ok _ fun argument hargument => ?_
  have hpath := KeyPath.ofText?_of_isPlain (hplain.overrides argument hargument)
  unfold overrideName at hpath
  unfold Layer.override
  split
  next hnone =>
    have hall := List.dropWhile_eq_nil_iff.mp hnone '=' (hreadable.overrides argument hargument)
    exact absurd hall (by decide)
  next value _ =>
    simp only [hpath]
    exact ⟨_, rfl⟩

theorem exists_layers {i : Inputs} (hreadable : i.IsReadable) :
    ∃ layers, (filesIn i.files i.directory).mapM File.layer = .ok layers := by
  refine exists_mapM_ok _ fun f hf => ?_
  rcases List.mem_filterMap.mp hf with ⟨path, hpath, hread⟩
  rcases Option.map_eq_some_iff.mp hread with ⟨text, htext, rfl⟩
  rcases Option.isSome_iff_exists.mp (hreadable.files path hpath text htext) with ⟨t, ht⟩
  unfold File.layer
  rw [ht]
  exact ⟨_, rfl⟩

theorem load_eq {i : Inputs} (hplain : i.IsPlain) (hreadable : i.IsReadable)
    (order : Arrangement) :
    i.load order = (ofSettings i.entries.merged order).map fun c => c.withOptions i.line := by
  rcases exists_overrides hplain hreadable with ⟨overrides, hoverrides⟩
  rcases exists_layers hreadable with ⟨layers, hlayers⟩
  unfold load Configuration.load ofSources
  rw [hoverrides, hlayers]
  change (ofSettings (Layer.stack _) order >>= _) = _
  rw [stack_eq_merged hplain hlayers hoverrides]
  rfl

end Inputs
end Configuration
end HeaderBinding
