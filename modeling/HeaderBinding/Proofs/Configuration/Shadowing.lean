import HeaderBinding.Proofs.Configuration.Inputs

/-!
# Paths above all settings

A header and an output on the command line take the place of whatever the settings hold
under these keys. No such setting shows in the outcome then, whether it could be converted
or not, and what stands for the paths among the settings does not show either.
-/

namespace HeaderBinding
namespace Configuration

/-- The keys that paths on the command line stand above. -/
def pathKeys : List String :=
  ["header", "output"]

namespace Inputs

/-- The command line but for the overrides. -/
def options (i : Inputs) : CommandLine :=
  { i.line with settings := [] }

/-- Inputs that differ at most in what they set under the given keys. -/
structure AgreeBut (keys : List String) (i j : Inputs) : Prop where
  user : i.userTable.without keys = j.userTable.without keys
  nearby : i.localTable.without keys = j.localTable.without keys
  overrides : (i.line.settings.filter fun argument => !keys.contains (overrideName argument)) =
    j.line.settings.filter fun argument => !keys.contains (overrideName argument)
  options : i.options = j.options

section

variable {i j : Inputs} {keys : List String}

theorem without_overrides (arguments : List String) (keys : List String) :
    SettingTable.without (arguments.map overrideMember) keys =
      (arguments.filter fun argument => !keys.contains (overrideName argument)).map
        overrideMember :=
  List.filter_map

theorem AgreeBut.shadowTable_eq (h : AgreeBut keys i j) :
    shadowTable i.line = shadowTable j.line := by
  have htable : shadowTable i.options = shadowTable j.options := congrArg shadowTable h.options
  exact htable

theorem AgreeBut.withOptions_eq (h : AgreeBut keys i j) (c : Configuration) :
    c.withOptions i.line = c.withOptions j.line := by
  have hoptions : c.withOptions i.options = c.withOptions j.options :=
    congrArg c.withOptions h.options
  exact hoptions

theorem AgreeBut.entries_eq (h : AgreeBut keys i j) :
    i.entries.without keys = j.entries.without keys := by
  unfold entries layers
  simp only [List.flatten_cons, List.flatten_nil, SettingTable.without_append]
  rw [h.user, h.nearby, without_overrides, without_overrides, h.overrides, h.shadowTable_eq]

end

variable {i j : Inputs} {header output : String}

theorem withOptions_paths (c : Configuration) (hheader : i.line.header = some header)
    (houtput : i.line.output = some output) :
    (c.withOptions i.line).header = header ∧ (c.withOptions i.line).output = output := by
  unfold withOptions
  rw [hheader, houtput]
  exact ⟨rfl, rfl⟩

theorem under_shadowTable (hheader : i.line.header = some header)
    (houtput : i.line.output = some output) {key : String} (hkey : key ∈ pathKeys) :
    (shadowTable i.line).under key = [placeholder] := by
  unfold shadowTable
  rw [hheader, houtput]
  rcases List.mem_cons.mp hkey with rfl | hkey
  · rfl
  · rw [List.mem_singleton.mp hkey]
    rfl

theorem get?_entries (hheader : i.line.header = some header)
    (houtput : i.line.output = some output) {key : String} (hkey : key ∈ pathKeys) :
    i.entries.merged.get? key = some placeholder :=
  SettingTable.get?_merged_of_last i.layers.flatten (under_shadowTable hheader houtput hkey)

theorem without_fields_eq (hagree : AgreeBut pathKeys i j) :
    i.entries.merged.without pathKeys = j.entries.merged.without pathKeys := by
  rw [SettingTable.without_merged, SettingTable.without_merged, hagree.entries_eq]

/-- The settings differ in their order alone. -/
theorem perm_entries (hagree : AgreeBut pathKeys i j) (hheader : i.line.header = some header)
    (houtput : i.line.output = some output) : i.entries.merged.Perm j.entries.merged := by
  have hheader' : j.options.header = some header := hagree.options ▸ hheader
  have houtput' : j.options.output = some output := hagree.options ▸ houtput
  apply SettingTable.perm_of_get? (SettingTable.nodup_keys_merged _)
    (SettingTable.nodup_keys_merged _)
  intro key
  by_cases hkey : key ∈ pathKeys
  · rw [get?_entries hheader houtput hkey, get?_entries hheader' houtput' hkey]
  · rw [← SettingTable.get?_without _ hkey, without_fields_eq hagree,
      SettingTable.get?_without _ hkey]

theorem unknownSettings_entries (hagree : AgreeBut pathKeys i j) :
    unknownSettings i.entries.merged = unknownSettings j.entries.merged := by
  have hkeys : pathKeys ⊆ fields := by
    decide
  change i.entries.merged.without fields = j.entries.merged.without fields
  rw [← SettingTable.without_without hkeys, without_fields_eq hagree,
    SettingTable.without_without hkeys]

theorem exists_load_eq (hi : i.IsPlain) (hi' : i.IsReadable) (hj : j.IsPlain)
    (hj' : j.IsReadable) (hagree : AgreeBut pathKeys i j) (hheader : i.line.header = some header)
    (houtput : i.line.output = some output) (order : Arrangement) :
    ∃ other : Arrangement, j.load other = i.load order := by
  rcases exists_ofSettings_of_perm (perm_entries hagree hheader houtput)
    (unknownSettings_entries hagree) order with ⟨other, hother⟩
  refine ⟨other, ?_⟩
  rw [load_eq hi hi', load_eq hj hj', hother]
  exact congrArg (Except.map · _) (funext fun c => (hagree.withOptions_eq c).symm)

theorem AgreeBut.symm {keys : List String} (h : AgreeBut keys i j) : AgreeBut keys j i :=
  ⟨h.user.symm, h.nearby.symm, h.overrides.symm, h.options.symm⟩

/-- A configuration that is loaded in one order is loaded in any. -/
theorem load_eq_ok_of_order (hi : i.IsPlain) {order : Arrangement} {c : Configuration}
    (h : i.load order = .ok c) (hi' : i.IsReadable) (other : Arrangement) :
    i.load other = .ok c := by
  rcases exists_settings_of_load hi h with ⟨settled, hsettled, rfl⟩
  rw [load_eq hi hi',
    ofSettings_eq_ok_of_order (SettingTable.nodup_keys_merged _) hsettled other]
  rfl

/-- With a header and an output on the command line the settings under these keys do not
matter. Whatever they are, the outcome is the same: if a configuration is loaded, in whatever
order the settings are gone through, then this one is loaded in any, and it has the paths of
the command line; and the errors that some order leads to are the same ones. -/
theorem load_of_paths (hi : i.IsPlain) (hi' : i.IsReadable) (hj : j.IsPlain)
    (hj' : j.IsReadable) (hagree : AgreeBut pathKeys i j) (hheader : i.line.header = some header)
    (houtput : i.line.output = some output) :
    (∀ order c, i.load order = .ok c ↔ j.load order = .ok c) ∧
      (∀ order c, i.load order = .ok c →
        c.header = header ∧ c.output = output ∧ ∀ other, i.load other = .ok c) ∧
      ∀ e, (∃ order, i.load order = .error e) ↔ ∃ order, j.load order = .error e := by
  have hheader' : j.line.header = some header := by
    have hoptions : j.options.header = some header := hagree.options ▸ hheader
    exact hoptions
  have houtput' : j.line.output = some output := by
    have hoptions : j.options.output = some output := hagree.options ▸ houtput
    exact hoptions
  have hforth := exists_load_eq hi hi' hj hj' hagree hheader houtput
  have hback := exists_load_eq hj hj' hi hi' hagree.symm hheader' houtput'
  refine ⟨fun order c => ⟨fun h => ?_, fun h => ?_⟩, fun order c h => ?_, fun e => ⟨?_, ?_⟩⟩
  · rcases hforth order with ⟨other, hother⟩
    exact load_eq_ok_of_order hj (hother.trans h) hj' order
  · rcases hback order with ⟨other, hother⟩
    exact load_eq_ok_of_order hi (hother.trans h) hi' order
  · rcases exists_settings_of_load hi h with ⟨settled, -, rfl⟩
    have hpaths := withOptions_paths settled hheader houtput
    exact ⟨hpaths.1, hpaths.2, load_eq_ok_of_order hi h hi'⟩
  · rintro ⟨order, h⟩
    rcases hforth order with ⟨other, hother⟩
    exact ⟨other, hother.trans h⟩
  · rintro ⟨order, h⟩
    rcases hback order with ⟨other, hother⟩
    exact ⟨other, hother.trans h⟩

/-- A header and an output in the user's file that are no texts, and overrides of both. -/
theorem load_of_paths_tables :
    let near := (["c-import.toml"], Files.Entry.file "std = 'c99'\nlinks = ['m']\n")
    let user := (["u", "c-import.toml"], Files.Entry.file "output = [1]\n[header]\na = 2\n")
    let line : CommandLine :=
      { CommandLine.empty with header := some "a.h", output := some "o" }
    let i : Inputs :=
      ⟨⟨[near, user, (["u"], .directory)], []⟩, some "/u",
        { line with settings := ["header=x", "std=c17"] }⟩
    let j : Inputs := ⟨⟨[near], []⟩, none, { line with settings := ["std=c17", "output=y"] }⟩
    i.IsPlain ∧ i.IsReadable ∧ j.IsPlain ∧ j.IsReadable ∧ AgreeBut pathKeys i j ∧
      ∃ c, (∀ order, i.load order = .ok c ∧ j.load order = .ok c) ∧
        c.header = "a.h" ∧ c.output = "o" ∧ c.standard = "c17" := by
  intro near user line i j
  have hi : i.IsPlain := ⟨by decide +kernel, by decide +kernel⟩
  have hi' : i.IsReadable := ⟨by decide +kernel, by decide +kernel⟩
  have hj : j.IsPlain := ⟨by decide +kernel, by decide +kernel⟩
  have hj' : j.IsReadable := ⟨by decide +kernel, by decide +kernel⟩
  have huser : i.userTable.without pathKeys = j.userTable.without pathKeys :=
    List.isEmpty_iff.mp (by decide +kernel)
  have hnear : i.localTable = j.localTable := by
    have hread : i.files.read? fileName = j.files.read? fileName := by
      decide +kernel
    unfold localTable fileTable
    rw [hread]
  have hagree : AgreeBut pathKeys i j :=
    ⟨huser, congrArg (·.without pathKeys) hnear, by decide +kernel, rfl⟩
  rcases load_of_paths hi hi' hj hj' hagree rfl rfl with ⟨hsame, hloaded, -⟩
  have hasSet : (i.load .asSet).map (fun c => c.standard) = .ok "c17" := by
    decide +kernel
  rcases map_eq_ok hasSet with ⟨c, hc, hstandard⟩
  rcases hloaded .asSet c hc with ⟨hheader, houtput, horders⟩
  have hboth : ∀ order, i.load order = .ok c ∧ j.load order = .ok c := fun order =>
    ⟨horders order, (hsame order c).mp (horders order)⟩
  exact ⟨hi, hi', hj, hj', hagree, c, hboth, hheader, houtput, hstandard⟩

end Inputs
end Configuration
end HeaderBinding
