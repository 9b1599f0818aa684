import HeaderBinding.Invocation
import HeaderBinding.Proofs.Configuration.Inputs
import HeaderBinding.Proofs.Extraction.Log
import HeaderBinding.Proofs.Text.Order

/-!
# Keys that mean nothing

A key that no field of a configuration has stays among the unknown settings, in however many
layers it stands. The log of a run starts with one warning on each of these keys, and no other
line of it looks like one.
-/

namespace HeaderBinding

open Text

/-- The warning on a key that means nothing. -/
def unknownKeyLine (key : String) : String :=
  "WARN unknown config key " ++ key

theorem line_unknownKey (key : String) : (Event.unknownKey key).line = unknownKeyLine key :=
  Event.line_of_message rfl

namespace Configuration

/-!
# What is left of the settings
-/

theorem unknown_of_ofSettings {t : SettingTable} {order : Arrangement} {c : Configuration}
    (h : ofSettings t order = .ok c) : c.unknown = t.without fields := by
  unfold ofSettings Draft.toConfiguration at h
  rcases bind_eq_ok h with ⟨_, _, h⟩
  -- five of the fields have to be there
  iterate 5 rcases bind_eq_ok h with ⟨_, _, h⟩
  cases h
  rfl

theorem eq_of_mem_keys_textUnder {key other : String} {text : Option String}
    (h : other ∈ (textUnder key text).keys) : other = key := by
  cases text with
  | none =>
      cases h
  | some text =>
      exact List.mem_singleton.mp h

theorem mem_fields_of_mem_shadowTable {line : CommandLine} {key : String}
    (h : key ∈ (shadowTable line).keys) : key ∈ fields := by
  unfold shadowTable SettingTable.keys at h
  rw [List.map_append] at h
  rcases List.mem_append.mp h with hheader | houtput
  · rw [eq_of_mem_keys_textUnder hheader]
    decide
  · rw [eq_of_mem_keys_textUnder houtput]
    decide

namespace Inputs

/-- Whether a key stands at the top of some layer and no field of a configuration has it. -/
def SetsUnknown (i : Inputs) (key : String) : Prop :=
  (∃ t ∈ i.layers, key ∈ t.keys) ∧ key ∉ fields

theorem mem_keys_entries {i : Inputs} {key : String} :
    key ∈ i.entries.keys ↔ (∃ t ∈ i.layers, key ∈ t.keys) ∨ key ∈ (shadowTable i.line).keys := by
  have hlayers : key ∈ SettingTable.keys i.layers.flatten ↔ ∃ t ∈ i.layers, key ∈ t.keys := by
    unfold SettingTable.keys
    rw [List.map_flatten, ← List.flatMap_def, List.mem_flatMap]
  rw [← hlayers, ← List.mem_append]
  unfold entries SettingTable.keys
  rw [List.map_append]

theorem unknown_eq_of_load {i : Inputs} {order : Arrangement} {c : Configuration}
    (hplain : i.IsPlain) (h : i.load order = .ok c) :
    c.unknown = i.entries.merged.without fields := by
  rcases exists_settings_of_load hplain h with ⟨settled, hsettled, rfl⟩
  have hunknown : settled.unknown = i.entries.merged.without fields :=
    unknown_of_ofSettings hsettled
  exact hunknown

theorem mem_unknown_of_load {i : Inputs} {order : Arrangement} {c : Configuration}
    (hplain : i.IsPlain) (h : i.load order = .ok c) (key : String) :
    key ∈ c.unknown.keys ↔ i.SetsUnknown key := by
  rw [unknown_eq_of_load hplain h, SettingTable.mem_keys_without, SettingTable.mem_keys_merged,
    mem_keys_entries]
  unfold SetsUnknown
  refine and_congr_left fun hfield => or_iff_left fun hpath => ?_
  exact hfield (mem_fields_of_mem_shadowTable hpath)

theorem nodup_unknown_of_load {i : Inputs} {order : Arrangement} {c : Configuration}
    (hplain : i.IsPlain) (h : i.load order = .ok c) : c.unknown.keys.Nodup := by
  rw [unknown_eq_of_load hplain h]
  exact SettingTable.nodup_keys_without (SettingTable.nodup_keys_merged _) fields

end Inputs

/-!
# What a run reports otherwise
-/

theorem kind_of_mem_extractionEvents {scope : HeaderScope} {root : Dump.Node} {e : Event}
    (h : e ∈ scope.extractionEvents root) : e.kind ≠ .unknownKey := by
  rw [HeaderScope.extractionEvents_eq] at h
  rcases List.mem_append.mp h with hnodes | hsummary
  · rcases List.mem_flatMap.mp hnodes with ⟨n, _, hn⟩
    have hdebug := (Extraction.logsNode_events n).debug e.line (List.mem_map_of_mem hn)
    rw [Event.startsWith_debug_iff] at hdebug
    intro hkind
    rw [hkind] at hdebug
    cases hdebug
  · split at hsummary
    · cases List.mem_singleton.mp hsummary
      nofun
    · cases hsummary

theorem kind_of_mem_treeEvents {c : Configuration} {s : Files.Store}
    {tree : Except ImportError Dump.Node} {e : Event} (h : e ∈ c.treeEvents s tree) :
    e.kind ≠ .unknownKey := by
  cases tree with
  | error fault =>
      cases List.mem_singleton.mp h
      nofun
  | ok root =>
      rcases List.mem_append.mp h with hstart | hextraction
      · simp only [List.mem_cons, List.not_mem_nil, or_false] at hstart
        rcases hstart with rfl | rfl | rfl <;> nofun
      · exact kind_of_mem_extractionEvents hextraction

theorem kind_of_mem_putEvents {a : Artifact} {s : Files.Store} {e : Event}
    (h : e ∈ a.putEvents s) : e.kind ≠ .unknownKey := by
  unfold Artifact.putEvents at h
  split at h
  · cases h
  · rcases List.mem_map.mp h with ⟨temporary, _, rfl⟩
    nofun

theorem kind_of_mem_deliver {a : Artifact} {s t : Files.Store} {events : List Event}
    {result : Except ImportError Unit} (h : a.deliver s = (t, events, result)) {e : Event}
    (he : e ∈ events) : e.kind ≠ .unknownKey := by
  unfold Artifact.deliver at h
  split at h
  · cases h
    cases he
  · split at h
    · cases h
      exact kind_of_mem_putEvents he
    · cases h
      exact kind_of_mem_putEvents he

theorem kind_of_mem_deliverRecord {i : Import} {c : Configuration} {s t : Files.Store}
    {events : List Event} {result : Except ImportError Unit}
    (h : i.deliverRecord c s = (t, events, result)) {e : Event} (he : e ∈ events) :
    e.kind ≠ .unknownKey := by
  unfold Import.deliverRecord Import.recorded? at h
  cases hdirectory : c.diagnostics with
  | none =>
      rw [hdirectory] at h
      cases h
      cases he
  | some directory =>
      rw [hdirectory] at h
      cases h
      rcases List.mem_cons.mp he with rfl | hdelivered
      · nofun
      · exact kind_of_mem_deliver rfl hdelivered

theorem kind_of_mem_deliverAll {i : Import} {c : Configuration} {s : Files.Store} {e : Event}
    (h : e ∈ (i.deliver c s).log) : e.kind ≠ .unknownKey := by
  unfold Import.deliver at h
  split at h
  next hrecord =>
    exact kind_of_mem_deliverRecord hrecord h
  next hrecord =>
    split at h
    next hmodule =>
      rcases List.mem_append.mp h with hrecorded | hdelivered
      · exact kind_of_mem_deliverRecord hrecord hrecorded
      · exact kind_of_mem_deliver hmodule hdelivered
    next hmodule =>
      rcases List.mem_append.mp h with hboth | hwritten
      · rcases List.mem_append.mp hboth with hrecorded | hdelivered
        · exact kind_of_mem_deliverRecord hrecord hrecorded
        · exact kind_of_mem_deliver hmodule hdelivered
      · cases List.mem_singleton.mp hwritten
        nofun

theorem kind_of_mem_importOutcome {c : Configuration} {s : Files.Store} {o : FrontEnd.Outcome}
    {e : Event} (h : e ∈ (c.importOutcome s o).1) : e.kind ≠ .unknownKey := by
  unfold importOutcome at h
  split at h
  · cases h
  · exact kind_of_mem_treeEvents h

/-- A run does not come back to the keys that mean nothing. -/
theorem kind_of_mem_run {c : Configuration} {s : Files.Store}
    {programs : Files.Place → Option FrontEnd.Outcome} {e : Event}
    (h : e ∈ (c.run s programs).log) : e.kind ≠ .unknownKey := by
  have himported := fun he => @kind_of_mem_importOutcome c s (s.start programs c.program) e he
  unfold run runAfter at h
  generalize c.importOutcome s (s.start programs c.program) = imported at h himported
  rcases imported with ⟨events, fault | i⟩
  · exact himported h
  · rcases List.mem_append.mp h with hbefore | hdelivered
    · exact himported hbefore
    · exact kind_of_mem_deliverAll hdelivered

/-!
# The whole log
-/

theorem map_line_unknownKeyEvents (c : Configuration) :
    c.unknownKeyEvents.map Event.line = (sortByName id c.unknown.keys).map unknownKeyLine := by
  unfold unknownKeyEvents Event.unknownKeys
  rw [List.map_map]
  exact congrArg (List.map · _) (funext line_unknownKey)

namespace Inputs

/-- No key that is set vanishes: it is a field's, or it is among the unknown settings and has
one warning, whichever layers it stands in. -/
theorem unknown_of_load {i : Inputs} {order : Arrangement} {c : Configuration}
    (hplain : i.IsPlain) (h : i.load order = .ok c)
    (programs : Files.Place → Option FrontEnd.Outcome) :
    c.unknown.keys.Nodup ∧ (∀ key, key ∈ c.unknown.keys ↔ i.SetsUnknown key) ∧
      ∃ keys rest,
        (Invocation.start i.files programs i.directory i.line order).log.map Event.line =
            keys.map unknownKeyLine ++ rest ∧
          Ascending id keys ∧ (∀ key, key ∈ keys ↔ key ∈ c.unknown.keys) ∧
          ∀ line ∈ rest, ¬StartsWith "WARN unknown config key " line := by
  have hnodup := nodup_unknown_of_load hplain h
  refine ⟨hnodup, mem_unknown_of_load hplain h, ?_⟩
  have hevents : (Invocation.start i.files programs i.directory i.line order).log =
      c.unknownKeyEvents ++ (c.run i.files programs).log := by
    unfold load at h
    unfold Invocation.start
    rw [h]
  have hascending : Ascending id (sortByName id c.unknown.keys) :=
    ascending_sortByName_of_nodup (by rwa [List.map_id])
  refine ⟨sortByName id c.unknown.keys, (c.run i.files programs).log.map Event.line, ?_,
    hascending, fun _ => (perm_sortByName id _).mem_iff, ?_⟩
  · rw [hevents, List.map_append, map_line_unknownKeyEvents]
  · intro line hline
    rcases List.mem_map.mp hline with ⟨e, he, rfl⟩
    rw [Event.startsWith_unknownKey_iff]
    exact kind_of_mem_run he

/-- A key in each of the three upper layers, beside two others of which one has an empty
table. -/
theorem unknown_of_load_thrice :
    let near := (["c-import.toml"], Files.Entry.file "colour = 1\noutput = 'o'\n[extra]\n")
    let user := (["u", "c-import.toml"], Files.Entry.file "colour = 'x'\nZ = 2\n")
    let line : CommandLine :=
      { CommandLine.empty with header := some "a.h", settings := ["colour=red"] }
    let i : Inputs := ⟨⟨[near, user, (["u"], .directory)], []⟩, some "/u", line⟩
    let log := (Invocation.start i.files (fun _ => none) i.directory i.line).log.map Event.line
    i.IsPlain ∧ ∃ c, i.load .asSet = .ok c ∧ c.unknown.keys = ["colour", "Z", "extra"] ∧
      (∀ key, key ∈ c.unknown.keys ↔ i.SetsUnknown key) ∧
      (∃ keys rest, log = keys.map unknownKeyLine ++ rest ∧ Ascending id keys ∧
        (∀ key, key ∈ keys ↔ key ∈ c.unknown.keys) ∧
        ∀ line ∈ rest, ¬StartsWith "WARN unknown config key " line) ∧
      log.take 3 =
        [ "WARN unknown config key Z",
          "WARN unknown config key colour",
          "WARN unknown config key extra" ] := by
  intro near user line i log
  have hplain : i.IsPlain := ⟨by decide +kernel, by decide +kernel⟩
  have hloaded : (i.load .asSet).map (fun c => c.unknown.keys) = .ok ["colour", "Z", "extra"] := by
    decide +kernel
  rcases map_eq_ok hloaded with ⟨c, hc, hkeys⟩
  rcases unknown_of_load hplain hc (fun _ => none) with ⟨_, hunknown, hlog⟩
  exact ⟨hplain, c, hc, hkeys, hunknown, hlog, by decide +kernel⟩

end Inputs
end Configuration
end HeaderBinding
