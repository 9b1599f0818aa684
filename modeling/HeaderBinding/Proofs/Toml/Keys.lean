import HeaderBinding.Toml.Document
import Mathlib.Data.List.Nodup

/-!
# The keys of a document

A table under construction takes each key once. All changes to it are made under one
key, which either stands in the table or comes to stand behind the others.
-/

namespace HeaderBinding
namespace Toml
namespace Table

def keys (t : Table) : List String :=
  t.map Prod.fst

theorem keys_alter? {t changed : Table} {key : String} {f : Option Item → Option Item}
    (h : t.alter? key f = some changed) :
    changed.keys = t.keys ∨ key ∉ t.keys ∧ changed.keys = t.keys ++ [key] := by
  induction t generalizing changed with
  | nil =>
      rcases Option.map_eq_some_iff.mp h with ⟨item, -, rfl⟩
      exact .inr ⟨List.not_mem_nil, rfl⟩
  | cons entry rest ih =>
      rcases entry with ⟨k, item⟩
      unfold alter? at h
      split at h
      · rcases Option.map_eq_some_iff.mp h with ⟨item, -, rfl⟩
        exact .inl rfl
      · next hk =>
          rcases Option.map_eq_some_iff.mp h with ⟨tail, htail, rfl⟩
          rcases ih htail with same | ⟨fresh, longer⟩
          · exact .inl (congrArg (k :: ·) same)
          · refine .inr ⟨?_, congrArg (k :: ·) longer⟩
            exact fun hm => (List.mem_cons.mp hm).elim (fun e => hk e.symm) fresh

theorem nodup_alter? {t changed : Table} {key : String} {f : Option Item → Option Item}
    (ht : t.keys.Nodup) (h : t.alter? key f = some changed) : changed.keys.Nodup := by
  rcases keys_alter? h with same | ⟨fresh, longer⟩
  · rwa [same]
  · rw [longer, ← List.concat_eq_append]
    exact ht.concat fresh

/-!
# Values and headers
-/

theorem nodup_insert? {value : Setting} {path : List String} {isOpen : Bool}
    {t changed : Table} (ht : t.keys.Nodup) (h : t.insert? value path isOpen = some changed) :
    changed.keys.Nodup := by
  unfold insert? at h
  split at h
  · cases h
  · split at h
    · cases h
    · exact nodup_alter? ht h
  · exact nodup_alter? ht h

theorem nodup_descend? {f : Table → Option Table} {path : List String} {t changed : Table}
    (hf : ∀ {u v : Table}, u.keys.Nodup → f u = some v → v.keys.Nodup)
    (ht : t.keys.Nodup) (h : t.descend? f path = some changed) : changed.keys.Nodup := by
  cases path with
  | nil =>
      exact hf ht h
  | cons key path =>
      exact nodup_alter? ht h

end Table

/-!
# Documents
-/

theorem nodup_foldlM {step : Table → α → Option Table} (entries : List α) {t changed : Table}
    (hstep : ∀ {u v : Table} {a : α}, u.keys.Nodup → step u a = some v → v.keys.Nodup)
    (ht : t.keys.Nodup) (h : entries.foldlM step t = some changed) :
    changed.keys.Nodup := by
  induction entries generalizing t with
  | nil =>
      cases h
      exact ht
  | cons a entries ih =>
      rcases Option.bind_eq_some_iff.mp h with ⟨u, hu, rest⟩
      exact ih (hstep ht hu) rest

theorem nodup_fill? {values : List (List String × Setting)} {t changed : Table}
    (ht : t.keys.Nodup) (h : fill? values t = some changed) : changed.keys.Nodup :=
  nodup_foldlM values Table.nodup_insert? ht h

theorem nodup_addSection? {t changed : Table} {s : Section} (ht : t.keys.Nodup)
    (h : addSection? t s = some changed) : changed.keys.Nodup := by
  unfold addSection? at h
  split at h
  · cases h
  · exact Table.nodup_descend? Table.nodup_alter? ht h

theorem nodup_table? {statements : List Statement} {t : Table}
    (h : table? statements = some t) : t.keys.Nodup := by
  unfold table? at h
  rcases Option.bind_eq_some_iff.mp h with ⟨root, hroot, h⟩
  have nothing : (Table.keys []).Nodup := List.nodup_nil
  exact nodup_foldlM _ nodup_addSection? (nodup_fill? nothing hroot) h

theorem keys_settings (t : Table) : SettingTable.keys (settings t) = t.keys := by
  induction t with
  | nil =>
      rfl
  | cons entry rest ih =>
      exact congrArg (entry.1 :: ·) ih

/-- No key stands twice at the top of a document that can be read. -/
theorem nodup_keys_of_read? {text : String} {t : SettingTable} (h : read? text = some t) :
    t.keys.Nodup := by
  unfold read? at h
  rcases Option.bind_eq_some_iff.mp h with ⟨tokens, -, h⟩
  rcases Option.bind_eq_some_iff.mp h with ⟨statements, -, h⟩
  rcases Option.bind_eq_some_iff.mp h with ⟨table, ht, h⟩
  cases h
  rw [keys_settings]
  exact nodup_table? ht

end Toml
end HeaderBinding
