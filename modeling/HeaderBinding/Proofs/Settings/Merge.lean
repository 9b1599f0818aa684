import HeaderBinding.Proofs.Settings.Layers

/-!
# Merged entries

Layers of plain keys come to one list of entries that are put over one another. The keys of
the result are those of the entries, each of them once, and what is set under some keys does
not show under the others. Tables that have each key once and hold the same under all keys
differ in their order alone.
-/

namespace HeaderBinding

namespace SettingTable

/-- What a table holds under other keys than the given ones. -/
def without (t : SettingTable) (keys : List String) : SettingTable :=
  t.filter fun member => !keys.contains member.1

/-- What entries amount to that are set one after the other. -/
def merged (entries : SettingTable) : SettingTable :=
  Layer.apply [] entries.layer

theorem stack_map_layer (tables : List SettingTable) :
    Layer.stack (tables.map layer) = merged tables.flatten := by
  have hfold : ∀ layers : List Layer, Layer.stack layers = Layer.apply [] layers.flatten := by
    intro layers
    exact (List.foldl_flatten ..).symm
  rw [hfold, merged, layer, List.map_flatten]
  rfl

theorem apply_layer_cons (t rest : SettingTable) (member : String × Setting) :
    Layer.apply t (layer (member :: rest)) =
      Layer.apply (t.alter member.1 fun old => old.replace member.2) rest.layer :=
  rfl

/-!
# Keys
-/

theorem keys_alter (t : SettingTable) (key : String) (f : Setting → Setting) :
    (t.alter key f).keys = if key ∈ t.keys then t.keys else t.keys ++ [key] := by
  induction t with
  | nil =>
      rfl
  | cons member rest ih =>
      rcases member with ⟨k, v⟩
      rw [alter_cons, keys_cons]
      by_cases hk : k = key
      · rw [if_pos hk, keys_cons, hk, if_pos List.mem_cons_self]
      · have hmem : key ∈ k :: keys rest ↔ key ∈ keys rest :=
          List.mem_cons.trans (or_iff_right (Ne.symm hk))
        rw [if_neg hk, keys_cons, ih]
        by_cases hrest : key ∈ keys rest
        · rw [if_pos hrest, if_pos (hmem.mpr hrest)]
        · rw [if_neg hrest, if_neg (mt hmem.mp hrest), List.cons_append]

theorem mem_keys_alter {t : SettingTable} {key other : String} {f : Setting → Setting} :
    other ∈ (t.alter key f).keys ↔ other ∈ t.keys ∨ other = key := by
  rw [keys_alter]
  split
  next hmem =>
    constructor
    · exact Or.inl
    · rintro (hother | rfl)
      · exact hother
      · exact hmem
  next =>
    rw [List.mem_append, List.mem_singleton]

theorem nodup_keys_alter {t : SettingTable} (h : t.keys.Nodup) (key : String)
    (f : Setting → Setting) : (t.alter key f).keys.Nodup := by
  rw [keys_alter]
  split
  next =>
    exact h
  next hfresh =>
    rw [← List.concat_eq_append]
    exact h.concat hfresh

theorem mem_keys_apply {t entries : SettingTable} {key : String} :
    key ∈ (Layer.apply t entries.layer).keys ↔ key ∈ t.keys ∨ key ∈ entries.keys := by
  induction entries generalizing t with
  | nil =>
      exact (or_iff_left List.not_mem_nil).symm
  | cons member rest ih =>
      rw [apply_layer_cons, ih, mem_keys_alter, or_assoc]
      exact or_congr_right List.mem_cons.symm

theorem nodup_keys_apply {t : SettingTable} (h : t.keys.Nodup) (layer : Layer) :
    (Layer.apply t layer).keys.Nodup := by
  induction layer generalizing t with
  | nil =>
      exact h
  | cons entry rest ih =>
      exact ih (nodup_keys_alter h entry.1.root _)

theorem nodup_keys_stack (layers : List Layer) : (Layer.stack layers).keys.Nodup := by
  have hfold : ∀ t : SettingTable, t.keys.Nodup →
      (SettingTable.keys (layers.foldl Layer.apply t)).Nodup := by
    induction layers with
    | nil =>
        exact fun _ h => h
    | cons layer rest ih =>
        exact fun t h => ih _ (nodup_keys_apply h layer)
  exact hfold [] List.nodup_nil

theorem mem_keys_merged {entries : SettingTable} {key : String} :
    key ∈ entries.merged.keys ↔ key ∈ entries.keys :=
  mem_keys_apply.trans (or_iff_right List.not_mem_nil)

theorem nodup_keys_merged (entries : SettingTable) : entries.merged.keys.Nodup :=
  nodup_keys_apply (t := []) List.nodup_nil entries.layer

/-!
# Other keys
-/

theorem without_cons (member : String × Setting) (rest : SettingTable) (keys : List String) :
    without (member :: rest) keys =
      if member.1 ∈ keys then rest.without keys else member :: rest.without keys := by
  unfold without
  by_cases hkey : member.1 ∈ keys
  · rw [if_pos hkey, List.filter_cons_of_neg (by simpa using hkey)]
  · rw [if_neg hkey, List.filter_cons_of_pos (by simpa using hkey)]

theorem without_append (t u : SettingTable) (keys : List String) :
    without (t ++ u) keys = t.without keys ++ u.without keys :=
  List.filter_append t u

/-- Leaving out more keys at once is the same as leaving them out later. -/
theorem without_without {keys more : List String} (h : keys ⊆ more) (t : SettingTable) :
    (t.without keys).without more = t.without more := by
  unfold without
  rw [List.filter_filter]
  refine List.filter_congr fun member _ => ?_
  by_cases hmore : member.1 ∈ more
  · simp [hmore]
  · simp [hmore, mt (fun hkey => h hkey) hmore]

theorem mem_keys_without {t : SettingTable} {keys : List String} {key : String} :
    key ∈ (t.without keys).keys ↔ key ∈ t.keys ∧ key ∉ keys := by
  unfold without SettingTable.keys
  constructor
  · intro hkey
    rcases List.mem_map.mp hkey with ⟨member, hmember, rfl⟩
    rcases List.mem_filter.mp hmember with ⟨hmem, hother⟩
    exact ⟨List.mem_map_of_mem hmem, by simpa using hother⟩
  · rintro ⟨hkey, hother⟩
    rcases List.mem_map.mp hkey with ⟨member, hmember, rfl⟩
    exact List.mem_map_of_mem (List.mem_filter.mpr ⟨hmember, by simpa using hother⟩)

theorem nodup_keys_without {t : SettingTable} (h : t.keys.Nodup) (keys : List String) :
    (t.without keys).keys.Nodup :=
  h.sublist (List.filter_sublist.map Prod.fst)

theorem get?_without (t : SettingTable) {keys : List String} {key : String} (h : key ∉ keys) :
    (t.without keys).get? key = t.get? key := by
  induction t with
  | nil =>
      rfl
  | cons member rest ih =>
      rcases member with ⟨k, v⟩
      rw [without_cons]
      by_cases hk : key = k
      · subst hk
        simp [h]
      · split
        · simp [hk, ih]
        · simp [hk, ih]

theorem without_alter (t : SettingTable) (key : String) (f : Setting → Setting)
    (keys : List String) :
    (t.alter key f).without keys =
      if key ∈ keys then t.without keys else (t.without keys).alter key f := by
  induction t with
  | nil =>
      exact without_cons (key, f .null) [] keys
  | cons member rest ih =>
      rcases member with ⟨k, v⟩
      rw [alter_cons, without_cons]
      by_cases hk : k = key
      · subst hk
        rw [if_pos rfl, without_cons]
        split
        next =>
          rfl
        next =>
          rw [alter_cons, if_pos rfl]
      · rw [if_neg hk, without_cons, ih]
        by_cases hout : k ∈ keys
        · rw [if_pos hout, if_pos hout]
        · rw [if_neg hout, if_neg hout, alter_cons, if_neg hk]
          split <;> rfl

/-- What is set under some keys leaves the others alone. -/
theorem without_apply (t entries : SettingTable) (keys : List String) :
    (Layer.apply t entries.layer).without keys =
      Layer.apply (t.without keys) (entries.without keys).layer := by
  induction entries generalizing t with
  | nil =>
      rfl
  | cons member rest ih =>
      rw [apply_layer_cons, ih, without_alter, without_cons]
      split
      next =>
        rfl
      next =>
        rw [apply_layer_cons]

theorem without_merged (entries : SettingTable) (keys : List String) :
    entries.merged.without keys = (entries.without keys).merged :=
  without_apply [] entries keys

/-!
# Order
-/

theorem get?_eq_some_iff {t : SettingTable} (h : t.keys.Nodup) {key : String} {v : Setting} :
    t.get? key = some v ↔ (key, v) ∈ t := by
  have hunder : v ∈ t.under key ↔ (key, v) ∈ t := by
    unfold under
    rw [List.mem_filterMap]
    constructor
    · rintro ⟨⟨k, w⟩, hmember, hheld⟩
      split at hheld
      next hkey =>
        cases hheld
        rw [hkey]
        exact hmember
      next =>
        cases hheld
    · intro hmember
      exact ⟨(key, v), hmember, if_pos rfl⟩
  rw [← hunder, under_of_nodup h, Option.mem_toList]

theorem nodup_keys_of_perm {t u : SettingTable} (h : t.Perm u) (ht : t.keys.Nodup) :
    u.keys.Nodup :=
  (h.map Prod.fst).nodup_iff.mp ht

theorem get?_of_perm {t u : SettingTable} (h : t.Perm u) (ht : t.keys.Nodup) (key : String) :
    t.get? key = u.get? key := by
  apply Option.ext
  intro v
  rw [get?_eq_some_iff ht, get?_eq_some_iff (nodup_keys_of_perm h ht)]
  exact h.mem_iff

theorem perm_of_get? {t u : SettingTable} (ht : t.keys.Nodup) (hu : u.keys.Nodup)
    (h : ∀ key, t.get? key = u.get? key) : t.Perm u := by
  apply (List.perm_ext_iff_of_nodup (ht.of_map Prod.fst) (hu.of_map Prod.fst)).mpr
  rintro ⟨key, v⟩
  rw [← get?_eq_some_iff ht, ← get?_eq_some_iff hu, h]

/-!
# What is set last
-/

/-- A text that is set last stands under its key, whatever was set there before. -/
theorem get?_merged_of_last (entries : SettingTable) {last : SettingTable} {key text : String}
    (h : last.under key = [.text text]) :
    SettingTable.get? (merged (entries ++ last)) key = some (.text text) := by
  have hunder : under (entries ++ last) key = entries.under key ++ [.text text] := by
    rw [← h]
    exact List.filterMap_append
  unfold merged
  rw [get?_apply_layer, hunder, List.foldl_concat, Setting.put,
    Setting.replace_of_not_isTable _ rfl]

end SettingTable
end HeaderBinding
