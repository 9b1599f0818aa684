import HeaderBinding.Settings.Layers
import Mathlib.Data.List.Induction
import Mathlib.Data.List.Nodup
import Mathlib.Data.List.TakeWhile

/-!
# What stands under a key of stacked layers

Where all layers set plain keys, what ends up under a key follows from what the
layers set under that key, lowest first. Unless it is a table, it is what the highest
layer put there.
-/

namespace HeaderBinding

namespace KeyPath

/-- Whether a name is a path of one step, as it is written. -/
def IsPlain (name : String) : Prop :=
  name ≠ "" ∧ name.toList.all isNameChar = true

instance (name : String) : Decidable (IsPlain name) :=
  inferInstanceAs (Decidable (_ ∧ _))

theorem ofText?_of_isPlain {name : String} (h : IsPlain name) :
    ofText? name = some (ofName name) := by
  have each := List.all_eq_true.mp h.2
  have whole : name.toList.takeWhile isNameChar = name.toList :=
    List.takeWhile_eq_self_iff.mpr each
  have nothing : name.toList.dropWhile isNameChar = [] :=
    List.dropWhile_eq_nil_iff.mpr each
  have written : name.toList ≠ [] := fun e => h.1 (String.toList_eq_nil_iff.mp e)
  have taken : takeName? name.toList = some (name, []) := by
    unfold takeName?
    rw [whole, nothing]
    split
    · next e => exact absurd e written
    · rw [String.ofList_toList]
  simp [ofText?, taken, steps?, ofName]

end KeyPath

namespace Setting

def isTable : Setting → Bool
  | table _ => true
  | _ => false

/-- Puts a setting over what stands under a key, if anything does. -/
def put (old : Option Setting) (new : Setting) : Option Setting :=
  some ((old.getD .null).replace new)

theorem replace_of_not_isTable (old : Setting) {new : Setting} (h : new.isTable = false) :
    old.replace new = new := by
  cases new with
  | table members =>
      cases h
  | _ =>
      unfold replace
      rfl

/-- Settings put over one another amount to the last one, as long as they do not amount to a
table. -/
theorem getLast?_of_foldl_put {values : List Setting} {v : Setting} (hv : v.isTable = false)
    (h : values.foldl put none = some v) : values.getLast? = some v := by
  rcases List.eq_nil_or_concat values with rfl | ⟨values, new, rfl⟩
  · cases h
  · rw [List.concat_eq_append] at h ⊢
    rw [List.foldl_concat, put, Option.some.injEq] at h
    rw [List.getLast?_concat]
    cases new with
    | table members =>
        subst h
        cases hv
    | _ =>
        rw [replace_of_not_isTable _ rfl] at h
        rw [h]

theorem foldl_put_eq_none (values : List Setting) (h : values.foldl put none = none) :
    values = [] := by
  rcases List.eq_nil_or_concat values with rfl | ⟨values, new, rfl⟩
  · rfl
  · rw [List.concat_eq_append, List.foldl_concat] at h
    cases h

end Setting

namespace SettingTable

/-- The layer that sets each member under its own name. -/
def layer (t : SettingTable) : Layer :=
  t.map fun member => (.ofName member.1, member.2)

/-- What members hold under a key, in the order in which they are written. -/
def under (t : SettingTable) (key : String) : List Setting :=
  t.filterMap fun member => if key = member.1 then some member.2 else none

@[simp]
theorem under_cons (k : String) (v : Setting) (rest : SettingTable) (key : String) :
    under ((k, v) :: rest) key = if key = k then v :: rest.under key else rest.under key := by
  unfold under
  rw [List.filterMap_cons]
  by_cases h : key = k
  · simp [h]
  · simp [h]

theorem ofTable_eq_layer {t : SettingTable} (h : ∀ key ∈ t.keys, KeyPath.IsPlain key) :
    Layer.ofTable t = t.layer := by
  refine List.map_congr_left fun member hm => ?_
  have plain : KeyPath.IsPlain member.1 := h _ (List.mem_map_of_mem hm)
  rw [KeyPath.ofText?_of_isPlain plain, Option.getD_some]

theorem get?_set (t : SettingTable) (name key : String) (v : Setting) :
    ((KeyPath.ofName name).set v t).get? key =
      if key = name then Setting.put (t.get? key) v else t.get? key := by
  change (t.alter name fun old => old.replace v).get? key = _
  by_cases h : key = name
  · subst h
    simp [Setting.put]
  · simp [h]

theorem get?_apply_layer (t entries : SettingTable) (key : String) :
    (Layer.apply t entries.layer).get? key =
      (entries.under key).foldl Setting.put (t.get? key) := by
  induction entries generalizing t with
  | nil =>
      rfl
  | cons member rest ih =>
      rcases member with ⟨k, v⟩
      have step := ih ((KeyPath.ofName k).set v t)
      rw [get?_set] at step
      rw [under_cons]
      by_cases h : key = k
      · rw [if_pos h] at step ⊢
        exact step
      · rw [if_neg h] at step ⊢
        exact step

/-- Under a key the layers of tables amount to what the tables hold under it. -/
theorem get?_stack (tables : List SettingTable) (key : String) :
    (Layer.stack (tables.map layer)).get? key =
      (tables.flatMap fun t => t.under key).foldl Setting.put none := by
  have fold (t : SettingTable) :
      ((tables.map layer).foldl Layer.apply t).get? key =
        (tables.flatMap fun t => t.under key).foldl Setting.put (t.get? key) := by
    induction tables generalizing t with
    | nil =>
        rfl
    | cons first rest ih =>
        rw [List.map_cons, List.foldl_cons, ih, get?_apply_layer, List.flatMap_cons,
          List.foldl_append]
  exact fold []

/-!
# What a single table gives
-/

theorem head?_under (t : SettingTable) (key : String) : (t.under key).head? = t.get? key := by
  induction t with
  | nil =>
      rfl
  | cons member rest ih =>
      rcases member with ⟨k, v⟩
      by_cases h : key = k
      · simp [h]
      · simp [h, ih]

theorem under_eq_nil {t : SettingTable} {key : String} (h : key ∉ t.keys) :
    t.under key = [] := by
  refine List.filterMap_eq_nil_iff.mpr fun member hm => if_neg fun e => h ?_
  exact List.mem_map.mpr ⟨member, hm, e.symm⟩

theorem under_of_nodup {t : SettingTable} (h : t.keys.Nodup) (key : String) :
    t.under key = (t.get? key).toList := by
  induction t with
  | nil =>
      rfl
  | cons member rest ih =>
      rcases member with ⟨k, v⟩
      rcases List.nodup_cons.mp h with ⟨fresh, hrest⟩
      by_cases hk : key = k
      · subst hk
        have once : under rest key = [] := under_eq_nil fresh
        simp [once]
      · simp [hk, ih hrest]

/-- The last member with a key is the first one from behind. -/
theorem getLast?_under (t : SettingTable) (key : String) :
    (t.under key).getLast? = get? t.reverse key := by
  rw [← head?_under, ← List.head?_reverse]
  simp [under, List.filterMap_reverse]

theorem getLast?_under_of_nodup {t : SettingTable} (h : t.keys.Nodup) (key : String) :
    (t.under key).getLast? = t.get? key := by
  rw [under_of_nodup h]
  cases t.get? key <;> rfl

end SettingTable
end HeaderBinding
