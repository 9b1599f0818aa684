import HeaderBinding.Configuration
import HeaderBinding.Outcome
import HeaderBinding.Proofs.Settings.Merge

/-!
# Fields read in any order

Whether the members of a table can all be converted does not depend on the order in which
they are gone through, and neither do the fields that they come to. Only which of several
members at fault is met first does.
-/

namespace HeaderBinding

namespace Configuration

namespace Field

theorem ofKey?_key (f : Field) : ofKey? f.key = some f := by
  cases f <;> decide

theorem key_of_ofKey? {key : String} {f : Field} (h : ofKey? key = some f) : f.key = key := by
  have hfound := List.find?_some (p := fun f : Field => f.key == key) h
  exact beq_iff_eq.mp hfound

/-- What stands under a field's key, converted, if anything stands there. -/
def read (f : Field) (t : SettingTable) : Except SettingsError (Option f.Value) :=
  match t.get? f.key with
  | none => .ok none
  | some v => (f.convert v).map some

theorem read_of_not_mem {f : Field} {t : SettingTable} (h : f.key ∉ t.keys) :
    f.read t = .ok none := by
  have hnone : t.get? f.key = none := by
    rw [← SettingTable.head?_under, SettingTable.under_eq_nil h]
    rfl
  rw [read, hnone]

theorem read_cons_self (f : Field) (v : Setting) (rest : SettingTable) :
    f.read ((f.key, v) :: rest) = (f.convert v).map some := by
  simp [read]

theorem read_cons_of_ne {f : Field} {key : String} (h : f.key ≠ key) (v : Setting)
    (rest : SettingTable) : f.read ((key, v) :: rest) = f.read rest := by
  simp [read, h]

theorem read_of_perm {t u : SettingTable} (h : t.Perm u) (ht : t.keys.Nodup) (f : Field) :
    f.read t = f.read u := by
  unfold read
  rw [SettingTable.get?_of_perm h ht]

end Field

namespace Draft

@[simp]
theorem put_self (d : Draft) (f : Field) (a : f.Value) : d.put f a f = some a := by
  simp [put]

@[simp]
theorem put_of_ne (d : Draft) {f g : Field} (a : f.Value) (h : f ≠ g) : d.put f a g = d g := by
  simp [put, h]

theorem take_key (d : Draft) (f : Field) (v : Setting) :
    d.take (f.key, v) = (f.convert v).map (d.put f) := by
  simp only [take, Field.ofKey?_key]

/-- A member changes no field but the one that has its key. -/
theorem take_of_ne {d e : Draft} {f : Field} {key : String} {v : Setting}
    (h : d.take (key, v) = .ok e) (hne : f.key ≠ key) : e f = d f := by
  unfold take at h
  split at h
  next g hg =>
    rcases map_eq_ok h with ⟨a, -, rfl⟩
    exact put_of_ne d a fun hfg => hne (hfg ▸ Field.key_of_ofKey? hg)
  next =>
    cases h
    rfl

theorem read_of_foldlM_take {members : SettingTable} (hkeys : members.keys.Nodup) {d e : Draft}
    (h : members.foldlM take d = .ok e) (f : Field) :
    ∃ held, f.read members = .ok held ∧ e f = held.or (d f) := by
  induction members generalizing d with
  | nil =>
      cases h
      exact ⟨none, rfl, rfl⟩
  | cons member rest ih =>
      rcases member with ⟨key, v⟩
      rcases List.nodup_cons.mp hkeys with ⟨hfresh, hrest⟩
      rw [List.foldlM_cons] at h
      rcases bind_eq_ok h with ⟨next, htaken, h⟩
      rcases ih hrest h with ⟨held, hheld, hfield⟩
      by_cases hkey : f.key = key
      · subst hkey
        rw [take_key] at htaken
        rcases map_eq_ok htaken with ⟨a, hconverted, rfl⟩
        rw [Field.read_of_not_mem hfresh] at hheld
        cases hheld
        refine ⟨some a, ?_, ?_⟩
        · rw [Field.read_cons_self, hconverted]
          rfl
        · simp [hfield]
      · refine ⟨held, ?_, ?_⟩
        · rw [Field.read_cons_of_ne hkey, hheld]
        · rw [hfield, take_of_ne htaken hkey]

theorem exists_foldlM_take {members : SettingTable} (hkeys : members.keys.Nodup) (d : Draft)
    (h : ∀ f : Field, ∃ held, f.read members = .ok held) :
    ∃ e, members.foldlM take d = .ok e := by
  induction members generalizing d with
  | nil =>
      exact ⟨d, rfl⟩
  | cons member rest ih =>
      rcases member with ⟨key, v⟩
      rcases List.nodup_cons.mp hkeys with ⟨hfresh, hrest⟩
      have hbehind : ∀ f : Field, ∃ held, f.read rest = .ok held := by
        intro f
        by_cases hkey : f.key = key
        · exact ⟨none, Field.read_of_not_mem (hkey ▸ hfresh)⟩
        · rw [← Field.read_cons_of_ne hkey v]
          exact h f
      have htaken : ∃ next, d.take (key, v) = .ok next := by
        cases hkey : Field.ofKey? key with
        | none =>
            simp only [take, hkey]
            exact ⟨d, rfl⟩
        | some f =>
            have hf := Field.key_of_ofKey? hkey
            subst hf
            rcases h f with ⟨held, hread⟩
            rw [Field.read_cons_self] at hread
            rcases map_eq_ok hread with ⟨a, hconverted, -⟩
            rw [take_key, hconverted]
            exact ⟨d.put f a, rfl⟩
      rcases htaken with ⟨next, hnext⟩
      rcases ih hrest next hbehind with ⟨e, he⟩
      refine ⟨e, ?_⟩
      rw [List.foldlM_cons, hnext]
      exact he

/-- Members with different keys can be read just if each field can, and the draft has what
each field reads. -/
theorem ofMembers_eq_ok_iff {members : SettingTable} (hkeys : members.keys.Nodup) {d : Draft} :
    ofMembers members = .ok d ↔ ∀ f : Field, f.read members = .ok (d f) := by
  have hread : ∀ {e : Draft}, ofMembers members = .ok e →
      ∀ f : Field, f.read members = .ok (e f) := by
    intro e he f
    rcases read_of_foldlM_take hkeys he f with ⟨held, hheld, hfield⟩
    rw [hheld, hfield]
    cases held <;> rfl
  constructor
  · exact hread
  · intro h
    rcases exists_foldlM_take hkeys empty fun f => ⟨d f, h f⟩ with ⟨e, he⟩
    have hsame : e = d := funext fun f => Except.ok.inj ((hread he f).symm.trans (h f))
    exact hsame ▸ he

end Draft

/-!
# The order of the settings
-/

section

variable {t u : SettingTable}

theorem ofSettings_eq_ok_iff (hkeys : t.keys.Nodup) {order : Arrangement} {c : Configuration} :
    ofSettings t order = .ok c ↔
      ∃ d : Draft, (∀ f : Field, f.read t = .ok (d f)) ∧
        d.toConfiguration (unknownSettings t) = .ok c := by
  have hperm := (order.perm t).symm
  have hdraft : ∀ d : Draft, Draft.ofMembers (order.apply t) = .ok d ↔
      ∀ f : Field, f.read t = .ok (d f) := by
    intro d
    rw [Draft.ofMembers_eq_ok_iff (SettingTable.nodup_keys_of_perm hperm hkeys)]
    exact forall_congr' fun f => by rw [Field.read_of_perm hperm hkeys]
  constructor
  · intro h
    rcases bind_eq_ok h with ⟨d, hd, hc⟩
    exact ⟨d, (hdraft d).mp hd, hc⟩
  · rintro ⟨d, hd, hc⟩
    unfold ofSettings
    rw [(hdraft d).mpr hd]
    exact hc

/-- Whether settings make a configuration, and which, does not depend on the order. -/
theorem ofSettings_eq_ok_of_order (hkeys : t.keys.Nodup) {order : Arrangement}
    {c : Configuration} (h : ofSettings t order = .ok c) (other : Arrangement) :
    ofSettings t other = .ok c :=
  (ofSettings_eq_ok_iff hkeys).mpr ((ofSettings_eq_ok_iff hkeys).mp h)

/-- Tables that differ in their order alone can be gone through in the same ways. -/
theorem exists_arrangement_of_perm (h : t.Perm u) (order : Arrangement) :
    ∃ other : Arrangement, other.apply u = order.apply t := by
  classical
  refine ⟨⟨fun s => if s = u then order.apply t else s, fun s => ?_⟩, if_pos rfl⟩
  split
  next hs =>
    exact hs ▸ (order.perm t).trans h
  next =>
    exact .refl s

theorem exists_ofSettings_of_perm (h : t.Perm u) (hunknown : unknownSettings t = unknownSettings u)
    (order : Arrangement) : ∃ other : Arrangement, ofSettings u other = ofSettings t order := by
  rcases exists_arrangement_of_perm h order with ⟨other, hother⟩
  refine ⟨other, ?_⟩
  unfold ofSettings
  rw [hother, hunknown]

end

end Configuration
end HeaderBinding
