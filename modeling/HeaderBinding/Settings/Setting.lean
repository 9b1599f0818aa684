import HeaderBinding.Decimal.Shortest

/-!
# Settings

What a configuration source holds under a name. Tables are merged by key, all else
is replaced as a whole.
-/

namespace HeaderBinding

inductive Setting where
  | null
  | flag (value : Bool)
  | integer (value : Int)
  | float (value : Decimal.Binary64)
  | text (value : String)
  | array (items : List Setting)
  | table (members : List (String × Setting))

/-- The members of a table. A key stands in it once. -/
abbrev SettingTable :=
  List (String × Setting)

namespace SettingTable

def get? (t : SettingTable) (key : String) : Option Setting :=
  t.lookup key

/-- Changes what stands under a key, which is null if there is nothing yet. -/
def alter (t : SettingTable) (key : String) (f : Setting → Setting) : SettingTable :=
  match t with
  | [] => [(key, f .null)]
  | (k, v) :: rest => if k = key then (k, f v) :: rest else (k, v) :: alter rest key f

def keys (t : SettingTable) : List String :=
  t.map Prod.fst

@[simp]
theorem get?_nil (key : String) : get? [] key = none :=
  rfl

@[simp]
theorem get?_cons (k : String) (v : Setting) (rest : SettingTable) (key : String) :
    get? ((k, v) :: rest) key = if key = k then some v else rest.get? key := by
  by_cases h : key = k
  · rw [if_pos h, h]
    exact List.lookup_cons_self
  · rw [if_neg h, get?, List.lookup_cons, beq_false_of_ne h]
    rfl

@[simp]
theorem keys_cons (k : String) (v : Setting) (rest : SettingTable) :
    keys ((k, v) :: rest) = k :: rest.keys :=
  rfl

theorem alter_cons (k : String) (v : Setting) (rest : SettingTable) (key : String)
    (f : Setting → Setting) :
    alter ((k, v) :: rest) key f =
      if k = key then (k, f v) :: rest else (k, v) :: alter rest key f :=
  rfl

@[simp]
theorem get?_alter_self (t : SettingTable) (key : String) (f : Setting → Setting) :
    (t.alter key f).get? key = some (f ((t.get? key).getD .null)) := by
  induction t with
  | nil =>
      simp [alter]
  | cons entry rest ih =>
      obtain ⟨k, v⟩ := entry
      rw [alter_cons]
      by_cases h : k = key
      · simp [h]
      · simp [h, Ne.symm h, ih]

@[simp]
theorem get?_alter_of_ne (t : SettingTable) {key other : String} (f : Setting → Setting)
    (h : other ≠ key) : (t.alter key f).get? other = t.get? other := by
  induction t with
  | nil =>
      simp [alter, h]
  | cons entry rest ih =>
      obtain ⟨k, v⟩ := entry
      rw [alter_cons]
      by_cases hk : k = key
      · simp [hk, h]
      · simp [hk, ih]

end SettingTable

/-- An order in which the members of tables are gone through. A table has no order of its
own, so each of them can come about. -/
structure Arrangement where
  apply : SettingTable → SettingTable
  perm : ∀ t, (apply t).Perm t

namespace Arrangement

/-- The order in which the members have been set. -/
def asSet : Arrangement :=
  ⟨id, fun t => .refl t⟩

end Arrangement

namespace Setting

def members : Setting → SettingTable
  | table members => members
  | _ => []

def items : Setting → List Setting
  | array items => items
  | _ => []

mutual

/-- Puts a setting in place of another one. The members of a table are merged into what is
there, which is made an empty table first if it is none. -/
def replace (old : Setting) : Setting → Setting
  | table incoming => table (mergeInto old.members incoming)
  | new => new

/-- Merges members into a table, one after the other. -/
def mergeInto (t : SettingTable) : SettingTable → SettingTable
  | [] => t
  | (key, value) :: rest => mergeInto (t.alter key fun old => replace old value) rest

end

end Setting
end HeaderBinding
