import HeaderBinding.Settings.Setting

/-!
# Tables under construction

A table is defined once. Headers and dotted keys may make the tables on their way
before, or add to them later, as far as these were not defined themselves. What
was written as a value is closed.
-/

namespace HeaderBinding
namespace Toml

/-- How a table came to be: on the way of a header, on the way of a dotted key, or
by a header of its own. -/
inductive Origin where
  | passed
  | dotted
  | defined
  deriving DecidableEq

inductive Item where
  | value (v : Setting)
  | table (origin : Origin) (members : List (String × Item))
  | tables (elements : List (List (String × Item)))

abbrev Table :=
  List (String × Item)

namespace Table

/-- Changes the item under a key, if the change can be made. -/
def alter? (t : Table) (key : String) (f : Option Item → Option Item) : Option Table :=
  match t with
  | [] => (f none).map fun item => [(key, item)]
  | (k, item) :: rest =>
      if k = key then (f (some item)).map fun item => (k, item) :: rest
      else (alter? rest key f).map ((k, item) :: ·)

/-- Changes the last element of an array of tables. -/
def alterLast? (f : Table → Option Table) : List Table → Option (List Table)
  | [] => none
  | [t] => (f t).map fun t => [t]
  | t :: ts => (alterLast? f ts).map (t :: ·)

/-- Puts a value at a dotted key. The table that it ends up in was made by dotted
keys, or is the one that the key starts from. -/
def insert? (value : Setting) : List String → Bool → Table → Option Table
  | [], _, _ => none
  | [key], isOpen, t =>
      if ¬isOpen then none
      else
        t.alter? key fun
          | none => some (.value value)
          | some _ => none
  | key :: keys, _, t =>
      t.alter? key fun
        | none => (insert? value keys true []).map (.table .dotted)
        | some (.table .defined _) => none
        | some (.table origin t) =>
            (insert? value keys (origin = .dotted) t).map (.table origin)
        | some (.tables ts) => (alterLast? (insert? value keys false) ts).map .tables
        | some (.value _) => none

/-- Follows a header to the table above its last key, and makes what is missing. -/
def descend? (f : Table → Option Table) : List String → Table → Option Table
  | [], t => f t
  | key :: keys, t =>
      t.alter? key fun
        | none => (descend? f keys []).map (.table .passed)
        | some (.table origin t) => (descend? f keys t).map (.table origin)
        | some (.tables ts) => (alterLast? (descend? f keys) ts).map .tables
        | some (.value _) => none

/-- A table as its header opens it: new, or only passed so far. -/
def open? (fill : Table → Option Table) : Option Item → Option Item
  | none => (fill []).map (.table .defined)
  | some (.table .passed t) => (fill t).map (.table .defined)
  | some _ => none

/-- One more element of an array of tables. -/
def append? (fill : Table → Option Table) : Option Item → Option Item
  | none => (fill []).map fun t => .tables [t]
  | some (.tables ts) => (fill []).map fun t => .tables (ts ++ [t])
  | some _ => none

end Table

mutual

/-- The setting that an item amounts to. -/
def Item.setting : Item → Setting
  | .value v => v
  | .table _ members => .table (settings members)
  | .tables elements => .array (settingsList elements)

def settings : List (String × Item) → List (String × Setting)
  | [] => []
  | (key, item) :: rest => (key, item.setting) :: settings rest

def settingsList : List (List (String × Item)) → List Setting
  | [] => []
  | t :: ts => .table (settings t) :: settingsList ts

end

end Toml
end HeaderBinding
