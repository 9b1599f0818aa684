import HeaderBinding.Decimal.Integer
import HeaderBinding.Settings.Setting

/-!
# Paths to settings

A path leads from a name through the keys of tables and the indices of arrays.
Setting at a path makes a table or an array of whatever is in its way.
-/

namespace HeaderBinding

inductive KeyStep where
  | key (name : String)
  | index (position : Int)
  deriving DecidableEq, Repr

structure KeyPath where
  root : String
  steps : List KeyStep
  deriving DecidableEq, Repr

namespace KeyPath

def ofName (name : String) : KeyPath :=
  ⟨name, []⟩

/-!
# Reading a path

Names are of ASCII letters, digits, `_` and `-`. Blanks may surround an index.
-/

def isNameChar (c : Char) : Bool :=
  c.isAlphanum || c == '_' || c == '-'

def isSpace (c : Char) : Bool :=
  c == ' ' || c == '\t'

/-- Takes a name off the front. -/
def takeName? (s : List Char) : Option (String × List Char) :=
  match s.takeWhile isNameChar with
  | [] => none
  | name => some (String.ofList name, s.dropWhile isNameChar)

/-- The index between brackets. An index is a machine word with a sign. -/
def index? (s : List Char) : Option Int :=
  let s := (s.dropWhile isSpace).reverse
  let s := (s.dropWhile isSpace).reverse
  if s.head? = some '+' then none else Decimal.boundedInteger? 64 s

theorem length_takeName?_lt {s rest : List Char} {name : String}
    (h : takeName? s = some (name, rest)) : rest.length < s.length := by
  cases s with
  | nil =>
      simp [takeName?] at h
  | cons c s =>
      by_cases hc : isNameChar c
      · have hle := (List.dropWhile_sublist isNameChar (l := s)).length_le
        simp only [takeName?, List.takeWhile_cons, List.dropWhile_cons, hc, if_true,
          Option.some.injEq, Prod.mk.injEq] at h
        rw [← h.2, List.length_cons]
        omega
      · simp [takeName?, hc] at h

def steps? (s : List Char) : Option (List KeyStep) :=
  match s with
  | [] => some []
  | '.' :: rest =>
      match _h : takeName? rest with
      | some (name, rest) => (steps? rest).map (.key name :: ·)
      | none => none
  | '[' :: rest =>
      match _h : rest.dropWhile (· ≠ ']') with
      | ']' :: behind =>
          match index? (rest.takeWhile (· ≠ ']')) with
          | some position => (steps? behind).map (.index position :: ·)
          | none => none
      | _ => none
  | _ => none
termination_by s.length
decreasing_by
  · have := length_takeName?_lt _h
    simp only [List.length_cons]
    omega
  · have hle := (List.dropWhile_sublist (· ≠ ']') (l := rest)).length_le
    rw [_h] at hle
    simp only [List.length_cons] at hle ⊢
    omega

def ofText? (text : String) : Option KeyPath :=
  match takeName? text.toList with
  | some (root, rest) => (steps? rest).map fun steps => ⟨root, steps⟩
  | none => none

/-!
# Setting at a path
-/

/-- Changes an item of an array. A negative index counts from the end. The array
grows by nulls up to the index, at whichever end it lies. -/
def alterItem (items : List Setting) (position : Int) (f : Setting → Setting) :
    List Setting :=
  let place := if position < 0 then items.length + position else position
  if place < 0 then
    match List.replicate (-place).toNat .null ++ items with
    | [] => []
    | first :: rest => f first :: rest
  else
    let n := place.toNat
    let grown := items ++ List.replicate (n + 1 - items.length) .null
    grown.modify n f

/-- Changes what a path leads to, below a setting. -/
def alterAt (f : Setting → Setting) : List KeyStep → Setting → Setting
  | [], v => f v
  | .key name :: steps, v => .table (v.members.alter name (alterAt f steps))
  | .index position :: steps, v => .array (alterItem v.items position (alterAt f steps))

def set (p : KeyPath) (value : Setting) (t : SettingTable) : SettingTable :=
  t.alter p.root (alterAt (fun old => old.replace value) p.steps)

end KeyPath
end HeaderBinding
