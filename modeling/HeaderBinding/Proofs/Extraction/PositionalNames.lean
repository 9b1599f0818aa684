import Mathlib.Data.List.Nodup
import HeaderBinding.Proofs.Extraction.Content

/-!
# Names by position

A parameter or a field without a name is named by its position. Such names are distinct from
each other, but a programmer may use them as well: they are distinct from the names that are
written exactly if none of those is the name of a position that has none.
-/

namespace HeaderBinding

open Dump

namespace Extraction

/-!
# Written names
-/

/-- The name that is written for a member. An empty one is none. -/
def writtenName? (m : Option String × String) : Option String :=
  m.1.filter (· ≠ "")

def writtenNames (members : List (Option String × String)) : List String :=
  members.filterMap writtenName?

/-- The name of a position, counted from one. -/
def positionalName (stem : String) (index : Nat) : String :=
  stem ++ toString (index + 1)

/-- Whether the name of a position is written although the position has none. -/
def TakesPosition (stem : String) (members : List (Option String × String)) : Prop :=
  ∃ i < members.length, members[i]?.map writtenName? = some none ∧
    positionalName stem i ∈ writtenNames members

instance (stem : String) (members : List (Option String × String)) :
    Decidable (TakesPosition stem members) :=
  inferInstanceAs (Decidable (∃ i < members.length,
    members[i]?.map writtenName? = some none ∧ positionalName stem i ∈ writtenNames members))

theorem positionalName_injective {stem : String} {i j : Nat}
    (h : positionalName stem i = positionalName stem j) : i = j := by
  have hlist := congrArg String.toList h
  simp only [positionalName, String.toList_append] at hlist
  have hdigits : Nat.toDigits 10 (i + 1) = Nat.toDigits 10 (j + 1) := by
    simpa only [Nat.toString_eq_repr, Nat.toList_repr] using List.append_cancel_left hlist
  have hread := congrArg (fun digits => Nat.ofDigitChars 10 digits 0) hdigits
  simpa using hread

theorem mem_writtenNames_iff {members : List (Option String × String)} {name : String} :
    name ∈ writtenNames members ↔ ∃ j : Nat, members[j]?.map writtenName? = some (some name) := by
  constructor
  · intro h
    rcases List.mem_filterMap.mp h with ⟨m, hm, hname⟩
    rcases List.mem_iff_getElem?.mp hm with ⟨j, hj⟩
    exact ⟨j, by rw [hj, ← hname]; rfl⟩
  · intro h
    rcases h with ⟨j, hj⟩
    rcases Option.map_eq_some_iff.mp hj with ⟨m, hm, hname⟩
    exact List.mem_filterMap.mpr ⟨m, List.mem_of_getElem? hm, hname⟩

theorem takesPosition_of_written {stem : String} {members : List (Option String × String)}
    {i j : Nat} (hi : members[i]?.map writtenName? = some none)
    (hj : members[j]?.map writtenName? = some (some (positionalName stem i))) :
    TakesPosition stem members := by
  rcases Option.map_eq_some_iff.mp hi with ⟨m, hm, _⟩
  rcases List.getElem?_eq_some_iff.mp hm with ⟨hlt, _⟩
  exact ⟨i, hlt, hi, mem_writtenNames_iff.mpr ⟨j, hj⟩⟩

/-- Where written names are distinct, each is written at one position. -/
theorem eq_of_writtenName? {members : List (Option String × String)} {i j : Nat} {name : String}
    (h : (writtenNames members).Nodup)
    (hi : members[i]?.map writtenName? = some (some name))
    (hj : members[j]?.map writtenName? = some (some name)) : i = j := by
  have hpair := List.pairwise_iff_getElem.mp (List.pairwise_filterMap.mp h)
  rcases Option.map_eq_some_iff.mp hi with ⟨m, hm, hmname⟩
  rcases Option.map_eq_some_iff.mp hj with ⟨k, hk, hkname⟩
  rcases List.getElem?_eq_some_iff.mp hm with ⟨hilt, hmi⟩
  rcases List.getElem?_eq_some_iff.mp hk with ⟨hjlt, hkj⟩
  rw [← hmi] at hmname
  rw [← hkj] at hkname
  rcases Nat.lt_trichotomy i j with hij | hij | hij
  · exact absurd rfl (hpair i j hilt hjlt hij name hmname name hkname)
  · exact hij
  · exact absurd rfl (hpair j i hjlt hilt hij name hkname name hmname)

/-- Where no written name takes a position, two members of one name are the same one. -/
theorem eq_of_names {stem : String} {members : List (Option String × String)} {i j : Nat}
    {a b : Option String} (h : (writtenNames members).Nodup) (hfree : ¬TakesPosition stem members)
    (hi : members[i]?.map writtenName? = some a) (hj : members[j]?.map writtenName? = some b)
    (hname : a.getD (positionalName stem i) = b.getD (positionalName stem j)) : i = j := by
  cases a with
  | none =>
      cases b with
      | none =>
          exact positionalName_injective hname
      | some name =>
          have htaken : name = positionalName stem i := hname.symm
          rw [htaken] at hj
          exact absurd (takesPosition_of_written hi hj) hfree
  | some name =>
      cases b with
      | none =>
          have htaken : name = positionalName stem j := hname
          rw [htaken] at hi
          exact absurd (takesPosition_of_written hj hi) hfree
      | some other =>
          have hsame : name = other := hname
          rw [hsame] at hi
          exact eq_of_writtenName? h hi hj

/-!
# Names of members
-/

theorem getElem?_names (stem : String) (members : List (Option String × String)) (i : Nat) :
    ((typedNames stem members).map TypedName.name)[i]? =
      (members[i]?.map writtenName?).map fun name => name.getD (positionalName stem i) := by
  unfold typedNames
  rw [List.getElem?_map, List.getElem?_mapIdx, Option.map_map, Option.map_map]
  rfl

/-- Names are distinct exactly if no written one takes the position of a member without. -/
theorem nodup_names_iff {stem : String} {members : List (Option String × String)}
    (h : (writtenNames members).Nodup) :
    ((typedNames stem members).map TypedName.name).Nodup ↔ ¬TakesPosition stem members := by
  constructor
  · intro hnodup htakes
    rcases htakes with ⟨i, _, hi, hwritten⟩
    rcases mem_writtenNames_iff.mp hwritten with ⟨j, hj⟩
    have hinames := getElem?_names stem members i
    have hjnames := getElem?_names stem members j
    rw [hi] at hinames
    rw [hj] at hjnames
    rcases List.getElem?_eq_some_iff.mp hinames with ⟨hlt, _⟩
    have hij : i = j := (List.getElem?_inj hlt hnodup).mp (hinames.trans hjnames.symm)
    rw [hij, hj] at hi
    cases hi
  · intro hfree
    rw [List.nodup_iff_getElem?_ne_getElem?]
    intro i j hij hj hsame
    have hsecond := List.getElem?_eq_getElem hj
    have hfirst := hsame.trans hsecond
    rw [getElem?_names] at hfirst hsecond
    rcases Option.map_eq_some_iff.mp hfirst with ⟨a, ha, haname⟩
    rcases Option.map_eq_some_iff.mp hsecond with ⟨b, hb, hbname⟩
    exact Nat.ne_of_lt hij (eq_of_names h hfree ha hb (haname.trans hbname.symm))

/-!
# Functions and records
-/

theorem parameters_of_declaration? {n : Node} {f : Function}
    (h : declaration? n = some (.function f)) :
    f.parameters = typedNames "param" (n.children.filterMap parameter?) := by
  have hof : functionOf? n = some f := by
    rw [← (bind_category? n).1, h]
    rfl
  unfold functionOf? at hof
  split at hof
  next extent name type variadic implicit he =>
    rw [← Option.some.inj hof, function_eq]
  next =>
    cases hof

theorem fields_of_declaration? {n : Node} {r : Record} (h : declaration? n = some (.record r)) :
    r.fields = typedNames "field" (n.children.filterMap field?) := by
  rw [declaration?_eq] at h
  split at h
  next =>
    cases h
  next =>
    split at h
    · cases h
    · cases h
      rw [record_eq]
  next =>
    split at h
    · cases h
    · cases h
  next =>
    cases h
  next =>
    cases h
  next =>
    cases h

/-- Where the names that are written are distinct, those of the parameters of a function, and
of the fields of a record, are distinct unless a written one is that of a position without a
name. -/
theorem nodup_names_of_declaration? (n : Node) :
    (∀ f, declaration? n = some (.function f) →
      (writtenNames (n.children.filterMap parameter?)).Nodup →
      ((f.parameters.map TypedName.name).Nodup ↔
        ¬TakesPosition "param" (n.children.filterMap parameter?))) ∧
    (∀ r, declaration? n = some (.record r) →
      (writtenNames (n.children.filterMap field?)).Nodup →
      ((r.fields.map TypedName.name).Nodup ↔
        ¬TakesPosition "field" (n.children.filterMap field?))) := by
  constructor
  · intro f hf hwritten
    rw [parameters_of_declaration? hf]
    exact nodup_names_iff hwritten
  · intro r hr hwritten
    rw [fields_of_declaration? hr]
    exact nodup_names_iff hwritten

/-- A function and a union, each with names before, between and behind the unnamed. A written
name takes the position of a member that has a name itself. -/
theorem nodup_names_of_declaration?_mixed :
    let f := Sample.function "f" "void (int, int, int, int)"
      [ Sample.parameter "param3" "int", Sample.parameter none "int", Sample.parameter "a" "int",
        Sample.parameter "" "int" ]
    let u := Sample.record "u" "union" true
      [Sample.field none "int", Sample.field "field2" "int", Sample.field "field03" "int"]
    declaration? f = some (.function ⟨"f", .void,
        [⟨"param3", .i32⟩, ⟨"param2", .i32⟩, ⟨"a", .i32⟩, ⟨"param4", .i32⟩], false⟩) ∧
      declaration? u = some (.record ⟨"u",
        [⟨"field1", .i32⟩, ⟨"field2", .i32⟩, ⟨"field03", .i32⟩], true⟩) ∧
      (writtenNames (f.children.filterMap parameter?)).Nodup ∧
      (writtenNames (u.children.filterMap field?)).Nodup ∧
      ["param3", "param2", "a", "param4"].Nodup ∧ ["field1", "field2", "field03"].Nodup := by
  intro f u
  have hf : declaration? f = some (.function ⟨"f", .void,
      [⟨"param3", .i32⟩, ⟨"param2", .i32⟩, ⟨"a", .i32⟩, ⟨"param4", .i32⟩], false⟩) := by
    decide +kernel
  have hu : declaration? u = some (.record ⟨"u",
      [⟨"field1", .i32⟩, ⟨"field2", .i32⟩, ⟨"field03", .i32⟩], true⟩) := by
    decide +kernel
  have hparameters : (writtenNames (f.children.filterMap parameter?)).Nodup := by
    decide +kernel
  have hfields : (writtenNames (u.children.filterMap field?)).Nodup := by
    decide +kernel
  have hfreeParameters : ¬TakesPosition "param" (f.children.filterMap parameter?) := by
    decide +kernel
  have hfreeFields : ¬TakesPosition "field" (u.children.filterMap field?) := by
    decide +kernel
  refine ⟨hf, hu, hparameters, hfields, ?_, ?_⟩
  · exact ((nodup_names_of_declaration? f).1 _ hf hparameters).mpr hfreeParameters
  · exact ((nodup_names_of_declaration? u).2 _ hu hfields).mpr hfreeFields

/-- A parameter named after the position of an unnamed one, and a bit-field without a name
before a field named after its position. -/
theorem repeated_positional_names :
    let f := Sample.function "f" "void (int, int)"
      [Sample.parameter "param2" "int", Sample.parameter none "int"]
    let r := Sample.record "r" "struct" true
      [Sample.field none "int", Sample.field "field1" "int"]
    (writtenNames (f.children.filterMap parameter?)).Nodup ∧
      (writtenNames (r.children.filterMap field?)).Nodup ∧
      declaration? f = some (.function ⟨"f", .void,
        [⟨"param2", .i32⟩, ⟨"param2", .i32⟩], false⟩) ∧
      declaration? r = some (.record ⟨"r", [⟨"field1", .i32⟩, ⟨"field1", .i32⟩], false⟩) ∧
      ¬["param2", "param2"].Nodup ∧ ¬["field1", "field1"].Nodup := by
  decide +kernel

end Extraction
end HeaderBinding
