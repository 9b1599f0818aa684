import HeaderBinding.Proofs.Extraction.Content

/-!
# Entries of a binding

All declarations of a binding in one list, with the names and the types in them. What an
extraction holds is read off nodes of the header, so its types are meanings of spellings,
but for the `int` of an enumeration that fixes no type.
-/

namespace HeaderBinding

open Dump Text

/-- The names in a declaration, its own and those of its members. -/
def Declaration.names : Declaration → List String
  | function f => f.name :: f.parameters.map TypedName.name
  | record r => r.name :: r.fields.map TypedName.name
  | enumeration e => e.name :: e.values.map Enumerator.name
  | typedef t => [t.name]
  | global g => [g.name]

namespace Declarations

def entries (d : Declarations) : List Declaration :=
  (d.structs ++ d.unions).map .record ++ d.enums.map .enumeration ++
    d.typedefs.map .typedef ++ d.globals.map .global ++ d.functions.map .function

def names (d : Declarations) : List String :=
  d.entries.flatMap Declaration.names

def types (d : Declarations) : List ForeignType :=
  d.entries.flatMap Declaration.types

end Declarations

/-!
# Entries and nodes
-/

namespace Declarations

theorem mem_of_mem_category {α : Type} {name : α → String} {of? : Declaration → Option α}
    {entry : α → Declaration} (hof : ∀ {d a}, of? d = some a → d = entry a)
    {ds : List Declaration} {x : Declaration}
    (h : x ∈ (sortNamed name (ds.filterMap of?)).map entry) : x ∈ ds := by
  rcases List.mem_map.mp h with ⟨a, ha, rfl⟩
  rcases mem_sortNamed.mp ha with ⟨front, back, hsplit, _⟩
  have hmem : a ∈ ds.filterMap of? := by
    simp [hsplit]
  rcases List.mem_filterMap.mp hmem with ⟨d, hd, hda⟩
  rwa [← hof hda]

theorem mem_of_mem_entries_ofList {ds : List Declaration} {x : Declaration}
    (h : x ∈ (ofList ds).entries) : x ∈ ds := by
  simp only [entries, List.map_append, List.mem_append] at h
  rcases h with ((((hstruct | hunion) | henum) | htypedef) | hglobal) | hfunction
  · exact mem_of_mem_category Declaration.eq_record_of_struct? hstruct
  · exact mem_of_mem_category Declaration.eq_record_of_union? hunion
  · exact mem_of_mem_category Declaration.eq_enumeration_of_enumeration? henum
  · exact mem_of_mem_category Declaration.eq_typedef_of_typedef? htypedef
  · exact mem_of_mem_category Declaration.eq_global_of_global? hglobal
  · exact mem_of_mem_category Declaration.eq_function_of_function? hfunction

end Declarations

/-!
# Where types come from
-/

namespace Extraction

/-- What the types of a binding are: a spelling's, or that of an enumeration that fixes
none. -/
def IsMapped (t : ForeignType) : Prop :=
  (∃ spelling, t = .ofSpelling spelling) ∨ t = .i32

theorem isMapped_of_mem_typedNames {stem : String} {members : List (Option String × String)}
    {t : ForeignType} (h : t ∈ (typedNames stem members).map TypedName.type) : IsMapped t := by
  rcases List.mem_map.mp h with ⟨m, hm, rfl⟩
  rcases List.mem_mapIdx.mp hm with ⟨i, hi, rfl⟩
  exact Or.inl ⟨_, rfl⟩

theorem isMapped_of_declaration? {n : Node} {d : Declaration} (h : declaration? n = some d)
    {t : ForeignType} (ht : t ∈ d.types) : IsMapped t := by
  rw [declaration?_eq] at h
  split at h
  · cases h
    rw [function_eq] at ht
    rcases List.mem_append.mp ht with hparameter | hreturned
    · exact isMapped_of_mem_typedNames hparameter
    · rw [List.mem_singleton.mp hreturned]
      exact Or.inl ⟨_, rfl⟩
  · split at h
    · cases h
    · cases h
      rw [record_eq] at ht
      exact isMapped_of_mem_typedNames ht
  · split at h
    · cases h
    · cases h
      rw [List.mem_singleton.mp ht, enumeration_eq]
      dsimp only
      split
      · exact Or.inl ⟨_, rfl⟩
      · exact Or.inr rfl
  · cases h
    rw [List.mem_singleton.mp ht]
    exact Or.inl ⟨_, rfl⟩
  · cases h
    rw [List.mem_singleton.mp ht]
    exact Or.inl ⟨_, rfl⟩
  · cases h

end Extraction

namespace HeaderScope

open Extraction

theorem exists_declaration?_of_extract {scope : HeaderScope} {root : Node} {d : Declarations}
    (h : scope.extract root = .ok d) {x : Declaration} (hx : x ∈ d.entries) :
    ∃ n ∈ scope.declarations root, declaration? n = some x := by
  rw [eq_ofList_of_extract h] at hx
  exact List.mem_filterMap.mp (Declarations.mem_of_mem_entries_ofList hx)

theorem isMapped_of_extract {scope : HeaderScope} {root : Node} {d : Declarations}
    (h : scope.extract root = .ok d) {t : ForeignType} (ht : t ∈ d.types) : IsMapped t := by
  rcases List.mem_flatMap.mp ht with ⟨x, hx, htx⟩
  rcases exists_declaration?_of_extract h hx with ⟨n, _, hn⟩
  exact isMapped_of_declaration? hn htx

end HeaderScope
end HeaderBinding
