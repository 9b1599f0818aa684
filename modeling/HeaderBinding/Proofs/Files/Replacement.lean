import HeaderBinding.Proofs.Files.Walk

/-!
# Replacing a file

The file that is to take the place of another one is finished under a name that nothing
has. When it cannot be moved to where it belongs, nothing is left of it; when it can,
only the entry that it takes the place of has changed.
-/

namespace HeaderBinding
namespace Files

open Except (ok error)

namespace Store

/-!
# Names that nothing has
-/

theorem lt_length_temporaryName {s : Store} {name : String} (path : String)
    {e : Place × Entry} (he : e ∈ s.entries) (hname : name ∈ textsOf e) :
    name.length < (s.temporaryName path).length := by
  have hused : name ∈ path :: s.entries.flatMap textsOf :=
    List.mem_cons_of_mem path (List.mem_flatMap.mpr ⟨e, he, hname⟩)
  have hchars : name.toList ∈ (path :: s.entries.flatMap textsOf).map String.toList :=
    List.mem_map_of_mem hused
  have hle := (List.sublist_flatten_of_mem hchars).length_le
  rw [String.length_toList] at hle
  unfold temporaryName
  rw [String.length_append]
  refine Nat.lt_of_le_of_lt (Nat.le_trans hle (Nat.le_of_eq ?_))
    (Nat.lt_add_of_pos_left (by decide))
  rw [String.length_ofList, List.length_map]

theorem subset_textsOf (e : Place × Entry) : e.1 ⊆ textsOf e := by
  rcases e with ⟨p, _ | _ | target⟩
  · exact List.Subset.refl p
  · exact List.Subset.refl p
  · exact List.subset_cons_self target p

theorem ne_temporary {s : Store} (directory : Place) (path : String) {e : Place × Entry}
    (he : e ∈ s.entries) : e.1 ≠ directory ++ [s.temporaryName path] := by
  intro heq
  have hname : s.temporaryName path ∈ e.1 := by
    rw [heq]
    exact List.mem_append_right _ List.mem_cons_self
  exact Nat.lt_irrefl _ (lt_length_temporaryName path he (subset_textsOf e hname))

/-- Taking away an entry that was put where none was restores a store. -/
theorem remove_insert {s : Store} {p : Place} (entry : Entry) (h : ∀ e ∈ s.entries, e.1 ≠ p) :
    (s.insert p entry).remove p = s := by
  have hfilter : s.entries.filter (·.1 ≠ p) = s.entries :=
    List.filter_eq_self.mpr fun e he => decide_eq_true (h e he)
  unfold insert remove
  simp only [List.filter_cons, hfilter]
  simp

/-!
# Failing to replace
-/

/-- A file that cannot be replaced leaves no trace of the new one. -/
theorem replace_error {s t : Store} {path text : String} {e : OsError}
    (h : s.replace path text = (t, error e)) : t = s := by
  unfold replace at h
  split at h
  · cases h
    rfl
  next directory _ =>
    simp only at h
    split at h
    · cases h
      exact remove_insert (.file text) fun e he => ne_temporary directory path he
    · cases h

/-!
# Succeeding to replace
-/

theorem lookup_temporary (s : Store) (directory : Place) (path : String) :
    s.lookup (directory ++ [s.temporaryName path]) = none := by
  cases h : s.lookup (directory ++ [s.temporaryName path]) with
  | none =>
      rfl
  | some entry =>
      have hplace : directory ++ [s.temporaryName path] ≠ [] := by simp
      have hmem : (directory ++ [s.temporaryName path], entry) ∈ s.entries := by
        unfold lookup at h
        split at h
        next hnil =>
          exact absurd hnil hplace
        · rcases List.lookup_eq_some_iff.mp h with ⟨front, back, hentries, _⟩
          rw [hentries]
          exact List.mem_append_right front List.mem_cons_self
      exact absurd rfl (ne_temporary directory path hmem)

theorem move_ok {s t : Store} {source : Place} {path : String} (h : s.move source path = ok t) :
    ∃ p entry, s.entryPlace .busy path = ok p ∧ endsInSlash path = false ∧
      s.isDirectory p = false ∧ s.lookup source = some entry ∧
      t = (s.remove source).insert p entry := by
  unfold move at h
  split at h
  · cases h
  next p hp =>
    split at h
    · cases h
    next hslash =>
      split at h
      · cases h
      next hdirectory =>
        split at h
        · cases h
        next entry hentry =>
          cases h
          exact ⟨p, entry, hp, Bool.eq_false_iff.mpr hslash, Bool.eq_false_iff.mpr hdirectory,
            hentry, rfl⟩

/-- What replaces an entry takes exactly its place, even if that is a link. -/
theorem replace_ok {s t : Store} {path text : String} (h : s.replace path text = (t, ok ())) :
    ∃ p, s.entryPlace .busy path = ok p ∧ endsInSlash path = false ∧
      s.isDirectory p = false ∧ t = s.insert p (.file text) := by
  unfold replace at h
  split at h
  · cases h
  next directory _ =>
    simp only at h
    split at h
    · cases h
    next u hmove =>
      cases h
      rcases move_ok hmove with ⟨p, entry, hp, hslash, hdirectory, hentry, rfl⟩
      have hnone := lookup_temporary s directory path
      have hplace : directory ++ [s.temporaryName path] ≠ [] := by simp
      have hself := lookup_insert_self s _ (.file text) hplace
      have hagree := (agreeBut_insert s (directory ++ [s.temporaryName path]) (.file text)).symm
      refine ⟨p, entryPlace_of_agreeBut hagree (Or.inr ⟨text, hself⟩) hp, hslash, ?_, ?_⟩
      · rw [Bool.eq_false_iff, Ne, isDirectory_iff]
        intro hold
        have hne : p ≠ directory ++ [s.temporaryName path] := by
          rintro rfl
          rw [hnone] at hold
          cases hold
        rw [Bool.eq_false_iff, Ne, isDirectory_iff, lookup_insert_of_ne _ _ hne] at hdirectory
        exact hdirectory hold
      · rw [hself] at hentry
        cases hentry
        rw [remove_insert (.file text) fun e he => ne_temporary directory path he]

end Store
end Files
end HeaderBinding
