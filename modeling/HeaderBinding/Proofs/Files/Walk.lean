import HeaderBinding.Proofs.Files.Growth

/-!
# Where walks lead

A walk goes on where an earlier one ended. It passes through directories and links, and
so what stands at a place that has nothing or a file matters to it only if it ends there.
-/

namespace HeaderBinding
namespace Files

open Except (ok error)

namespace Store

/-!
# Stores that agree but for one place
-/

/-- Two stores that differ at one place at most. -/
structure AgreeBut (p : Place) (s t : Store) : Prop where
  current : t.current = s.current
  entries : ∀ q, q ≠ p → t.lookup q = s.lookup q

/-- Whether a place has neither a directory nor a link. -/
def IsEnd (s : Store) (p : Place) : Prop :=
  s.lookup p = none ∨ ∃ text, s.lookup p = some (.file text)

theorem AgreeBut.symm {p : Place} {s t : Store} (h : AgreeBut p s t) : AgreeBut p t s := by
  constructor
  · exact h.current.symm
  · exact fun q hq => (h.entries q hq).symm

theorem AgreeBut.trans {p : Place} {s t u : Store} (hst : AgreeBut p s t)
    (htu : AgreeBut p t u) : AgreeBut p s u := by
  constructor
  · exact htu.current.trans hst.current
  · exact fun q hq => (htu.entries q hq).trans (hst.entries q hq)

@[simp]
theorem current_remove (s : Store) (p : Place) : (s.remove p).current = s.current :=
  rfl

@[simp]
theorem lookup_remove_of_ne (s : Store) {p q : Place} (h : q ≠ p) :
    (s.remove p).lookup q = s.lookup q := by
  cases q with
  | nil =>
      rfl
  | cons name names =>
      exact lookup_filter_ne s.entries h

theorem agreeBut_insert (s : Store) (p : Place) (entry : Entry) :
    AgreeBut p s (s.insert p entry) := by
  constructor
  · simp
  · intro q hq
    simp [hq]

theorem agreeBut_remove (s : Store) (p : Place) : AgreeBut p s (s.remove p) := by
  constructor
  · simp
  · intro q hq
    simp [hq]

theorem isEnd_remove (s : Store) {p : Place} (hp : p ≠ []) : (s.remove p).IsEnd p := by
  cases p with
  | nil =>
      exact absurd rfl hp
  | cons name names =>
      refine Or.inl (List.lookup_eq_none_iff.mpr fun e he => bne_iff_ne.mpr fun heq => ?_)
      exact of_decide_eq_true (List.mem_filter.mp he).2 heq.symm

theorem isEnd_or_link {s : Store} {p : Place} (h : s.isDirectory p = false) :
    s.IsEnd p ∨ ∃ target, s.lookup p = some (.link target) := by
  cases hp : s.lookup p with
  | none =>
      exact Or.inl (Or.inl hp)
  | some e =>
      cases e with
      | directory =>
          simp [isDirectory, hp] at h
      | file text =>
          exact Or.inl (Or.inr ⟨text, hp⟩)
      | link target =>
          exact Or.inr ⟨target, rfl⟩

theorem IsEnd.ne_of_isDirectory {s : Store} {p q : Place} (hp : s.IsEnd p)
    (hq : s.isDirectory q = true) : q ≠ p := by
  rintro rfl
  have hdirectory := isDirectory_iff.mp hq
  rcases hp with hnone | ⟨text, hfile⟩
  · rw [hnone] at hdirectory
    cases hdirectory
  · rw [hfile] at hdirectory
    cases hdirectory

theorem AgreeBut.isDirectory {p q : Place} {s t : Store} (h : AgreeBut p s t)
    (hp : s.IsEnd p) (hq : s.isDirectory q = true) : t.isDirectory q = true := by
  rw [isDirectory_iff, h.entries q (hp.ne_of_isDirectory hq)]
  exact isDirectory_iff.mp hq

section Agreeing

variable {p q : Place} {s t : Store}

theorem advance_of_agreeBut (h : AgreeBut p s t) (hp : s.IsEnd p) (hq : q ≠ p)
    {follow follow' : Place → List String → Except OsError Found} {place : Place}
    {path : List String}
    (hfollow : ∀ place path, follow place path = ok (.present q) →
      follow' place path = ok (.present q))
    (hwalk : s.advance follow place path = ok (.present q)) :
    t.advance follow' place path = ok (.present q) := by
  fun_induction s.advance follow place path with
  | case1 place =>
      exact hwalk
  | case2 =>
      cases hwalk
  | case3 place rest hplace ih =>
      rw [advance_dot (h.isDirectory hp (Decidable.not_not.mp hplace))]
      exact ih hwalk
  | case4 place rest hplace hdot ih =>
      rw [advance_up (h.isDirectory hp (Decidable.not_not.mp hplace))]
      exact ih hwalk
  | case5 =>
      cases hwalk
  | case6 =>
      cases hwalk
  | case7 place step rest hplace hdot hup next hnext ih =>
      have hnext' := h.isDirectory hp (isDirectory_iff.mpr hnext)
      rw [advance_directory (h.isDirectory hp (Decidable.not_not.mp hplace)) hdot hup
        (isDirectory_iff.mp hnext')]
      exact ih hwalk
  | case8 place step rest hplace hdot hup next text hnext ih =>
      -- A walk through the file would have to end there.
      have hne : next ≠ p := by
        rintro rfl
        cases rest with
        | nil =>
            rw [advance] at hwalk
            exact hq (Found.present.inj (Except.ok.inj hwalk)).symm
        | cons step' rest =>
            have hfile : ¬s.isDirectory next = true := by simp [hnext]
            rw [advance_blocked hfile] at hwalk
            cases hwalk
      rw [advance_file (h.isDirectory hp (Decidable.not_not.mp hplace)) hdot hup
        ((h.entries next hne).trans hnext)]
      exact ih hwalk
  | case9 place step rest hplace hdot hup next target hnext =>
      have hne : next ≠ p := by
        rintro rfl
        rcases hp with hnone | ⟨text, hfile⟩
        · rw [hnone] at hnext
          cases hnext
        · rw [hfile] at hnext
          cases hnext
      rw [advance_link (h.isDirectory hp (Decidable.not_not.mp hplace)) hdot hup
        ((h.entries next hne).trans hnext)]
      exact hfollow _ _ hwalk

/-- A walk that ends elsewhere does not depend on a place where no walk goes on. -/
theorem walk_of_agreeBut (h : AgreeBut p s t) (hp : s.IsEnd p) (hq : q ≠ p) {links : Nat}
    {place : Place} {path : List String}
    (hwalk : s.walk links place path = ok (.present q)) :
    t.walk links place path = ok (.present q) := by
  induction links generalizing place path with
  | zero =>
      apply advance_of_agreeBut h hp hq _ hwalk
      rintro _ _ ⟨⟩
  | succ links ih =>
      exact advance_of_agreeBut h hp hq (fun _ _ => ih) hwalk

end Agreeing

/-!
# Walks that go on
-/

theorem advance_append {s : Store} {follow : Place → List String → Except OsError Found}
    {place q : Place} {front tail : List String} {found : Found}
    (hfollow : ∀ place path, follow place path = ok (.present q) →
      follow place (path ++ tail) = ok found)
    (htail : s.advance follow q tail = ok found)
    (h : s.advance follow place front = ok (.present q)) :
    s.advance follow place (front ++ tail) = ok found := by
  fun_induction s.advance follow place front with
  | case1 place =>
      cases h
      exact htail
  | case2 =>
      cases h
  | case3 place rest hplace ih =>
      rw [List.cons_append, advance_dot (Decidable.not_not.mp hplace)]
      exact ih h
  | case4 place rest hplace hdot ih =>
      rw [List.cons_append, advance_up (Decidable.not_not.mp hplace)]
      exact ih h
  | case5 =>
      cases h
  | case6 =>
      cases h
  | case7 place step rest hplace hdot hup next hnext ih =>
      rw [List.cons_append, advance_directory (Decidable.not_not.mp hplace) hdot hup hnext]
      exact ih h
  | case8 place step rest hplace hdot hup next text hnext ih =>
      rw [List.cons_append, advance_file (Decidable.not_not.mp hplace) hdot hup hnext]
      exact ih h
  | case9 place step rest hplace hdot hup next target hnext =>
      rw [List.cons_append, advance_link (Decidable.not_not.mp hplace) hdot hup hnext,
        ← List.append_assoc]
      exact hfollow _ _ h

/-- A walk goes on where an earlier one ended, if no more links are to be followed. -/
theorem walk_append {s : Store} {links : Nat} {place q : Place} {front tail : List String}
    {found : Found} (htail : ∀ follow, s.advance follow q tail = ok found)
    (h : s.walk links place front = ok (.present q)) :
    s.walk links place (front ++ tail) = ok found := by
  induction links generalizing place front with
  | zero =>
      apply advance_append _ (htail _) h
      rintro _ _ ⟨⟩
  | succ links ih =>
      exact advance_append (fun _ _ => ih) (htail _) h

/-!
# The place that a path names
-/

/-- A path names a place in the directory that all its pieces but the last lead to. -/
theorem entryPlace_eq_ok {s : Store} {onDot : OsError} {path : String} {p : Place} :
    s.entryPlace onDot path = ok p ↔ ∃ front last parent, pieces path = front ++ [last] ∧
      s.walk linkLimit (s.origin path) front = ok (.present parent) ∧
      s.isDirectory parent = true ∧ last ≠ "." ∧ last ≠ ".." ∧ p = parent ++ [last] := by
  constructor
  · intro h
    unfold entryPlace at h
    split at h
    · cases h
    next last front hpieces =>
      have hpath : pieces path = front.reverse ++ [last] := by
        rw [← List.reverse_cons, ← hpieces, List.reverse_reverse]
      split at h
      · cases h
      · cases h
      next parent hwalk =>
        split at h
        · cases h
        next hparent =>
          split at h
          · cases h
          next hlast =>
            cases h
            rcases not_or.mp hlast with ⟨hdot, hup⟩
            exact ⟨front.reverse, last, parent, hpath, hwalk, Decidable.not_not.mp hparent,
              hdot, hup, rfl⟩
  · rintro ⟨front, last, parent, hpath, hwalk, hparent, hdot, hup, rfl⟩
    unfold entryPlace
    rw [hpath, List.reverse_concat]
    simp [hwalk, hparent, hdot, hup]

theorem entryPlace_of_agreeBut {p q : Place} {s t : Store} (h : AgreeBut p s t)
    (hp : s.IsEnd p) {onDot : OsError} {path : String}
    (hq : s.entryPlace onDot path = ok q) : t.entryPlace onDot path = ok q := by
  rcases entryPlace_eq_ok.mp hq with
    ⟨front, last, parent, hpath, hwalk, hparent, hdot, hup, rfl⟩
  have hwalk' := walk_of_agreeBut h hp (hp.ne_of_isDirectory hparent) hwalk
  unfold origin at hwalk'
  rw [← h.current] at hwalk'
  exact entryPlace_eq_ok.mpr ⟨front, last, parent, hpath, hwalk', h.isDirectory hp hparent,
    hdot, hup, rfl⟩

/-- Where the place that a path names has no link, the path leads there. -/
theorem locate_of_entryPlace {s : Store} {onDot : OsError} {path : String} {p : Place}
    (h : s.entryPlace onDot path = ok p)
    (hp : s.isDirectory p = true ∨
      endsInSlash path = false ∧ ∃ text, s.lookup p = some (.file text)) :
    s.locate path = ok p := by
  rcases entryPlace_eq_ok.mp h with
    ⟨front, last, parent, hpath, hwalk, hparent, hdot, hup, rfl⟩
  have hne : path ≠ "" := by
    rintro rfl
    have hnone : pieces "" = [] := by decide
    rw [hnone] at hpath
    exact absurd hpath.symm (List.append_ne_nil_of_right_ne_nil _ (List.cons_ne_nil _ _))
  have htail : ∀ follow,
      s.advance follow parent (last :: if endsInSlash path then ["."] else []) =
        ok (.present (parent ++ [last])) := by
    intro follow
    rcases hp with hdirectory | ⟨hslash, text, hfile⟩
    · rw [advance_directory hparent hdot hup (isDirectory_iff.mp hdirectory)]
      split
      · rw [advance_dot hdirectory]
        rfl
      · rfl
    · rw [hslash, advance_file hparent hdot hup hfile]
      rfl
  apply locate_eq_ok.mpr
  unfold find steps
  rw [if_neg hne, hpath, List.append_assoc]
  exact walk_append htail hwalk

/-!
# Directories on the way
-/

/-- A store that has new directories, each being where one of some paths leads. -/
def MadeAlong (paths : List String) (s t : Store) : Prop :=
  ∀ p, t.lookup p = s.lookup p ∨ s.lookup p = none ∧ t.lookup p = some .directory ∧
    ∃ path ∈ paths, t.locate path = ok p

theorem MadeAlong.refl (paths : List String) (s : Store) : MadeAlong paths s s :=
  fun _ => Or.inl rfl

theorem MadeAlong.trans {paths paths' more : List String} {s t u : Store}
    (hst : MadeAlong paths s t) (htu : MadeAlong paths' t u) (hkeeps : t.Keeps u)
    (hpaths : paths ⊆ more) (hpaths' : paths' ⊆ more) : MadeAlong more s u := by
  intro p
  rcases htu p with hsame | ⟨hnone, hdirectory, path, hpath, hlocate⟩
  · rw [hsame]
    rcases hst p with hold | ⟨hnone, hdirectory, path, hpath, hlocate⟩
    · exact Or.inl hold
    · exact Or.inr ⟨hnone, hdirectory, path, hpaths hpath, locate_of_keeps hkeeps hlocate⟩
  · rcases hst p with hold | ⟨_, hdirectory', _⟩
    · exact Or.inr ⟨hold ▸ hnone, hdirectory, path, hpaths' hpath, hlocate⟩
    · rw [hdirectory'] at hnone
      cases hnone

theorem madeAlong_of_makeDirectory {s t : Store} {path : String}
    (h : s.makeDirectory path = ok t) : MadeAlong [path] s t := by
  have hgrows := grows_of_makeDirectory h
  unfold makeDirectory at h
  split at h
  · cases h
  next place hplace =>
    split at h
    · cases h
    next hnone =>
      cases h
      have hne := (dropLast_of_entryPlace hplace).1
      have hself := lookup_insert_self s place .directory hne
      have hplace' := entryPlace_of_agreeBut (agreeBut_insert s place .directory)
        (Or.inl hnone) hplace
      have hlocate := locate_of_entryPlace hplace' (Or.inl (isDirectory_iff.mpr hself))
      intro p
      by_cases hp : p = place
      · subst hp
        exact Or.inr ⟨hnone, hself, path, List.mem_cons_self, hlocate⟩
      · exact Or.inl (by simp [hp])

theorem madeAlong_makeDirectories (s : Store) (paths : List String) :
    MadeAlong paths s (s.makeDirectories paths).1 := by
  induction paths generalizing s with
  | nil =>
      exact MadeAlong.refl [] s
  | cons path above ih =>
      have hhere : [path] ⊆ path :: above := List.cons_subset_cons path (List.nil_subset above)
      have hthere : above ⊆ path :: above := List.subset_cons_self path above
      have habove := ih s
      have hself := MadeAlong.refl above s
      rw [makeDirectories]
      simp only
      split
      · split
        next u hu =>
          rw [hu] at habove
          split
          next t ht =>
            exact habove.trans (madeAlong_of_makeDirectory ht)
              (grows_of_makeDirectory ht).keeps hthere hhere
          next =>
            exact habove.trans (MadeAlong.refl above u) (Keeps.refl u) hthere hthere
        next u e hu =>
          rw [hu] at habove
          exact habove.trans (MadeAlong.refl above u) (Keeps.refl u) hthere hthere
      · split
        next t ht =>
          exact hself.trans (madeAlong_of_makeDirectory ht)
            (grows_of_makeDirectory ht).keeps hthere hhere
        next =>
          exact MadeAlong.refl _ s

end Store
end Files
end HeaderBinding
