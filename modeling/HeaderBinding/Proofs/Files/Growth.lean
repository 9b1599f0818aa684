import HeaderBinding.Files.Change

/-!
# Stores that grow

An import makes directories where nothing was and writes files where no directory or
link was. Whatever else is in a store stays, and so a path that led somewhere still
leads there.
-/

namespace HeaderBinding
namespace Files

open Except (ok error)

/-!
# Steps of a path
-/

theorem splitAtEach_ne_nil (separator : Char) (s : List Char) :
    splitAtEach separator s ≠ [] := by
  induction s with
  | nil =>
      simp [splitAtEach]
  | cons c s ih =>
      unfold splitAtEach
      split
      · simp
      · cases hs : splitAtEach separator s with
        | nil =>
            exact absurd hs ih
        | cons piece pieces =>
            simp

theorem exists_mem_splitAtEach {separator c : Char} {s : List Char} (hc : c ∈ s)
    (hne : c ≠ separator) : ∃ piece ∈ splitAtEach separator s, piece ≠ [] := by
  induction s with
  | nil =>
      cases hc
  | cons d s ih =>
      unfold splitAtEach
      split
      next hd =>
        rcases List.mem_cons.mp hc with rfl | hs
        · exact absurd hd hne
        · rcases ih hs with ⟨piece, hpiece, hfull⟩
          exact ⟨piece, List.mem_cons_of_mem _ hpiece, hfull⟩
      · cases hs : splitAtEach separator s with
        | nil =>
            exact absurd hs (splitAtEach_ne_nil separator s)
        | cons piece pieces =>
            exact ⟨d :: piece, List.mem_cons_self, List.cons_ne_nil d piece⟩

theorem steps_ne_nil {path : String} (h : path ≠ "") : steps path ≠ [] := by
  unfold steps
  by_cases hslash : endsInSlash path = true
  · rw [if_pos hslash]
    simp
  · cases hlast : path.toList.getLast? with
    | none =>
        have hnil := List.getLast?_eq_none_iff.mp hlast
        exact absurd (String.toList_inj.mp hnil) h
    | some c =>
        have hc : c ≠ '/' := by
          rintro rfl
          unfold endsInSlash at hslash
          rw [hlast] at hslash
          exact hslash rfl
        rcases exists_mem_splitAtEach (List.mem_of_getLast? hlast) hc with ⟨piece, hpiece, hfull⟩
        have hmem : String.ofList piece ∈ pieces path := by
          unfold pieces
          exact List.mem_map_of_mem (List.mem_filter.mpr ⟨hpiece, decide_eq_true hfull⟩)
        exact List.ne_nil_of_mem (List.mem_append_left _ hmem)

/-- What paths that lead through an entry depend on. -/
def Entry.withoutText : Entry → Entry
  | .directory => .directory
  | .file _ => .file ""
  | .link target => .link target

namespace Store

/-- Every entry is in a directory. -/
def WellFormed (s : Store) : Prop :=
  ∀ p e, s.lookup p = some e → s.isDirectory p.dropLast = true

/-- What is in one store is in another one, but for the texts of files. -/
structure Keeps (s t : Store) : Prop where
  current : t.current = s.current
  entries : ∀ p e, s.lookup p = some e → ∃ e', t.lookup p = some e' ∧ e'.withoutText = e.withoutText

/-- Two stores that differ in directories that only one of them has. -/
structure Grows (s t : Store) : Prop where
  current : t.current = s.current
  entries : ∀ p, t.lookup p = s.lookup p ∨ s.lookup p = none ∧ t.lookup p = some .directory
  inside : ∀ p, s.lookup p = none → t.lookup p = some .directory →
    t.isDirectory p.dropLast = true

theorem wellFormed_of_entries {s : Store}
    (h : ∀ e ∈ s.entries, s.isDirectory e.1.dropLast = true) : s.WellFormed := by
  intro p e hp
  cases p with
  | nil =>
      rfl
  | cons name names =>
      rcases List.lookup_eq_some_iff.mp hp with ⟨front, back, hentries, _⟩
      apply h (name :: names, e)
      rw [hentries]
      exact List.mem_append_right front List.mem_cons_self

/-!
# Order of stores
-/

theorem Keeps.refl (s : Store) : s.Keeps s := by
  constructor
  · rfl
  · intro p e h
    exact ⟨e, h, rfl⟩

theorem Keeps.trans {s t u : Store} (hst : s.Keeps t) (htu : t.Keeps u) : s.Keeps u := by
  constructor
  · rw [htu.current, hst.current]
  · intro p e h
    rcases hst.entries p e h with ⟨e', h', hlike⟩
    rcases htu.entries p e' h' with ⟨e'', h'', hlike'⟩
    exact ⟨e'', h'', hlike'.trans hlike⟩

section Keeps

variable {s t : Store} {p : Place}

theorem Keeps.lookup_directory (h : s.Keeps t) (hp : s.lookup p = some .directory) :
    t.lookup p = some .directory := by
  rcases h.entries p .directory hp with ⟨e, he, hlike⟩
  cases e with
  | directory =>
      exact he
  | file text =>
      cases hlike
  | link target =>
      cases hlike

theorem Keeps.exists_file {text : String} (h : s.Keeps t)
    (hp : s.lookup p = some (.file text)) : ∃ text', t.lookup p = some (.file text') := by
  rcases h.entries p (.file text) hp with ⟨e, he, hlike⟩
  cases e with
  | file text' =>
      exact ⟨text', he⟩
  | directory =>
      cases hlike
  | link target =>
      cases hlike

theorem Keeps.lookup_link {target : String} (h : s.Keeps t)
    (hp : s.lookup p = some (.link target)) : t.lookup p = some (.link target) := by
  rcases h.entries p (.link target) hp with ⟨e, he, hlike⟩
  cases e with
  | link target' =>
      cases hlike
      exact he
  | directory =>
      cases hlike
  | file text =>
      cases hlike

theorem Keeps.isDirectory (h : s.Keeps t) (hp : s.isDirectory p = true) :
    t.isDirectory p = true :=
  isDirectory_iff.mpr (h.lookup_directory (isDirectory_iff.mp hp))

/-- Where a file is, there was a file if there was anything. -/
theorem Keeps.exists_file_of_some {text : String} {e : Entry} (h : s.Keeps t)
    (ht : t.lookup p = some (.file text)) (hs : s.lookup p = some e) :
    ∃ old, e = .file old := by
  cases e with
  | file old =>
      exact ⟨old, rfl⟩
  | directory =>
      rw [h.lookup_directory hs] at ht
      cases ht
  | link target =>
      rw [h.lookup_link hs] at ht
      cases ht

end Keeps

theorem Grows.refl (s : Store) : s.Grows s := by
  constructor
  · rfl
  · exact fun p => Or.inl rfl
  · intro p hnone hsome
    rw [hnone] at hsome
    cases hsome

theorem Grows.keeps {s t : Store} (h : s.Grows t) : s.Keeps t := by
  constructor
  · exact h.current
  · intro p e he
    rcases h.entries p with hsame | ⟨hnone, _⟩
    · exact ⟨e, hsame.trans he, rfl⟩
    · rw [hnone] at he
      cases he

theorem Grows.trans {s t u : Store} (hst : s.Grows t) (htu : t.Grows u) : s.Grows u := by
  constructor
  · rw [htu.current, hst.current]
  · intro p
    rcases htu.entries p with hsame | ⟨hnone, hdirectory⟩
    · rw [hsame]
      exact hst.entries p
    · rcases hst.entries p with hsame | ⟨_, hdirectory'⟩
      · exact Or.inr ⟨hsame ▸ hnone, hdirectory⟩
      · rw [hdirectory'] at hnone
        cases hnone
  · intro p hnone hdirectory
    rcases hst.entries p with hsame | ⟨_, hdirectory'⟩
    · exact htu.inside p (hsame.trans hnone) hdirectory
    · exact htu.keeps.isDirectory (hst.inside p hnone hdirectory')

theorem Grows.wellFormed {s t : Store} (h : s.Grows t) (hs : s.WellFormed) :
    t.WellFormed := by
  intro p e he
  rcases h.entries p with hsame | ⟨hnone, hdirectory⟩
  · exact h.keeps.isDirectory (hs p e (hsame ▸ he))
  · exact h.inside p hnone hdirectory

/-!
# Steps of a walk
-/

section Steps

variable {s : Store} {follow : Place → List String → Except OsError Found} {place : Place}
variable {step : String} {rest : List String}

theorem advance_dot (hplace : s.isDirectory place = true) :
    s.advance follow place ("." :: rest) = s.advance follow place rest := by
  rw [advance, if_neg (not_not_intro hplace), if_pos rfl]

theorem advance_up (hplace : s.isDirectory place = true) :
    s.advance follow place (".." :: rest) = s.advance follow place.dropLast rest := by
  rw [advance, if_neg (not_not_intro hplace), if_neg (by decide), if_pos rfl]

theorem advance_directory (hplace : s.isDirectory place = true) (hdot : step ≠ ".")
    (hup : step ≠ "..") (h : s.lookup (place ++ [step]) = some .directory) :
    s.advance follow place (step :: rest) = s.advance follow (place ++ [step]) rest := by
  rw [advance, if_neg (not_not_intro hplace), if_neg hdot, if_neg hup]
  simp only [h]

theorem advance_file {text : String} (hplace : s.isDirectory place = true) (hdot : step ≠ ".")
    (hup : step ≠ "..") (h : s.lookup (place ++ [step]) = some (.file text)) :
    s.advance follow place (step :: rest) = s.advance follow (place ++ [step]) rest := by
  rw [advance, if_neg (not_not_intro hplace), if_neg hdot, if_neg hup]
  simp only [h]

theorem advance_link {target : String} (hplace : s.isDirectory place = true)
    (hdot : step ≠ ".") (hup : step ≠ "..")
    (h : s.lookup (place ++ [step]) = some (.link target)) :
    s.advance follow place (step :: rest) =
      follow (if isRooted target then [] else place) (steps target ++ rest) := by
  rw [advance, if_neg (not_not_intro hplace), if_neg hdot, if_neg hup]
  simp only [h]

theorem advance_missing (hplace : s.isDirectory place = true) (hdot : step ≠ ".")
    (hup : step ≠ "..") (h : s.lookup (place ++ [step]) = none) :
    s.advance follow place [step] = ok (.missing (place ++ [step])) := by
  rw [advance, if_neg (not_not_intro hplace), if_neg hdot, if_neg hup]
  simp only [h]
  rfl

theorem advance_lost (hplace : s.isDirectory place = true) (hdot : step ≠ ".")
    (hup : step ≠ "..") (h : s.lookup (place ++ [step]) = none) (hrest : rest ≠ []) :
    s.advance follow place (step :: rest) = error .notFound := by
  rw [advance, if_neg (not_not_intro hplace), if_neg hdot, if_neg hup]
  simp only [h, if_neg hrest]

theorem advance_blocked (hplace : ¬s.isDirectory place = true) :
    s.advance follow place (step :: rest) = error .notADirectory := by
  rw [advance, if_pos hplace]

end Steps

/-- What has been found, as it is in a later store. -/
def Found.later (t : Store) : Found → Found
  | .present p => .present p
  | .missing p => if t.lookup p = none then .missing p else .present p

theorem Found.later_missing_of_none {t : Store} {p : Place} (h : t.lookup p = none) :
    (Found.missing p).later t = .missing p :=
  if_pos h

theorem Found.later_missing_of_some {t : Store} {p : Place} {e : Entry}
    (h : t.lookup p = some e) : (Found.missing p).later t = .present p := by
  apply if_neg
  rw [h]
  exact Option.some_ne_none e

theorem Found.eq_of_later_missing {t : Store} {p q : Place}
    (h : (Found.missing q).later t = .present p) : q = p := by
  cases hq : t.lookup q with
  | none =>
      rw [later_missing_of_none hq] at h
      cases h
  | some e =>
      rw [later_missing_of_some hq] at h
      exact Found.present.inj h

theorem advance_of_keeps {s t : Store} (h : s.Keeps t)
    {follow follow' : Place → List String → Except OsError Found} {place : Place}
    {path : List String} {found : Found}
    (hfollow : ∀ place path, follow place path = ok found →
      follow' place path = ok (found.later t))
    (hnew : ∀ p target, found = .missing p → t.lookup p ≠ some (.link target))
    (hwalk : s.advance follow place path = ok found) :
    t.advance follow' place path = ok (found.later t) := by
  fun_induction s.advance follow place path with
  | case1 place =>
      cases hwalk
      rfl
  | case2 =>
      cases hwalk
  | case3 place rest hplace ih =>
      rw [advance_dot (h.isDirectory (Decidable.not_not.mp hplace))]
      exact ih hwalk
  | case4 place rest hplace hdot ih =>
      rw [advance_up (h.isDirectory (Decidable.not_not.mp hplace))]
      exact ih hwalk
  | case5 place step hplace hdot hup next hnone =>
      cases hwalk
      have hplace' := h.isDirectory (Decidable.not_not.mp hplace)
      cases hnext : t.lookup next with
      | none =>
          rw [advance_missing hplace' hdot hup hnext, Found.later_missing_of_none hnext]
      | some e =>
          rw [Found.later_missing_of_some hnext]
          cases e with
          | directory =>
              rw [advance_directory hplace' hdot hup hnext]
              rfl
          | file text =>
              rw [advance_file hplace' hdot hup hnext]
              rfl
          | link target =>
              exact absurd hnext (hnew next target rfl)
  | case6 =>
      cases hwalk
  | case7 place step rest hplace hdot hup next hnext ih =>
      rw [advance_directory (h.isDirectory (Decidable.not_not.mp hplace)) hdot hup
        (h.lookup_directory hnext)]
      exact ih hwalk
  | case8 place step rest hplace hdot hup next text hnext ih =>
      rcases h.exists_file hnext with ⟨text', hnext'⟩
      rw [advance_file (h.isDirectory (Decidable.not_not.mp hplace)) hdot hup hnext']
      exact ih hwalk
  | case9 place step rest hplace hdot hup next target hnext =>
      rw [advance_link (h.isDirectory (Decidable.not_not.mp hplace)) hdot hup
        (h.lookup_link hnext)]
      exact hfollow _ _ hwalk

/-- A walk still ends at the place where it ended, unless that was missing and is a link
by now. -/
theorem walk_of_keeps {s t : Store} (h : s.Keeps t) {links : Nat} {place : Place}
    {path : List String} {found : Found}
    (hnew : ∀ p target, found = .missing p → t.lookup p ≠ some (.link target))
    (hwalk : s.walk links place path = ok found) :
    t.walk links place path = ok (found.later t) := by
  induction links generalizing place path with
  | zero =>
      apply advance_of_keeps h _ hnew hwalk
      rintro _ _ ⟨⟩
  | succ links ih =>
      exact advance_of_keeps h (fun _ _ => ih) hnew hwalk

theorem find_of_keeps {s t : Store} (h : s.Keeps t) {path : String} {found : Found}
    (hnew : ∀ p target, found = .missing p → t.lookup p ≠ some (.link target))
    (hfind : s.find path = ok found) : t.find path = ok (found.later t) := by
  unfold find at hfind ⊢
  split at hfind
  · cases hfind
  next hpath =>
    rw [if_neg hpath]
    unfold origin at hfind ⊢
    rw [h.current]
    exact walk_of_keeps h hnew hfind

theorem locate_eq_ok {s : Store} {path : String} {p : Place} :
    s.locate path = ok p ↔ s.find path = ok (.present p) := by
  unfold locate
  constructor
  · intro h
    split at h
    next q hfind =>
      cases h
      exact hfind
    · cases h
    · cases h
  · intro h
    rw [h]

theorem read?_eq_some {s : Store} {path text : String} :
    s.read? path = some text ↔ ∃ p, s.locate path = ok p ∧ s.lookup p = some (.file text) := by
  unfold read?
  cases hlocate : s.locate path with
  | error e =>
      simp
  | ok p =>
      cases hp : s.lookup p with
      | none =>
          simp [hp]
      | some e =>
          cases e <;> simp [hp]

theorem locate_of_keeps {s t : Store} (h : s.Keeps t) {path : String} {p : Place}
    (hp : s.locate path = ok p) : t.locate path = ok p := by
  apply locate_eq_ok.mpr
  apply find_of_keeps h _ (locate_eq_ok.mp hp)
  rintro q target ⟨⟩

/-!
# Walks that broke off

A path that led nowhere, and not even to the place of a last name, leads somewhere later only
if it passes a new directory.
-/

/-- Whether a walk comes to a place with names to go. -/
inductive Passes (s : Store) (p : Place) : Place → List String → Prop where
  | here {step : String} {rest : List String} : Passes s p p (step :: rest)
  | dot {place : Place} {rest : List String} (hplace : s.isDirectory place = true)
      (hrest : Passes s p place rest) : Passes s p place ("." :: rest)
  | up {place : Place} {rest : List String} (hplace : s.isDirectory place = true)
      (hrest : Passes s p place.dropLast rest) : Passes s p place (".." :: rest)
  | down {place : Place} {step : String} {rest : List String}
      (hplace : s.isDirectory place = true) (hdot : step ≠ ".") (hup : step ≠ "..")
      (hnext : s.lookup (place ++ [step]) = some .directory)
      (hrest : Passes s p (place ++ [step]) rest) : Passes s p place (step :: rest)
  | link {place : Place} {step target : String} {rest : List String}
      (hplace : s.isDirectory place = true) (hdot : step ≠ ".") (hup : step ≠ "..")
      (hnext : s.lookup (place ++ [step]) = some (.link target))
      (hrest : Passes s p (if isRooted target then [] else place) (steps target ++ rest)) :
      Passes s p place (step :: rest)

/-- Whether a walk passes a directory that has been made where nothing was. -/
def PassesNew (s t : Store) (place : Place) (path : List String) : Prop :=
  ∃ p, s.lookup p = none ∧ t.lookup p = some .directory ∧ t.Passes p place path

/-- Whether no link is new. -/
def KeepsLinks (s t : Store) : Prop :=
  ∀ p target, t.lookup p = some (.link target) → s.lookup p = some (.link target)

theorem PassesNew.mono {s t : Store} {place place' : Place} {path path' : List String}
    (h : s.PassesNew t place path)
    (hmono : ∀ p, t.Passes p place path → t.Passes p place' path') :
    s.PassesNew t place' path' := by
  rcases h with ⟨p, hnone, hdirectory, hpasses⟩
  exact ⟨p, hnone, hdirectory, hmono p hpasses⟩

theorem Keeps.lookup_none_of_isDirectory {s t : Store} (h : s.Keeps t) {p : Place}
    (hs : ¬s.isDirectory p = true) (ht : t.isDirectory p = true) : s.lookup p = none := by
  rw [isDirectory_iff] at hs ht
  cases hp : s.lookup p with
  | none =>
      rfl
  | some e =>
      cases e with
      | directory =>
          exact absurd hp hs
      | file text =>
          rcases h.exists_file hp with ⟨text', hfile⟩
          rw [ht] at hfile
          cases hfile
      | link target =>
          rw [h.lookup_link hp] at ht
          cases ht

theorem passesNew_of_advance {s t : Store} (h : s.Keeps t) (hlinks : s.KeepsLinks t)
    {follow follow' : Place → List String → Except OsError Found} {place : Place}
    {path : List String} {e : OsError} {found : Found}
    (hfollow : ∀ place path e found, follow place path = error e →
      follow' place path = ok found → s.PassesNew t place path)
    (hs : s.advance follow place path = error e)
    (ht : t.advance follow' place path = ok found) : s.PassesNew t place path := by
  fun_induction s.advance follow place path with
  | case1 =>
      cases hs
  | case2 place step rest hplace =>
      by_cases hplace' : t.isDirectory place = true
      · exact ⟨place, h.lookup_none_of_isDirectory hplace hplace',
          isDirectory_iff.mp hplace', .here⟩
      · rw [advance_blocked hplace'] at ht
        cases ht
  | case3 place rest hplace ih =>
      have hplace' := h.isDirectory (Decidable.not_not.mp hplace)
      rw [advance_dot hplace'] at ht
      exact (ih hs ht).mono fun p => .dot hplace'
  | case4 place rest hplace hdot ih =>
      have hplace' := h.isDirectory (Decidable.not_not.mp hplace)
      rw [advance_up hplace'] at ht
      exact (ih hs ht).mono fun p => .up hplace'
  | case5 =>
      cases hs
  | case6 place step rest hplace hdot hup next hnone hrest =>
      have hplace' := h.isDirectory (Decidable.not_not.mp hplace)
      rcases List.exists_cons_of_ne_nil hrest with ⟨below, rest, rfl⟩
      cases hnext : t.lookup next with
      | none =>
          rw [advance_lost hplace' hdot hup hnext hrest] at ht
          cases ht
      | some entry =>
          cases entry with
          | directory =>
              exact ⟨next, hnone, hnext, .down hplace' hdot hup hnext .here⟩
          | file text =>
              -- What follows would have to be in the file.
              have hfile : ¬t.isDirectory next = true := by simp [hnext]
              rw [advance_file hplace' hdot hup hnext, advance_blocked hfile] at ht
              cases ht
          | link target =>
              rw [hlinks next target hnext] at hnone
              cases hnone
  | case7 place step rest hplace hdot hup next hnext ih =>
      have hplace' := h.isDirectory (Decidable.not_not.mp hplace)
      have hnext' := h.lookup_directory hnext
      rw [advance_directory hplace' hdot hup hnext'] at ht
      exact (ih hs ht).mono fun p => .down hplace' hdot hup hnext'
  | case8 place step rest hplace hdot hup next text hnext ih =>
      rcases h.exists_file hnext with ⟨text', hnext'⟩
      rw [advance_file (h.isDirectory (Decidable.not_not.mp hplace)) hdot hup hnext'] at ht
      cases rest with
      | nil =>
          rw [advance] at hs
          cases hs
      | cons below rest =>
          have hfile : ¬t.isDirectory next = true := by simp [hnext']
          rw [advance_blocked hfile] at ht
          cases ht
  | case9 place step rest hplace hdot hup next target hnext =>
      have hplace' := h.isDirectory (Decidable.not_not.mp hplace)
      have hnext' := h.lookup_link hnext
      rw [advance_link hplace' hdot hup hnext'] at ht
      exact (hfollow _ _ _ _ hs ht).mono fun p => .link hplace' hdot hup hnext'

theorem passesNew_of_walk {s t : Store} (h : s.Keeps t) (hlinks : s.KeepsLinks t) {links : Nat}
    {place : Place} {path : List String} {e : OsError} {found : Found}
    (hs : s.walk links place path = error e) (ht : t.walk links place path = ok found) :
    s.PassesNew t place path := by
  induction links generalizing place path e found with
  | zero =>
      apply passesNew_of_advance h hlinks _ hs ht
      rintro _ _ _ _ _ ⟨⟩
  | succ links ih =>
      exact passesNew_of_advance h hlinks (fun _ _ _ _ => ih) hs ht

theorem passesNew_of_find {s t : Store} (h : s.Keeps t) (hlinks : s.KeepsLinks t)
    {path : String} {e : OsError} {found : Found} (hs : s.find path = error e)
    (ht : t.find path = ok found) : s.PassesNew t (s.origin path) (steps path) := by
  unfold find at hs ht
  split at hs
  next hpath =>
    rw [if_pos hpath] at ht
    cases ht
  next hpath =>
    rw [if_neg hpath] at ht
    unfold origin at hs ht ⊢
    rw [h.current] at ht
    exact passesNew_of_walk h hlinks hs ht

/-!
# What a walk ends at
-/

/-- Whether an entry may be put at a place that has none. -/
def IsFree (s : Store) (p : Place) : Prop :=
  s.lookup p = none ∧ s.isDirectory p.dropLast = true

theorem isFree_of_advance {s : Store}
    {follow : Place → List String → Except OsError Found} {place p : Place}
    {path : List String}
    (hfollow : ∀ place path, follow place path = ok (.missing p) → s.IsFree p)
    (h : s.advance follow place path = ok (.missing p)) : s.IsFree p := by
  fun_induction s.advance follow place path with
  | case1 =>
      cases h
  | case2 =>
      cases h
  | case3 place rest hplace ih =>
      exact ih h
  | case4 place rest hplace hdot ih =>
      exact ih h
  | case5 place step hplace hdot hup next hnone =>
      rw [← Found.missing.inj (Except.ok.inj h)]
      constructor
      · exact hnone
      · rw [List.dropLast_concat]
        exact Decidable.not_not.mp hplace
  | case6 =>
      cases h
  | case7 place step rest hplace hdot hup next hnext ih =>
      exact ih h
  | case8 place step rest hplace hdot hup next text hnext ih =>
      exact ih h
  | case9 place step rest hplace hdot hup next target hnext =>
      exact hfollow _ _ h

theorem isFree_of_walk {s : Store} {links : Nat} {place p : Place}
    {path : List String} (h : s.walk links place path = ok (.missing p)) :
    s.IsFree p := by
  induction links generalizing place path with
  | zero =>
      apply isFree_of_advance _ h
      rintro _ _ ⟨⟩
  | succ links ih =>
      exact isFree_of_advance (fun _ _ => ih) h

/-- Whether a walk may end at a place. -/
def HoldsFile (s : Store) (p : Place) : Prop :=
  s.isDirectory p = true ∨ ∃ text, s.lookup p = some (.file text)

theorem holdsFile_of_advance {s : Store} (hs : s.WellFormed)
    {follow : Place → List String → Except OsError Found} {place p : Place}
    {path : List String}
    (hfollow : ∀ place path, s.HoldsFile place → follow place path = ok (.present p) →
      s.HoldsFile p)
    (hplace : path = [] → s.HoldsFile place)
    (h : s.advance follow place path = ok (.present p)) : s.HoldsFile p := by
  fun_induction s.advance follow place path with
  | case1 place =>
      cases h
      exact hplace rfl
  | case2 =>
      cases h
  | case3 place rest hdirectory ih =>
      exact ih (fun _ => Or.inl (Decidable.not_not.mp hdirectory)) h
  | case4 place rest hdirectory hdot ih =>
      apply ih _ h
      intro _
      exact Or.inl (hs place .directory (isDirectory_iff.mp (Decidable.not_not.mp hdirectory)))
  | case5 =>
      cases h
  | case6 =>
      cases h
  | case7 place step rest hdirectory hdot hup next hnext ih =>
      exact ih (fun _ => Or.inl (isDirectory_iff.mpr hnext)) h
  | case8 place step rest hdirectory hdot hup next text hnext ih =>
      exact ih (fun _ => Or.inr ⟨text, hnext⟩) h
  | case9 place step rest hdirectory hdot hup next target hnext =>
      apply hfollow _ _ _ h
      by_cases htarget : isRooted target = true
      · rw [if_pos htarget]
        exact Or.inl rfl
      · rw [if_neg htarget]
        exact Or.inl (Decidable.not_not.mp hdirectory)

theorem holdsFile_of_walk {s : Store} (hs : s.WellFormed) {links : Nat} {place p : Place}
    {path : List String} (hplace : path = [] → s.HoldsFile place)
    (h : s.walk links place path = ok (.present p)) : s.HoldsFile p := by
  induction links generalizing place path with
  | zero =>
      apply holdsFile_of_advance hs _ hplace h
      rintro _ _ _ ⟨⟩
  | succ links ih =>
      exact holdsFile_of_advance hs (fun _ _ hholds => ih fun _ => hholds) hplace h

theorem isFree_of_find {s : Store} {path : String} {p : Place}
    (h : s.find path = ok (.missing p)) : s.IsFree p := by
  unfold find at h
  split at h
  · cases h
  · exact isFree_of_walk h

theorem holdsFile_of_find {s : Store} {path : String} {p : Place} (hs : s.WellFormed)
    (h : s.find path = ok (.present p)) : s.HoldsFile p := by
  unfold find at h
  split at h
  · cases h
  next hpath =>
    exact holdsFile_of_walk hs (fun hsteps => absurd hsteps (steps_ne_nil hpath)) h

/-- No path ends at a link. -/
theorem Keeps.ne_of_link {s t : Store} (h : s.Keeps t) (ht : t.WellFormed) {p q : Place}
    {path target : String} (hp : s.lookup p = some (.link target)) (hq : t.locate path = ok q) :
    q ≠ p := by
  intro hsame
  have hlink := h.lookup_link hp
  rw [← hsame] at hlink
  rcases holdsFile_of_find ht (locate_eq_ok.mp hq) with hdirectory | ⟨text, hfile⟩
  · simp [hlink] at hdirectory
  · simp [hlink] at hfile

/-!
# Making directories
-/

theorem dropLast_of_entryPlace {s : Store} {onDot : OsError} {path : String} {p : Place}
    (h : s.entryPlace onDot path = ok p) : p ≠ [] ∧ s.isDirectory p.dropLast = true := by
  unfold entryPlace at h
  split at h
  · cases h
  next last front _ =>
    split at h
    · cases h
    · cases h
    next parent _ =>
      split at h
      · cases h
      next hparent =>
        split at h
        · cases h
        · cases h
          constructor
          · simp
          · rw [List.dropLast_concat]
            exact Decidable.not_not.mp hparent

theorem dropLast_ne_self {p : Place} (h : p ≠ []) : p.dropLast ≠ p := by
  intro heq
  have hlength := congrArg List.length heq
  rw [List.length_dropLast] at hlength
  have hpos := List.length_pos_iff.mpr h
  omega

theorem grows_insert_directory {s : Store} {p : Place} (hp : s.lookup p = none)
    (hparent : s.isDirectory p.dropLast = true) : s.Grows (s.insert p .directory) := by
  have hne : p ≠ [] := by
    rintro rfl
    cases hp
  have hdropLast := dropLast_ne_self hne
  constructor
  · rfl
  · intro q
    by_cases hq : q = p
    · subst hq
      simp [hp, hne]
    · simp [hq]
  · intro q hnone hdirectory
    by_cases hq : q = p
    · subst hq
      simpa [hdropLast] using hparent
    · simp [hq, hnone] at hdirectory

theorem grows_of_makeDirectory {s t : Store} {path : String}
    (h : s.makeDirectory path = ok t) : s.Grows t := by
  unfold makeDirectory at h
  split at h
  · cases h
  next place hplace =>
    split at h
    · cases h
    next hnone =>
      cases h
      exact grows_insert_directory hnone (dropLast_of_entryPlace hplace).2

theorem grows_makeDirectories (s : Store) (paths : List String) :
    s.Grows (s.makeDirectories paths).1 := by
  induction paths generalizing s with
  | nil =>
      exact Grows.refl s
  | cons path above ih =>
      have habove := ih s
      rw [makeDirectories]
      simp only
      split
      · split
        next u hu =>
          rw [hu] at habove
          split
          next t ht =>
            exact habove.trans (grows_of_makeDirectory ht)
          next =>
            exact habove
        next u e hu =>
          rw [hu] at habove
          exact habove
      · split
        next t ht =>
          exact grows_of_makeDirectory ht
        next =>
          exact Grows.refl s

theorem grows_ensureDirectory (s : Store) (path : String) :
    s.Grows (s.ensureDirectory path).1 :=
  grows_makeDirectories s (upward path)

/-!
# Writing a file
-/

theorem keeps_insert_file {s : Store} {p : Place} (text : String) (hp : p ≠ [])
    (hfile : ∀ e, s.lookup p = some e → ∃ old, e = .file old) :
    s.Keeps (s.insert p (.file text)) := by
  constructor
  · rfl
  · intro q e he
    by_cases hq : q = p
    · subst hq
      rcases hfile e he with ⟨old, rfl⟩
      exact ⟨.file text, by simp [hp], rfl⟩
    · exact ⟨e, by simp [hq, he], rfl⟩

theorem wellFormed_insert_file {s : Store} {p : Place} (text : String) (hs : s.WellFormed)
    (hp : p ≠ []) (hfile : s.isDirectory p = false) (hparent : s.isDirectory p.dropLast = true) :
    (s.insert p (.file text)).WellFormed := by
  have hkept : ∀ q, s.isDirectory q = true → (s.insert p (.file text)).isDirectory q = true := by
    intro q hq
    have hne : q ≠ p := by
      rintro rfl
      rw [hfile] at hq
      cases hq
    simpa [hne] using hq
  intro q e hq
  by_cases hqp : q = p
  · rw [hqp]
    exact hkept p.dropLast hparent
  · have hold : s.lookup q = some e := by simpa [hqp] using hq
    exact hkept q.dropLast (hs q e hold)

/-- A file is written at the place that its path leads to from then on, unless that fails
without a trace. -/
theorem write_spec {s t : Store} {path text : String} {result : Except OsError Unit}
    (hs : s.WellFormed) (h : s.write path text = (t, result)) :
    (t = s ∧ ∃ e, result = error e) ∨
      ∃ p, t = s.insert p (.file text) ∧ p ≠ [] ∧ s.Keeps t ∧ t.WellFormed ∧
        t.locate path = ok p := by
  unfold write at h
  split at h
  next e _ =>
    cases h
    exact Or.inl ⟨rfl, e, rfl⟩
  next p hfind =>
    cases h
    rcases isFree_of_find hfind with ⟨hnone, hparent⟩
    have hne : p ≠ [] := by
      rintro rfl
      cases hnone
    have hdirectory : s.isDirectory p = false := by
      rw [isDirectory, hnone]
      rfl
    have hkeeps := keeps_insert_file text hne fun e he => by
      rw [hnone] at he
      cases he
    have hself := lookup_insert_self s p (.file text) hne
    have hfind' := find_of_keeps hkeeps (fun q target hq => by
      cases hq
      rw [hself]
      rintro ⟨⟩) hfind
    refine Or.inr ⟨p, rfl, hne, hkeeps, wellFormed_insert_file text hs hne hdirectory hparent,
      locate_eq_ok.mpr ?_⟩
    rw [hfind', Found.later_missing_of_some hself]
  next p hfind =>
    split at h
    · cases h
      exact Or.inl ⟨rfl, .isADirectory, rfl⟩
    next hdirectory =>
      cases h
      rcases (holdsFile_of_find hs hfind).resolve_left hdirectory with ⟨old, hold⟩
      have hne : p ≠ [] := by
        rintro rfl
        cases hold
      have hkeeps := keeps_insert_file text hne fun e he => by
        rw [hold] at he
        cases he
        exact ⟨old, rfl⟩
      refine Or.inr ⟨p, rfl, hne, hkeeps, ?_, ?_⟩
      · exact wellFormed_insert_file text hs hne (Bool.eq_false_iff.mpr hdirectory) (hs p _ hold)
      · exact locate_of_keeps hkeeps (locate_eq_ok.mpr hfind)

end Store
end Files
end HeaderBinding
