import Mathlib.Control.Monad.Basic
import HeaderBinding.Import
import HeaderBinding.Proofs.Files.Growth
import HeaderBinding.Proofs.Files.Replacement

/-!
# Imports that fail

A run that fails before it writes leaves all files as they were. One that fails while it
writes has at most made directories and left the record of the declarations.
-/

namespace HeaderBinding

open Files
open Except (ok error)

namespace Configuration

/-- Whether the record of the declarations has its file at a place. -/
def RecordAt (c : Configuration) (s : Store) (p : Place) : Prop :=
  ∃ directory, c.diagnostics = some directory ∧
    s.locate (join directory "declarations.json") = ok p

/-- Whether a place has the file of the record, and no directory or link before. -/
def RecordLeft (c : Configuration) (before after : Store) (p : Place) : Prop :=
  c.RecordAt after p ∧ (∃ text, after.lookup p = some (.file text)) ∧
    ∀ e, before.lookup p = some e → ∃ text, e = .file text

/-- Whether the output, which led nowhere, leads to a file that was there already, through a
directory that was missing and has been made. -/
structure OutputAppears (c : Configuration) (before after : Store) : Prop where
  nowhere : ∃ e, before.find c.output = error e
  made : before.PassesNew after (before.origin c.output) (steps c.output)
  old : ∃ p text, after.locate c.output = ok p ∧ after.lookup p = some (.file text) ∧
    before.lookup p = some (.file text)

/-- What a run that fails while it writes may have changed. -/
structure LeavesFiles (c : Configuration) (before after : Store) : Prop where
  current : after.current = before.current
  entries : ∀ p, after.lookup p = before.lookup p ∨
    before.lookup p = none ∧ after.lookup p = some .directory ∨ c.RecordLeft before after p
  outputKept : ∀ p text, ¬c.RecordAt after p → before.locate c.output = ok p →
    before.lookup p = some (.file text) →
      after.locate c.output = ok p ∧ after.lookup p = some (.file text)
  outputAbsent : before.read? c.output = none → after.read? c.output = none ∨
    (∃ p, after.locate c.output = ok p ∧ c.RecordAt after p) ∨ c.OutputAppears before after

/-!
# What has been written so far
-/

/-- Two stores that differ in new directories and in the file of the record. -/
structure Recorded (c : Configuration) (s t : Store) : Prop where
  keeps : s.Keeps t
  entries : ∀ p, t.lookup p = s.lookup p ∨
    s.lookup p = none ∧ t.lookup p = some .directory ∨
    c.RecordAt t p ∧ ∃ text, t.lookup p = some (.file text)

theorem Recorded.of_grows {s t : Store} (c : Configuration) (h : s.Grows t) :
    c.Recorded s t := by
  constructor
  · exact h.keeps
  · intro p
    rcases h.entries p with hsame | hnew
    · exact Or.inl hsame
    · exact Or.inr (Or.inl hnew)

theorem RecordAt.of_keeps {c : Configuration} {s t : Store} {p : Place} (h : s.Keeps t)
    (hp : c.RecordAt s p) : c.RecordAt t p := by
  rcases hp with ⟨directory, hdirectory, hlocate⟩
  exact ⟨directory, hdirectory, Store.locate_of_keeps h hlocate⟩

theorem Recorded.grow {c : Configuration} {s t u : Store} (h : c.Recorded s t)
    (htu : t.Grows u) : c.Recorded s u := by
  constructor
  · exact h.keeps.trans htu.keeps
  · intro p
    rcases htu.entries p with hsame | ⟨hnone, hdirectory⟩
    · rw [hsame]
      rcases h.entries p with hkept | hnew | ⟨hrecord, hfile⟩
      · exact Or.inl hkept
      · exact Or.inr (Or.inl hnew)
      · exact Or.inr (Or.inr ⟨hrecord.of_keeps htu.keeps, hfile⟩)
    · rcases h.entries p with hkept | ⟨_, hdirectory'⟩ | ⟨_, text, hfile⟩
      · exact Or.inr (Or.inl ⟨hkept ▸ hnone, hdirectory⟩)
      · rw [hnone] at hdirectory'
        cases hdirectory'
      · rw [hnone] at hfile
        cases hfile

/-- Apart from the record, a place is as it was or has a new directory. -/
theorem Recorded.entry {c : Configuration} {s t : Store} (h : c.Recorded s t) {p : Place}
    (hp : ¬c.RecordAt t p) :
    t.lookup p = s.lookup p ∨ s.lookup p = none ∧ t.lookup p = some .directory := by
  rcases h.entries p with hsame | hnew | ⟨hrecord, _⟩
  · exact Or.inl hsame
  · exact Or.inr hnew
  · exact absurd hrecord hp

theorem Recorded.keepsLinks {c : Configuration} {s t : Store} (h : c.Recorded s t) :
    s.KeepsLinks t := by
  intro p target hp
  rcases h.entries p with hsame | ⟨_, hnew⟩ | ⟨_, text, hfile⟩
  · exact hsame.symm.trans hp
  · rw [hnew] at hp
    cases hp
  · rw [hfile] at hp
    cases hp

/-- Where the output leads to a file that is not the record, it led there before or it led
nowhere. -/
theorem Recorded.outputAppears {c : Configuration} {s t : Store} (h : c.Recorded s t)
    {p : Place} {text : String} (hp : ¬c.RecordAt t p) (hlocate : t.locate c.output = ok p)
    (hfile : t.lookup p = some (.file text)) (habsent : s.read? c.output = none) :
    c.OutputAppears s t := by
  have hold : s.lookup p = some (.file text) := by
    rcases h.entry hp with hsame | ⟨_, hdirectory⟩
    · exact hsame.symm.trans hfile
    · rw [hdirectory] at hfile
      cases hfile
  have hnone : s.locate c.output ≠ ok p := by
    intro hbefore
    rw [Store.read?_eq_some.mpr ⟨p, hbefore, hold⟩] at habsent
    cases habsent
  cases hfind : s.find c.output with
  | error e =>
      have hfound := Store.locate_eq_ok.mp hlocate
      have hmade := Store.passesNew_of_find h.keeps h.keepsLinks hfind hfound
      exact ⟨⟨e, hfind⟩, hmade, p, text, hlocate, hfile, hold⟩
  | ok found =>
      cases found with
      | present q =>
          have hbefore := Store.locate_eq_ok.mpr hfind
          have hlater := Store.locate_of_keeps h.keeps hbefore
          rw [hlocate] at hlater
          cases hlater
          exact absurd hbefore hnone
      | missing q =>
          have hfree := (Store.isFree_of_find hfind).1
          have hlater : t.find c.output = ok ((Store.Found.missing q).later t) := by
            apply Store.find_of_keeps h.keeps _ hfind
            rintro q target ⟨⟩ hlink
            rw [h.keepsLinks q target hlink] at hfree
            cases hfree
          rw [Store.locate_eq_ok.mp hlocate] at hlater
          rw [Store.Found.eq_of_later_missing (Except.ok.inj hlater).symm, hold] at hfree
          cases hfree

theorem Recorded.leavesFiles {c : Configuration} {s t : Store} (h : c.Recorded s t) :
    c.LeavesFiles s t := by
  constructor
  · exact h.keeps.current
  · intro p
    rcases h.entries p with hsame | hnew | ⟨hrecord, text, hfile⟩
    · exact Or.inl hsame
    · exact Or.inr (Or.inl hnew)
    · refine Or.inr (Or.inr ⟨hrecord, ⟨text, hfile⟩, ?_⟩)
      intro e he
      exact h.keeps.exists_file_of_some hfile he
  · intro p text hrecord hlocate hfile
    refine ⟨Store.locate_of_keeps h.keeps hlocate, ?_⟩
    rcases h.entry hrecord with hsame | ⟨hnone, _⟩
    · exact hsame.trans hfile
    · rw [hnone] at hfile
      cases hfile
  · intro habsent
    cases hread : t.read? c.output with
    | none =>
        exact Or.inl rfl
    | some text =>
        right
        rcases Store.read?_eq_some.mp hread with ⟨p, hlocate, hfile⟩
        by_cases hrecord : c.RecordAt t p
        · exact Or.inl ⟨p, hlocate, hrecord⟩
        · exact Or.inr (h.outputAppears hrecord hlocate hfile habsent)

theorem recorded_of_write {c : Configuration} {s t u : Store} {directory text : String}
    {result : Except OsError Unit} (hs : s.WellFormed) (hsu : s.Grows u)
    (hdirectory : c.diagnostics = some directory)
    (h : u.write (join directory "declarations.json") text = (t, result)) : c.Recorded s t := by
  have hgrown := Recorded.of_grows c hsu
  rcases Store.write_spec (hsu.wellFormed hs) h with
    ⟨rfl, _⟩ | ⟨p, rfl, hne, hkeeps, _, hlocate⟩
  · exact hgrown
  · have hself := Store.lookup_insert_self u p (.file text) hne
    constructor
    · exact hsu.keeps.trans hkeeps
    · intro q
      by_cases hq : q = p
      · subst hq
        exact Or.inr (Or.inr ⟨⟨directory, hdirectory, hlocate⟩, text, hself⟩)
      · rw [Store.lookup_insert_of_ne u (.file text) hq]
        rcases hsu.entries q with hsame | hnew
        · exact Or.inl hsame
        · exact Or.inr (Or.inl hnew)

end Configuration

/-!
# Deliveries
-/

namespace Artifact

theorem grows_prepare (a : Artifact) (s : Store) : s.Grows (a.prepare s).1 := by
  unfold prepare
  split
  next directory _ =>
    exact Store.grows_ensureDirectory s directory
  · exact Store.grows_ensureDirectory s (parent a.path)

section Deliver

variable {a : Artifact} {s t : Store} {events : List Event} {result : Except ImportError Unit}

/-- A delivery ends when the directory cannot be made, or else with the text being put. -/
theorem deliver_cases (h : a.deliver s = (t, events, result)) :
    (∃ fault, a.prepare s = (t, error fault) ∧ result = error (.notWritten a.path fault)) ∨
      ∃ u written, a.prepare s = (u, ok ()) ∧ a.put u = (t, written) ∧
        result = written.mapError (.notWritten a.path) := by
  unfold deliver at h
  split at h
  next u fault hu =>
    cases h
    exact Or.inl ⟨fault, hu, rfl⟩
  next u hu =>
    split at h
    next v fault hv =>
      cases h
      exact Or.inr ⟨u, error fault, hu, hv, rfl⟩
    next v hv =>
      cases h
      exact Or.inr ⟨u, ok (), hu, hv, rfl⟩

/-- A delivery fails as a write that fails. -/
theorem notWritten_of_deliver {e : ImportError} (h : a.deliver s = (t, events, error e)) :
    ∃ path fault, e = .notWritten path fault := by
  rcases deliver_cases h with ⟨fault, _, hresult⟩ | ⟨u, written, _, _, hresult⟩
  · cases hresult
    exact ⟨a.path, fault, rfl⟩
  · cases written with
    | error fault =>
        cases hresult
        exact ⟨a.path, fault, rfl⟩
    | ok done =>
        cases hresult

theorem recorded_of_deliver {c : Configuration} {directory : String} {d : Declarations}
    (hs : s.WellFormed) (hdirectory : c.diagnostics = some directory)
    (h : (ofDeclarations directory d).deliver s = (t, events, result)) : c.Recorded s t := by
  have hgrows := grows_prepare (ofDeclarations directory d) s
  rcases deliver_cases h with ⟨fault, hprepare, _⟩ | ⟨u, written, hprepare, hput, _⟩
  · rw [hprepare] at hgrows
    exact Configuration.Recorded.of_grows c hgrows
  · rw [hprepare] at hgrows
    exact Configuration.recorded_of_write hs hgrows hdirectory hput

/-- A module that is not delivered leaves new directories at most. -/
theorem grows_of_deliver {output : String} {m : BindingModule} {e : ImportError}
    (h : (ofModule output m).deliver s = (t, events, error e)) : s.Grows t := by
  have hgrows := grows_prepare (ofModule output m) s
  rcases deliver_cases h with ⟨fault, hprepare, _⟩ | ⟨u, written, hprepare, hput, hresult⟩
  · rw [hprepare] at hgrows
    exact hgrows
  · rw [hprepare] at hgrows
    cases written with
    | error fault =>
        rw [Store.replace_error hput]
        exact hgrows
    | ok done =>
        cases hresult

end Deliver

end Artifact

namespace Import

/-- The record is delivered if there is a directory for it. -/
theorem deliverRecord_cases {i : Import} {c : Configuration} {s t : Store} {events : List Event}
    {result : Except ImportError Unit} (h : i.deliverRecord c s = (t, events, result)) :
    (c.diagnostics = none ∧ t = s ∧ result = ok ()) ∨
      ∃ directory events', c.diagnostics = some directory ∧
        (Artifact.ofDeclarations directory i.declarations).deliver s = (t, events', result) := by
  unfold deliverRecord recorded? at h
  cases hdirectory : c.diagnostics with
  | none =>
      rw [hdirectory] at h
      cases h
      exact Or.inl ⟨rfl, rfl, rfl⟩
  | some directory =>
      rw [hdirectory] at h
      cases h
      exact Or.inr ⟨directory, _, rfl, rfl⟩

theorem recorded_of_deliverRecord {i : Import} {c : Configuration} {s t : Store}
    {events : List Event} {result : Except ImportError Unit} (hs : s.WellFormed)
    (h : i.deliverRecord c s = (t, events, result)) : c.Recorded s t := by
  rcases deliverRecord_cases h with ⟨_, rfl, _⟩ | ⟨directory, _, hdirectory, hdeliver⟩
  · exact Configuration.Recorded.of_grows c (Store.Grows.refl t)
  · exact Artifact.recorded_of_deliver hs hdirectory hdeliver

theorem notWritten_of_deliverRecord {i : Import} {c : Configuration} {s t : Store}
    {events : List Event} {e : ImportError} (h : i.deliverRecord c s = (t, events, error e)) :
    ∃ path fault, e = .notWritten path fault := by
  rcases deliverRecord_cases h with ⟨_, _, hresult⟩ | ⟨directory, _, _, hdeliver⟩
  · cases hresult
  · exact Artifact.notWritten_of_deliver hdeliver

theorem deliver_error {i : Import} {c : Configuration} {s : Store} {e : ImportError}
    (hs : s.WellFormed) (h : (i.deliver c s).result = error e) :
    c.Recorded s (i.deliver c s).store ∧ ∃ path fault, e = .notWritten path fault := by
  unfold deliver at h ⊢
  split at h
  next t events e' hrecord =>
    cases h
    constructor
    · exact recorded_of_deliverRecord hs hrecord
    · exact notWritten_of_deliverRecord hrecord
  next t events hrecord =>
    split at h
    next u events' e' hmodule =>
      cases h
      constructor
      · exact (recorded_of_deliverRecord hs hrecord).grow (Artifact.grows_of_deliver hmodule)
      · exact Artifact.notWritten_of_deliver hmodule
    · cases h

end Import

/-!
# Runs
-/

namespace Configuration

/-- A run that fails leaves all files alone, however the call of the front end ended. Only
one that could not write a file may have left the record and new directories. -/
theorem runAfter_error {c : Configuration} {s : Store} {o : FrontEnd.Outcome} {e : ImportError}
    (hs : s.WellFormed) (h : (c.runAfter s o).result = error e) :
    c.LeavesFiles s (c.runAfter s o).store ∧
      ((∃ path fault, e = .notWritten path fault) ∨ (c.runAfter s o).store = s) := by
  unfold runAfter at h ⊢
  split at h
  next events e' houtcome =>
    constructor
    · exact (Recorded.of_grows c (Store.Grows.refl s)).leavesFiles
    · exact Or.inr rfl
  next events i houtcome =>
    have hdelivered : (i.deliver c s).result = error e := h
    rcases Import.deliver_error hs hdelivered with ⟨hrecorded, hfault⟩
    constructor
    · exact hrecorded.leavesFiles
    · exact Or.inl hfault

/-- An output that is a directory. The record has been written by then. -/
theorem runAfter_error_directory :
    let c : Configuration :=
      ⟨"h", "o", none, [], [], [], none, "./cc", "c11", true, some "d", []⟩
    let s : Store := ⟨[(["o"], .directory)], []⟩
    let r := c.runAfter s (.dumped [0x7b, 0x7d])
    s.WellFormed ∧ (r.store.read? "d/declarations.json").isSome = true ∧
      ∃ e, r.result = error e ∧ c.LeavesFiles s r.store ∧
        ((∃ path fault, e = .notWritten path fault) ∨ r.store = s) := by
  intro c s r
  have hs : s.WellFormed := by
    apply Store.wellFormed_of_entries
    intro e he
    rw [List.mem_singleton.mp he]
    rfl
  have hrecord : (r.store.read? "d/declarations.json").isSome = true := by
    decide +kernel
  refine ⟨hs, hrecord, ?_⟩
  have hnone : r.result.toOption = none := by
    decide +kernel
  cases hresult : r.result with
  | error e =>
      exact ⟨e, rfl, runAfter_error hs hresult⟩
  | ok m =>
      rw [hresult] at hnone
      cases hnone

/-- An output behind a directory that is made for the record, which cannot be written then. -/
theorem output_appears_through_directory :
    let c : Configuration :=
      ⟨"h", "new/../old", none, [], [], [], none, "./cc", "c11", true, some "new/../d", []⟩
    let s : Store :=
      ⟨[(["old"], .file "text"), (["d"], .directory), (["d", "declarations.json"], .directory)], []⟩
    let r := c.runAfter s (.dumped [0x7b, 0x7d])
    s.read? c.output = none ∧ s.find c.output = error .notFound ∧
      r.result.mapError ImportError.message =
        error "failed to write new/../d/declarations.json: Is a directory (os error 21)" ∧
      r.store.locate c.output = ok ["old"] ∧ ¬c.RecordAt r.store ["old"] ∧
      r.store.read? c.output = some "text" := by
  intro c s r
  have hlocate : r.store.locate c.output = ok ["old"] := by
    decide +kernel
  have hrecord : ¬c.RecordAt r.store ["old"] := by
    intro hat
    rcases hat with ⟨directory, hdirectory, hlocate'⟩
    cases hdirectory
    have hother : r.store.locate (join "new/../d" "declarations.json") =
        ok ["d", "declarations.json"] := by
      decide +kernel
    rw [hother] at hlocate'
    exact absurd hlocate' (by decide)
  refine ⟨?_, ?_, ?_, hlocate, hrecord, ?_⟩ <;> decide +kernel

end Configuration
end HeaderBinding
