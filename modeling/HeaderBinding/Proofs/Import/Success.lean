import HeaderBinding.Proofs.Import.Failure
import HeaderBinding.Outcome

/-!
# Imports that succeed

A run that succeeds has put the text of its module at the place that the output names,
and the record of the declarations, if it is wanted, into the file that its path led to.
Everything else in the store is as it was, but for the directories that were missing on
the way to these files.
-/

namespace HeaderBinding

open Files
open Except (ok error)

/-!
# The stores of a run
-/

namespace Import

/-- The store after the record has been delivered, if it is wanted. -/
def recorded (i : Import) (c : Configuration) (s : Store) : Store :=
  (i.deliverRecord c s).1

/-- The store that the module is put into. The directory for it is there by then. -/
def ready (i : Import) (c : Configuration) (s : Store) : Store :=
  ((i.recorded c s).ensureParent c.output).1

end Import

namespace Files
namespace Store

/-- Whether the directory of what a path names is only found through a place. -/
def LeadsThrough (s : Store) (path : String) (p : Place) : Prop :=
  (s.remove p).entryPlace .busy path ≠ s.entryPlace .busy path

end Store
end Files

namespace Configuration

/-- The paths of the directories that a run makes where they are missing. -/
def directoryPaths (c : Configuration) : List String :=
  c.diagnostics.toList.flatMap upward ++ upward (parent c.output)

/-- What a run leaves that has delivered an import, the output naming a place. A link in
that place is replaced itself, and what it led to stays. Only a path that leads through the
link that it names does not lead to the module afterwards. -/
structure Delivered (c : Configuration) (i : Import) (before after : Store) (p : Place) :
    Prop where
  current : after.current = before.current
  named : (i.ready c before).entryPlace .busy c.output = ok p
  output : after.lookup p = some (.file i.module.text)
  reached : ¬(i.ready c before).LeadsThrough c.output p → after.locate c.output = ok p
  throughLink : (i.ready c before).LeadsThrough c.output p →
    ∃ target, before.lookup p = some (.link target)
  target : ∀ target q, before.lookup p = some (.link target) →
    (i.ready c before).locate c.output = ok q →
      q ≠ p ∧ after.lookup q = (i.ready c before).lookup q
  record : ∀ directory, c.diagnostics = some directory → ∃ q,
    (i.recorded c before).locate (join directory "declarations.json") = ok q ∧
      (i.recorded c before).lookup q = some (.file i.declarations.diagnostics) ∧
      (q ≠ p → after.lookup q = some (.file i.declarations.diagnostics))
  others : ∀ q, q ≠ p → ¬c.RecordAt (i.recorded c before) q →
    after.lookup q = before.lookup q ∨
      before.lookup q = none ∧ after.lookup q = some .directory ∧
        ∃ path ∈ c.directoryPaths, (i.ready c before).locate path = ok q

end Configuration

/-!
# The record
-/

namespace Import

variable {i : Import} {c : Configuration} {s t : Store} {events : List Event}

/-- A record that is delivered is written at the place where its path leads. -/
theorem deliverRecord_ok (hs : s.WellFormed) (h : i.deliverRecord c s = (t, events, ok ())) :
    c.diagnostics = none ∧ t = s ∨ ∃ directory u p, c.diagnostics = some directory ∧
      (s.ensureDirectory directory).1 = u ∧ t = u.insert p (.file i.declarations.diagnostics) ∧
      p ≠ [] ∧ u.Keeps t ∧ t.WellFormed ∧
        t.locate (join directory "declarations.json") = ok p := by
  rcases deliverRecord_cases h with ⟨hnone, ht, _⟩ | ⟨directory, _, hdirectory, hdeliver⟩
  · exact Or.inl ⟨hnone, ht⟩
  · rcases Artifact.deliver_cases hdeliver with
      ⟨fault, _, hresult⟩ | ⟨u, written, hprepare, hput, hresult⟩
    · cases hresult
    · have hu : (s.ensureDirectory directory).1 = u := congrArg Prod.fst hprepare
      have hgrows := Store.grows_ensureDirectory s directory
      rw [hu] at hgrows
      rcases Store.write_spec (hgrows.wellFormed hs) hput with
        ⟨_, e, rfl⟩ | ⟨p, ht, hne, hkeeps, hformed, hlocate⟩
      · cases hresult
      · exact Or.inr ⟨directory, u, p, hdirectory, hu, ht, hne, hkeeps, hformed, hlocate⟩

theorem wellFormed_of_deliverRecord (hs : s.WellFormed)
    (h : i.deliverRecord c s = (t, events, ok ())) : t.WellFormed := by
  rcases deliverRecord_ok hs h with ⟨_, rfl⟩ | ⟨_, _, _, _, _, _, _, _, hformed, _⟩
  · exact hs
  · exact hformed

/-- Apart from the record, a store is as it was or has new directories on the way to it. -/
theorem lookup_of_deliverRecord (hs : s.WellFormed)
    (h : i.deliverRecord c s = (t, events, ok ())) {p : Place} (hp : ¬c.RecordAt t p) :
    t.lookup p = s.lookup p ∨ s.lookup p = none ∧ t.lookup p = some .directory ∧
      ∃ path ∈ c.diagnostics.toList.flatMap upward, t.locate path = ok p := by
  rcases deliverRecord_ok hs h with
    ⟨_, rfl⟩ | ⟨directory, u, q, hdirectory, rfl, rfl, _, hkeeps, _, hlocate⟩
  · exact Or.inl rfl
  · have hne : p ≠ q := by
      rintro rfl
      exact hp ⟨directory, hdirectory, hlocate⟩
    rw [Store.lookup_insert_of_ne _ _ hne]
    rcases Store.madeAlong_makeDirectories s (upward directory) p with
      hsame | ⟨hnone, hnew, path, hpath, hleads⟩
    · exact Or.inl hsame
    · refine Or.inr ⟨hnone, hnew, path, ?_, Store.locate_of_keeps hkeeps hleads⟩
      rw [hdirectory]
      exact List.mem_flatMap.mpr ⟨directory, List.mem_cons_self, hpath⟩

end Import

/-!
# The module
-/

namespace Artifact

/-- A module that is delivered is put at the place that its path names. -/
theorem deliver_ofModule_ok {m : BindingModule} {output : String} {s t : Store}
    {events : List Event} (h : (ofModule output m).deliver s = (t, events, ok ())) : ∃ p,
      (s.ensureParent output).1.entryPlace .busy output = ok p ∧ endsInSlash output = false ∧
        (s.ensureParent output).1.isDirectory p = false ∧
        t = (s.ensureParent output).1.insert p (.file m.text) := by
  rcases deliver_cases h with ⟨fault, _, hresult⟩ | ⟨u, written, hprepare, hput, hresult⟩
  · cases hresult
  · cases written with
    | error fault =>
        cases hresult
    | ok done =>
        have hu : (s.ensureParent output).1 = u := congrArg Prod.fst hprepare
        rw [hu]
        exact Store.replace_ok hput

end Artifact

namespace Import

theorem deliver_ok {i : Import} {c : Configuration} {s : Store} {m : BindingModule}
    (h : (i.deliver c s).result = ok m) : m = i.module ∧ ∃ t events events',
      i.deliverRecord c s = (t, events, ok ()) ∧
        (Artifact.ofModule c.output i.module).deliver t =
          ((i.deliver c s).store, events', ok ()) := by
  unfold deliver at h ⊢
  split at h
  · cases h
  next t events hrecord =>
    split at h
    · cases h
    next u events' hmodule =>
      cases h
      exact ⟨rfl, t, events, events', hrecord, hmodule⟩

section Delivered

variable {i : Import} {c : Configuration} {s t : Store} {events : List Event} {p q : Place}

/-- A path leads through what it names only if that was a link before the run. -/
theorem link_of_leadsThrough {u : Store} (hrecorded : c.Recorded s u)
    (hnamed : u.entryPlace .busy c.output = ok p) (hdirectory : u.isDirectory p = false)
    (hthrough : u.LeadsThrough c.output p) : ∃ target, s.lookup p = some (.link target) := by
  rcases Store.isEnd_or_link hdirectory with hend | ⟨target, hlink⟩
  · have hkept := Store.entryPlace_of_agreeBut (Store.agreeBut_remove u p) hend hnamed
    exact absurd (hkept.trans hnamed.symm) hthrough
  · exact ⟨target, hrecorded.keepsLinks p target hlink⟩

/-- A path that does not lead through what it names leads to the file that is put there. -/
theorem locate_of_not_leadsThrough {u : Store} {output text : String}
    (hnamed : u.entryPlace .busy output = ok p) (hslash : endsInSlash output = false)
    (h : ¬u.LeadsThrough output p) :
    (u.insert p (.file text)).locate output = ok p := by
  have hne := (Store.dropLast_of_entryPlace hnamed).1
  have hwithout : (u.remove p).entryPlace .busy output = ok p :=
    (Classical.not_not.mp h).trans hnamed
  have hagree := (Store.agreeBut_remove u p).symm.trans
    (Store.agreeBut_insert u p (.file text))
  have hnamed' := Store.entryPlace_of_agreeBut hagree (Store.isEnd_remove u hne) hwithout
  exact Store.locate_of_entryPlace hnamed'
    (Or.inr ⟨hslash, text, by simp [hne]⟩)

/-- Everything but the record and the module is as it was, or is a new directory. -/
theorem lookup_of_ready (hs : s.WellFormed) (hrecord : i.deliverRecord c s = (t, events, ok ()))
    (hq : ¬c.RecordAt t q) :
    (t.ensureParent c.output).1.lookup q = s.lookup q ∨
      s.lookup q = none ∧ (t.ensureParent c.output).1.lookup q = some .directory ∧
        ∃ path ∈ c.directoryPaths, (t.ensureParent c.output).1.locate path = ok q := by
  have hgrows := Store.grows_ensureDirectory t (parent c.output)
  have hold := lookup_of_deliverRecord hs hrecord hq
  rcases Store.madeAlong_makeDirectories t (upward (parent c.output)) q with
    hsame | ⟨hnone, hnew, path, hpath, hleads⟩
  · rcases hold with hkept | ⟨hnone, hnew, path, hpath, hleads⟩
    · exact Or.inl (hsame.trans hkept)
    · refine Or.inr ⟨hnone, hsame.trans hnew, path, List.mem_append_left _ hpath, ?_⟩
      exact Store.locate_of_keeps hgrows.keeps hleads
  · rcases hold with hkept | ⟨_, hnew', _⟩
    · exact Or.inr ⟨hkept.symm.trans hnone, hnew, path, List.mem_append_right _ hpath, hleads⟩
    · rw [hnew'] at hnone
      cases hnone

/-- The text of the record stands where its path led to, unless the module is there. -/
theorem record_of_ready (hs : s.WellFormed) (hrecord : i.deliverRecord c s = (t, events, ok ()))
    {directory : String} (hdirectory : c.diagnostics = some directory) : ∃ q,
      t.locate (join directory "declarations.json") = ok q ∧
        t.lookup q = some (.file i.declarations.diagnostics) ∧
        (t.ensureParent c.output).1.lookup q = some (.file i.declarations.diagnostics) := by
  rcases deliverRecord_ok hs hrecord with
    ⟨hnone, _⟩ | ⟨directory', u, q, hdirectory', _, rfl, hne, _, _, hlocate⟩
  · rw [hnone] at hdirectory
    cases hdirectory
  · rw [hdirectory'] at hdirectory
    cases hdirectory
    have hself := Store.lookup_insert_self u q (.file i.declarations.diagnostics) hne
    refine ⟨q, hlocate, hself, ?_⟩
    rcases (Store.grows_ensureDirectory _ (parent c.output)).entries q with hsame | ⟨hnone, _⟩
    · exact hsame.trans hself
    · rw [hself] at hnone
      cases hnone

end Delivered

/-- What is left when the record and the module have been delivered. -/
theorem delivered_of_deliver {i : Import} {c : Configuration} {s : Store} {m : BindingModule}
    (hs : s.WellFormed) (h : (i.deliver c s).result = ok m) :
    m = i.module ∧ ∃ p, c.Delivered i s (i.deliver c s).store p := by
  rcases deliver_ok h with ⟨hm, t, events, _, hrecord, hmodule⟩
  have hrecorded : i.recorded c s = t := congrArg Prod.fst hrecord
  rcases Artifact.deliver_ofModule_ok hmodule with ⟨p, hnamed, hslash, hdirectory, hafter⟩
  refine ⟨hm, p, ?_⟩
  have hready : i.ready c s = (t.ensureParent c.output).1 := by
    rw [ready, hrecorded]
  have hgrows := Store.grows_ensureDirectory t (parent c.output)
  have hgrown : c.Recorded s (t.ensureParent c.output).1 :=
    (recorded_of_deliverRecord hs hrecord).grow hgrows
  have hformed : (t.ensureParent c.output).1.WellFormed :=
    hgrows.wellFormed (wellFormed_of_deliverRecord hs hrecord)
  have hlookup := fun q (hq : ¬c.RecordAt t q) => lookup_of_ready hs hrecord hq
  have hwritten := fun directory (hd : c.diagnostics = some directory) =>
    record_of_ready hs hrecord hd
  rw [hafter]
  generalize (t.ensureParent c.output).1 = u at *
  have hne := (Store.dropLast_of_entryPlace hnamed).1
  have hothers : ∀ q, q ≠ p → (u.insert p (.file i.module.text)).lookup q = u.lookup q :=
    fun q hq => by simp [hq]
  constructor
  · exact hgrown.keeps.current
  · rw [hready]
    exact hnamed
  · simp [hne]
  · rw [hready]
    exact locate_of_not_leadsThrough hnamed hslash
  · rw [hready]
    exact link_of_leadsThrough hgrown hnamed hdirectory
  · intro target q hlink hlocate
    rw [hready] at hlocate ⊢
    have hne := hgrown.keeps.ne_of_link hformed hlink hlocate
    exact ⟨hne, hothers q hne⟩
  · intro directory hdirectory
    rw [hrecorded]
    rcases hwritten directory hdirectory with ⟨q, hlocate, htext, hkept⟩
    exact ⟨q, hlocate, htext, fun hq => (hothers q hq).trans hkept⟩
  · intro q hq hrecordAt
    rw [hrecorded] at hrecordAt
    rw [hready, hothers q hq]
    exact hlookup q hrecordAt

end Import

namespace Configuration

theorem exists_import_of_importOutcome {c : Configuration} {s : Store} {o : FrontEnd.Outcome}
    {events : List Event} {i : Import} (h : c.importOutcome s o = (events, ok i)) :
    ∃ root, o.tree c.program c.header = ok root ∧
      (c.scope s).importTree c.moduleHeader root = ok i := by
  unfold importOutcome at h
  split at h
  · cases h
  · rcases bind_eq_ok (Prod.mk.inj h).2 with ⟨root, htree, himport⟩
    exact ⟨root, htree, mapError_eq_ok himport⟩

/-- A run that succeeds has imported the tree that the front end printed, and has delivered
what it came to. -/
theorem runAfter_ok {c : Configuration} {s : Store} {o : FrontEnd.Outcome} {m : BindingModule}
    (hs : s.WellFormed) (h : (c.runAfter s o).result = ok m) : ∃ root i p,
      o.tree c.program c.header = ok root ∧
        (c.scope s).importTree
          ⟨c.moduleName, c.links, if c.banner then some c.header else none⟩ root = ok i ∧
        m = i.module ∧ c.Delivered i s (c.runAfter s o).store p := by
  unfold runAfter at h ⊢
  split at h
  · cases h
  next events i houtcome =>
    have hdelivered : (i.deliver c s).result = ok m := h
    rcases exists_import_of_importOutcome houtcome with ⟨root, htree, himport⟩
    rcases Import.delivered_of_deliver hs hdelivered with ⟨hm, p, hp⟩
    exact ⟨root, i, p, htree, himport, hm, hp⟩

/-- An output that is a link. The file that it led to is still there. -/
theorem runAfter_ok_link :
    let c : Configuration :=
      ⟨"h", "new/../o", none, [], [], [], none, "./cc", "c11", true, some "d", []⟩
    let s : Store := ⟨[(["o"], .link "old"), (["old"], .file "text")], []⟩
    let r := c.runAfter s (.dumped [0x7b, 0x7d])
    s.WellFormed ∧ r.store.lookup ["old"] = some (.file "text") ∧
      r.store.isDirectory ["new"] = true ∧ ∃ m root i p, r.result = ok m ∧
        (FrontEnd.Outcome.dumped [0x7b, 0x7d]).tree c.program c.header = ok root ∧
        (c.scope s).importTree
          ⟨c.moduleName, c.links, if c.banner then some c.header else none⟩ root = ok i ∧
        m = i.module ∧ c.Delivered i s r.store p := by
  intro c s r
  have hs : s.WellFormed := by
    apply Store.wellFormed_of_entries
    decide
  have hold : r.store.lookup ["old"] = some (.file "text") := by
    decide +kernel
  have hnew : r.store.isDirectory ["new"] = true := by
    decide +kernel
  have hsome : r.result.toOption.isSome = true := by
    decide +kernel
  rcases exists_ok_of_toOption hsome with ⟨m, hresult⟩
  rcases runAfter_ok hs hresult with ⟨root, i, p, hdelivered⟩
  exact ⟨hs, hold, hnew, m, root, i, p, hresult, hdelivered⟩

/-- An output whose path needs the link that is replaced. The module is there, but the path
neither leads to a file nor names one any more. -/
theorem output_through_own_link :
    let c : Configuration :=
      ⟨"h", "l/../l", none, [], [], [], none, "./cc", "c11", true, none, []⟩
    let s : Store := ⟨[(["l"], .link "d"), (["d"], .directory)], []⟩
    let r := c.runAfter s (.dumped [0x7b, 0x7d])
    s.WellFormed ∧ (∃ m, r.result = ok m ∧ r.store.lookup ["l"] = some (.file m.text)) ∧
      r.store.read? c.output = none ∧
      (r.store.entryPlace .busy c.output).toOption = none := by
  intro c s r
  have hs : s.WellFormed := by
    apply Store.wellFormed_of_entries
    decide
  have hsome : r.result.toOption.isSome = true := by
    decide +kernel
  have hunread : r.store.read? c.output = none := by
    decide +kernel
  have hunnamed : (r.store.entryPlace .busy c.output).toOption = none := by
    decide +kernel
  have hmodule : r.result.toOption.map (fun m => Entry.file m.text) = r.store.lookup ["l"] := by
    decide +kernel
  rcases exists_ok_of_toOption hsome with ⟨m, hresult⟩
  rw [hresult] at hmodule
  exact ⟨hs, ⟨m, hresult, hmodule.symm⟩, hunread, hunnamed⟩

end Configuration
end HeaderBinding
