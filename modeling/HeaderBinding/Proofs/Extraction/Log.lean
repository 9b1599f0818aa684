import Mathlib.Data.List.Forall2
import HeaderBinding.Proofs.Event
import HeaderBinding.Proofs.Extraction.Entries
import HeaderBinding.Outcome

/-!
# The log of an extraction

The log takes the nodes of the header in the order of the walk, and the summary ends it. A
record or an enumeration is either in its category or skipped with a line of its own, and
each type that passes through has a line on the node that it comes from.
-/

namespace HeaderBinding

open Dump Text

/-- The line on a type that passes through under a name. -/
def passingLine (name : String) : String :=
  "DEBUG Passing through unrecognized type " ++ quoted name

theorem line_passingThrough (name : String) :
    (Event.passingThrough name).line = passingLine name :=
  Event.line_of_message rfl

namespace Extraction

/-- The line on a record or an enumeration that is skipped. -/
def skippingLine? (n : Node) : Option String :=
  match n.entity with
  | .record _ name _ _ _ =>
      some ("DEBUG Skipping anonymous or forward-declared record " ++ quotedOption name)
  | .enumeration _ name _ _ =>
      some ("DEBUG Skipping anonymous enum " ++ quotedOption name)
  | _ => none

/-- Whether a node is a record or an enumeration that its category takes. -/
def Enters (n : Node) : Prop :=
  (structOf? n).isSome ∨ (unionOf? n).isSome ∨ (enumerationOf? n).isSome

instance (n : Node) : Decidable (Enters n) :=
  inferInstanceAs (Decidable (_ ∨ _))

/-- What a log may say on a single node. -/
structure LogsNode (n : Node) (lines : List String) : Prop where
  debug : ∀ line ∈ lines, StartsWith "DEBUG " line
  entered : Enters n → ∀ line ∈ lines, ¬StartsWith "DEBUG Skipping " line
  skipped : ∀ line, skippingLine? n = some line → ¬Enters n → lines = [line]
  other : skippingLine? n = none → ∀ line ∈ lines, ¬StartsWith "DEBUG Skipping " line

/-!
# Single nodes
-/

theorem isSome_declaration?_of_enters {n : Node} (h : Enters n) :
    (declaration? n).isSome = true := by
  rcases bind_category? n with ⟨_, hstruct, hunion, henumeration, _⟩
  unfold Enters at h
  rw [← hstruct, ← hunion, ← henumeration] at h
  cases hd : declaration? n with
  | none =>
      rw [hd] at h
      simp at h
  | some d =>
      rfl

theorem enters_of_declaration? {n : Node} {d : Declaration} {line : String}
    (h : declaration? n = some d) (hline : skippingLine? n = some line) : Enters n := by
  rcases bind_category? n with ⟨_, hstruct, hunion, henumeration, _⟩
  unfold Enters
  rw [← hstruct, ← hunion, ← henumeration, h]
  cases d with
  | record r =>
      cases hr : r.isUnion <;> simp [Declaration.struct?, Declaration.union?, hr]
  | enumeration e =>
      exact .inr (.inr rfl)
  | function _ | typedef _ | global _ =>
      rw [declaration?_eq] at h
      unfold skippingLine? at hline
      split at h <;> simp_all

theorem skippingLine?_eq (n : Node) : skippingLine? n = (skipped? n).map Event.line := by
  unfold skippingLine? skipped?
  cases n.entity with
  | record _ name _ _ _ =>
      exact congrArg some (Event.line_of_message (e := .skippingRecord name) rfl).symm
  | enumeration _ name _ _ =>
      exact congrArg some (Event.line_of_message (e := .skippingEnumeration name) rfl).symm
  | _ =>
      rfl

/-- A node that declares something is not skipped, all lines on it are on its types. -/
theorem kind_of_mem_events {n : Node} {d : Declaration} (h : declaration? n = some d)
    {e : Event} (he : e ∈ events n) : e.kind = .passingThrough := by
  rw [events_eq, h] at he
  rcases List.mem_flatMap.mp he with ⟨t, _, ht⟩
  rcases Option.map_eq_some_iff.mp (Option.mem_toList.mp ht) with ⟨name, _, rfl⟩
  rfl

theorem level_of_skipped? {n : Node} {e : Event} (h : skipped? n = some e) :
    e.kind.level = .debug := by
  unfold skipped? at h
  cases he : n.entity with
  | record _ _ _ _ _ | enumeration _ _ _ _ =>
      rw [he] at h
      cases h
      rfl
  | _ =>
      rw [he] at h
      cases h

theorem logsNode_of_declaration? {n : Node} {d : Declaration} (h : declaration? n = some d) :
    LogsNode n ((events n).map Event.line) := by
  have hkind : ∀ line ∈ (events n).map Event.line,
      StartsWith "DEBUG " line ∧ ¬StartsWith "DEBUG Skipping " line := by
    intro line hline
    rcases List.mem_map.mp hline with ⟨e, he, rfl⟩
    rw [Event.startsWith_debug_iff, Event.startsWith_skipping_iff, kind_of_mem_events h he]
    decide
  constructor
  · exact fun line hline => (hkind line hline).1
  · exact fun _ line hline => (hkind line hline).2
  · exact fun line hline hout => absurd (enters_of_declaration? h hline) hout
  · exact fun _ line hline => (hkind line hline).2

theorem logsNode_of_skipped {n : Node} (h : declaration? n = none) :
    LogsNode n ((events n).map Event.line) := by
  have hout : ¬Enters n := by
    intro henters
    have hsome := isSome_declaration?_of_enters henters
    rw [h] at hsome
    cases hsome
  have hevents : events n = (skipped? n).toList := by
    rw [events_eq, h]
  have hlines : (events n).map Event.line = (skippingLine? n).toList := by
    rw [hevents, skippingLine?_eq]
    cases skipped? n <;> rfl
  constructor
  · intro line hline
    rcases List.mem_map.mp hline with ⟨e, he, rfl⟩
    rw [hevents, Option.mem_toList] at he
    exact (Event.startsWith_debug_iff e).mpr (level_of_skipped? he)
  · exact fun henters => absurd henters hout
  · intro line hline _
    rw [hlines, hline]
    rfl
  · intro hnone line hline
    rw [hlines, hnone] at hline
    cases hline

theorem logsNode_events (n : Node) : LogsNode n ((events n).map Event.line) := by
  cases hd : declaration? n with
  | none =>
      exact logsNode_of_skipped hd
  | some d =>
      exact logsNode_of_declaration? hd

/-- A type that passes through has its line among those of the node that it comes from. -/
theorem passingLine_mem_events {n : Node} {d : Declaration} {t : ForeignType} {name : String}
    (h : declaration? n = some d) (ht : t ∈ d.types) (hname : t.opaqueName? = some name) :
    passingLine name ∈ (events n).map Event.line := by
  have hevent : .passingThrough name ∈ events n := by
    rw [events_eq, h]
    refine List.mem_flatMap.mpr ⟨t, ht, ?_⟩
    rw [passing, hname]
    exact List.mem_singleton_self _
  rw [← line_passingThrough]
  exact List.mem_map_of_mem hevent

end Extraction

/-!
# The whole log
-/

namespace HeaderScope

open Extraction

/-- Nothing passes through or is left out without a line: the log has the lines of one node
after the other and then the summary. -/
theorem log_of_extract {scope : HeaderScope} {root : Node} {d : Declarations}
    (h : scope.extract root = .ok d) :
    let nodes := root.walk.filter fun n => !n.entity.isImplicit && scope.isLocal n
    ∃ groups : List (List String),
      (scope.extractionEvents root).map Event.line =
          groups.flatten ++ ["INFO Extracted " ++ d.summary] ∧
        List.Forall₂ LogsNode nodes groups ∧
        (∀ t ∈ d.types, ∀ name ∈ t.opaqueName?, passingLine name ∈ groups.flatten) ∧
        d.structs = sortNamed Record.name (nodes.filterMap structOf?) ∧
        d.unions = sortNamed Record.name (nodes.filterMap unionOf?) ∧
        d.enums = sortNamed Enumeration.name (nodes.filterMap enumerationOf?) := by
  intro nodes
  refine ⟨nodes.map fun n => (events n).map Event.line, ?_, ?_, ?_, ?_⟩
  · have hsummary : (Event.extracted d.summary).line = "INFO Extracted " ++ d.summary :=
      Event.line_of_message rfl
    have hlog : scope.extractionEvents root = nodes.flatMap events ++ [.extracted d.summary] := by
      rw [extractionEvents_eq, h]
      rfl
    rw [hlog, List.map_append, List.map_flatMap, List.map_singleton, hsummary]
    rfl
  · rw [List.forall₂_map_right_iff, List.forall₂_same]
    exact fun n _ => logsNode_events n
  · intro t ht name hname
    rcases List.mem_flatMap.mp ht with ⟨x, hx, htx⟩
    rcases exists_declaration?_of_extract h hx with ⟨n, hn, hnx⟩
    have hline := passingLine_mem_events hnx htx hname
    exact List.mem_flatten.mpr ⟨_, List.mem_map_of_mem hn, hline⟩
  · rw [eq_ofList_of_extract h]
    refine ⟨?_, ?_, ?_⟩
    · exact congrArg (sortNamed Record.name)
        (filterMap_category nodes fun n => (bind_category? n).2.1)
    · exact congrArg (sortNamed Record.name)
        (filterMap_category nodes fun n => (bind_category? n).2.2.1)
    · exact congrArg (sortNamed Enumeration.name)
        (filterMap_category nodes fun n => (bind_category? n).2.2.2.1)

/-- A struct that is declared and defined again, beside an enumeration without a name. The
type in its first definition is reported all the same. -/
theorem log_of_extract_redefined :
    let scope := Sample.scope
    let root := Sample.unit
      [ Sample.record "r" "struct" true [Sample.field "x" "T"], Sample.record "r" "struct" false [],
        Sample.enumeration none [], Sample.definition "t" "U *",
        Sample.record "r" "struct" true [Sample.field "x" "int"] ]
    let nodes := root.walk.filter fun n => !n.entity.isImplicit && scope.isLocal n
    let d : Declarations :=
      ⟨[], [⟨"r", [⟨"x", .i32⟩], false⟩], [], [], [⟨"t", .ptr (.named "U")⟩], []⟩
    scope.extract root = .ok d ∧
      (scope.extractionEvents root).map Event.line =
        [ "DEBUG Passing through unrecognized type \"T\"",
          "DEBUG Skipping anonymous or forward-declared record Some(\"r\")",
          "DEBUG Skipping anonymous enum None",
          "DEBUG Passing through unrecognized type \"U\"",
          "INFO Extracted 0 functions, 1 structs, 0 unions, 0 enums, 1 typedefs, 0 globals" ] ∧
      ∃ groups : List (List String),
        (scope.extractionEvents root).map Event.line =
            groups.flatten ++ ["INFO Extracted " ++ d.summary] ∧
          List.Forall₂ LogsNode nodes groups ∧ passingLine "U" ∈ groups.flatten := by
  intro scope root nodes d
  have h : scope.extract root = .ok d :=
    eq_ok_of_toOption (by decide +kernel)
  rcases log_of_extract h with ⟨groups, hlog, hnodes, hpassing, _⟩
  have hline : passingLine "U" ∈ groups.flatten :=
    hpassing (.ptr (.named "U")) (by decide) "U" rfl
  exact ⟨h, by decide +kernel, groups, hlog, hnodes, hline⟩

end HeaderScope
end HeaderBinding
