import HeaderBinding.Extraction

/-!
# What is read of a node

What a node declares does not depend on the reports that are made while it is read. A node
that declares something is reported by those of its types that pass through, in the order in
which they are mapped, and any other node by one line if it is a record or an enumeration.
-/

namespace HeaderBinding

open Dump

namespace Extraction

@[simp]
theorem value_mapType (spelling : String) : (mapType spelling).value = .ofSpelling spelling :=
  rfl

@[simp]
theorem events_mapType (spelling : String) :
    (mapType spelling).events = passing (.ofSpelling spelling) :=
  rfl

/-!
# Members
-/

def typedNames (stem : String) (members : List (Option String × String)) : List TypedName :=
  members.mapIdx fun i m => ⟨nameAt stem i m.1, .ofSpelling m.2⟩

@[simp]
theorem value_mapMembers (stem : String) (members : List (Option String × String)) :
    (mapMembers stem members).value = typedNames stem members := by
  unfold mapMembers typedNames
  rw [Logged.value_all, List.mapIdx_eq_zipIdx_map, List.mapIdx_eq_zipIdx_map, List.map_map]
  rfl

@[simp]
theorem events_mapMembers (stem : String) (members : List (Option String × String)) :
    (mapMembers stem members).events =
      ((typedNames stem members).map TypedName.type).flatMap passing := by
  unfold mapMembers typedNames
  rw [Logged.events_all, List.mapIdx_eq_zipIdx_map, List.mapIdx_eq_zipIdx_map, List.map_map,
    List.flatMap_map, List.flatMap_map]
  refine congrArg (List.flatMap · _) (funext fun m => ?_)
  exact List.append_nil _

/-!
# Declarations
-/

theorem function_eq (name : String) (type : TypeSpelling) (variadic : Option Bool)
    (children : List Node) :
    function name type variadic children =
      { name
        returns := .ofSpelling (splitFunction (functionSpelling type)).1
        parameters := typedNames "param" (children.filterMap parameter?)
        variadic :=
          variadic.getD (Spelling.isVariadic (splitFunction (functionSpelling type)).2) } := by
  unfold function readFunction
  simp

theorem record_eq (name : String) (tag : Option String) (children : List Node) :
    record name tag children =
      { name
        fields := typedNames "field" (children.filterMap field?)
        isUnion := tag = some "union" } := by
  unfold record readRecord
  simp

theorem enumeration_eq (name : String) (fixed : Option TypeSpelling) (children : List Node) :
    enumeration name fixed children =
      { name
        underlying :=
          match fixed with
          | some type => .ofSpelling type.resolvedOrWritten
          | none => .i32
        values := enumerators (-1) children } := by
  cases fixed <;> rfl

theorem declaration?_eq (n : Node) :
    declaration? n =
      match n.entity with
      | .function _ name type variadic _ =>
          some (.function (function name type variadic n.children))
      | .record _ (some name) tag true _ =>
          if name = "" then none else some (.record (record name tag n.children))
      | .enumeration _ (some name) fixed _ =>
          if name = "" then none else some (.enumeration (enumeration name fixed n.children))
      | .typedef _ name type _ => some (.typedef ⟨name, .ofSpelling type.resolvedOrWritten⟩)
      | .global _ name type _ => some (.global ⟨name, .ofSpelling type.written⟩)
      | _ => none := by
  unfold declaration? readNode
  cases n.entity with
  | record extent name tag complete implicit =>
      cases name with
      | none =>
          rfl
      | some name =>
          cases complete with
          | false =>
              rfl
          | true =>
              dsimp only
              split <;> rfl
  | enumeration extent name fixed implicit =>
      cases name with
      | none =>
          rfl
      | some name =>
          dsimp only
          split <;> rfl
  | _ =>
      rfl

/-!
# Reports
-/

theorem events_readFunction (name : String) (type : TypeSpelling) (variadic : Option Bool)
    (children : List Node) :
    (readFunction name type variadic children).events =
      (Declaration.function (function name type variadic children)).types.flatMap passing := by
  rw [function_eq]
  unfold readFunction Declaration.types
  simp

theorem events_readRecord (name : String) (tag : Option String) (children : List Node) :
    (readRecord name tag children).events =
      (Declaration.record (record name tag children)).types.flatMap passing := by
  rw [record_eq]
  unfold readRecord Declaration.types
  simp

theorem events_readEnumeration (name : String) (fixed : Option TypeSpelling)
    (children : List Node) :
    (readEnumeration name fixed children).events =
      (Declaration.enumeration (enumeration name fixed children)).types.flatMap passing := by
  rw [enumeration_eq]
  unfold readEnumeration Declaration.types
  cases fixed <;> simp [passing, ForeignType.opaqueName?]

/-- The report on a node that might have declared something and does not. -/
def skipped? (n : Node) : Option Event :=
  match n.entity with
  | .record _ name _ _ _ => some (.skippingRecord name)
  | .enumeration _ name _ _ => some (.skippingEnumeration name)
  | _ => none

theorem events_eq (n : Node) :
    events n =
      match declaration? n with
      | some d => d.types.flatMap passing
      | none => (skipped? n).toList := by
  rw [declaration?_eq]
  unfold events readNode skipped?
  cases n.entity with
  | function extent name type variadic implicit =>
      exact (List.append_nil _).trans (events_readFunction name type variadic n.children)
  | record extent name tag complete implicit =>
      cases name with
      | none =>
          rfl
      | some name =>
          cases complete with
          | false =>
              rfl
          | true =>
              dsimp only
              split
              · rfl
              · exact (List.append_nil _).trans (events_readRecord name tag n.children)
  | enumeration extent name fixed implicit =>
      cases name with
      | none =>
          rfl
      | some name =>
          dsimp only
          split
          · rfl
          · exact (List.append_nil _).trans (events_readEnumeration name fixed n.children)
  | typedef extent name type implicit =>
      rfl
  | global extent name type implicit =>
      rfl
  | _ =>
      rfl

end Extraction

/-!
# The whole header
-/

namespace HeaderScope

open Extraction

theorem extract_eq (scope : HeaderScope) (root : Node) :
    scope.extract root =
      (Declarations.ofList ((scope.declarations root).filterMap declaration?)).check := by
  have hread : (Logged.all ((scope.declarations root).map readNode)).value.filterMap id =
      (scope.declarations root).filterMap declaration? := by
    rw [Logged.value_all, List.map_map, List.filterMap_map]
    rfl
  unfold extract extraction
  rw [Logged.value_bind, hread]
  generalize (Declarations.ofList _).check = result
  cases result <;> rfl

theorem extractionEvents_eq (scope : HeaderScope) (root : Node) :
    scope.extractionEvents root =
      (scope.declarations root).flatMap events ++
        match scope.extract root with
        | .ok d => [.extracted d.summary]
        | .error _ => [] := by
  unfold extractionEvents extract extraction
  rw [Logged.events_bind, Logged.events_all, Logged.value_bind, List.flatMap_map]
  generalize (Declarations.ofList _).check = result
  cases result <;> rfl

end HeaderScope

/-!
# Nodes to look at

Small nodes of one header, at one place, for looking at what the theorems say about a tree.
-/

namespace Sample

def scope : HeaderScope :=
  ⟨⟨[], []⟩, "lib.h"⟩

def positionIn (file : String) : Position :=
  ⟨0, file, 1, none, none, 1, 1, none, false⟩

def extent : Extent :=
  ⟨some (.plain (positionIn "lib.h")), none⟩

def unit (children : List Node) : Node :=
  .mk 0 .translationUnit children

def function (name type : String) (children : List Node) : Node :=
  .mk 0 (.function extent name ⟨type, none⟩ none false) children

def parameter (name : Option String) (type : String) : Node :=
  .mk 0 (.parameter extent name ⟨type, none⟩) []

/-- A definition, or a declaration ahead of one. -/
def record (name tag : String) (complete : Bool) (children : List Node) : Node :=
  .mk 0 (.record extent (some name) (some tag) complete false) children

def field (name : Option String) (type : String) : Node :=
  .mk 0 (.field extent name ⟨type, none⟩ false) []

def enumeration (name : Option String) (children : List Node) : Node :=
  .mk 0 (.enumeration extent name none false) children

def enumerator (name : String) (children : List Node) : Node :=
  .mk 0 (.enumerator extent name) children

def definition (name type : String) : Node :=
  .mk 0 (.typedef extent name ⟨type, none⟩ false) []

def global (name type : String) : Node :=
  .mk 0 (.global extent name ⟨type, none⟩ false) []

end Sample
end HeaderBinding
