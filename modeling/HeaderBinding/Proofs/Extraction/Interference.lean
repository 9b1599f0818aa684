import Mathlib.Logic.Relation
import HeaderBinding.Proofs.Dump.Edit
import HeaderBinding.Proofs.Dump.PreOrder
import HeaderBinding.Proofs.Extraction.Reading

/-!
# What cannot influence an extraction

An extraction sees only what the header declares itself. Trees that differ in the bodies
of functions, in nodes of no known kind, in declarations from elsewhere, or in ids, ranges
and spelling positions behind a macro, have the same extraction.
-/

namespace HeaderBinding

namespace HeaderScope

open Dump

/-- Whether no node that a walk over a subtree reaches is the header's own. -/
def IsForeign (scope : HeaderScope) (n : Node) : Prop :=
  ∀ m ∈ n.walk, m.entity.isImplicit = true ∨ scope.isLocal m = false

/-- One edit of a tree, or a subtree without anything of the header put below its root. -/
inductive Edit (scope : HeaderScope) : Node → Node → Prop where
  | within {n m : Node} (h : n.Edit m) : scope.Edit n m
  | foreign (id : UInt64) (front back : List Node) {n : Node} (h : scope.IsForeign n) :
      scope.Edit (.mk id .translationUnit (front ++ back))
        (.mk id .translationUnit (front ++ n :: back))

end HeaderScope

namespace Extraction

open Dump

/-!
# What is read of a list of children

Parameters, fields and enumerators are read off the children themselves, the value of an
initializer off the walks over them.
-/

def firstValue? (n : Node) : Option Int :=
  n.walk.findSome? fun m => m.entity.value?

/-- The name of an enumerator and the value of its initializer. -/
def constant? (n : Node) : Option (String × Option Int) :=
  match n.entity with
  | .enumerator _ name => some (name, initializer? n)
  | _ => none

def numbered (previous : Int) : List (String × Option Int) → List Enumerator
  | [] => []
  | (name, value?) :: rest =>
      let value := value?.getD (nextValue previous)
      ⟨name, value⟩ :: numbered value rest

theorem enumerators_eq_numbered (previous : Int) (ns : List Node) :
    enumerators previous ns = numbered previous (ns.filterMap constant?) := by
  induction ns generalizing previous with
  | nil =>
      rfl
  | cons n ns ih =>
      unfold enumerators
      split
      next extent name he =>
        have hn : constant? n = some (name, initializer? n) := by
          simp [constant?, he]
        rw [List.filterMap_cons_some hn]
        change _ :: enumerators _ ns = _
        rw [ih]
        rfl
      next he =>
        have hn : constant? n = none := by
          unfold constant?
          split
          next he' =>
            exact absurd he' (he _ _)
          next =>
            rfl
        rw [List.filterMap_cons_none hn, ih]

theorem initializer?_eq_findSome? (n : Node) :
    initializer? n = n.children.findSome? firstValue? := by
  unfold initializer?
  induction n.children with
  | nil =>
      rfl
  | cons m ms ih =>
      rw [List.flatMap_cons, List.findSome?_append, ih, List.findSome?_cons]
      unfold firstValue?
      cases m.walk.findSome? fun m => m.entity.value? with
      | none =>
          rfl
      | some v =>
          rfl

theorem firstValue?_eq (n : Node) :
    firstValue? n = n.entity.value?.or (n.entered.findSome? firstValue?) := by
  have h : ∀ ns : List Node, (ns.flatMap Node.walk).findSome? (fun m => m.entity.value?) =
      ns.findSome? firstValue? := by
    intro ns
    exact initializer?_eq_findSome? (.mk 0 .translationUnit ns)
  rw [firstValue?, Node.walk_eq, List.findSome?_cons, h]
  cases n.entity.value? with
  | none =>
      rfl
  | some v =>
      rfl

end Extraction

namespace HeaderScope

open Dump Extraction

/-!
# What an extraction sees
-/

/-- What a node declares itself, if it is the header's own. -/
def own (scope : HeaderScope) (n : Node) : List Declaration :=
  if !n.entity.isImplicit && scope.isLocal n then (declaration? n).toList else []

/-- What the header declares in the walk over a subtree. -/
def declared (scope : HeaderScope) (n : Node) : List Declaration :=
  (scope.declarations n).filterMap declaration?

theorem declared_eq_flatMap (scope : HeaderScope) (n : Node) :
    scope.declared n = n.walk.flatMap scope.own := by
  unfold declared declarations
  induction n.walk with
  | nil =>
      rfl
  | cons m ms ih =>
      rw [List.flatMap_cons, ← ih, List.filter_cons]
      unfold own
      split
      · cases hm : declaration? m with
        | none =>
            rw [List.filterMap_cons_none hm]
            rfl
        | some d =>
            rw [List.filterMap_cons_some hm]
            rfl
      · rfl

theorem declared_eq (scope : HeaderScope) (n : Node) :
    scope.declared n = scope.own n ++ n.entered.flatMap scope.declared := by
  rw [declared_eq_flatMap, Node.walk_eq, List.flatMap_cons, List.flatMap_assoc,
    funext (declared_eq_flatMap scope)]

/-- A translation unit declares what its children do. -/
theorem declared_translationUnit (scope : HeaderScope) (id : UInt64) (ns : List Node) :
    scope.declared (.mk id .translationUnit ns) = ns.flatMap scope.declared := by
  have hown : scope.own (.mk id .translationUnit ns) = [] := by
    unfold own
    rfl
  rw [declared_eq, hown, List.nil_append]
  rfl

/-- Lists of nodes in which an extraction sees the same. -/
structure SameView (scope : HeaderScope) (ns ms : List Node) : Prop where
  parameters : ns.filterMap parameter? = ms.filterMap parameter?
  fields : ns.filterMap field? = ms.filterMap field?
  constants : ns.filterMap constant? = ms.filterMap constant?
  value : ns.findSome? firstValue? = ms.findSome? firstValue?
  declared : ns.flatMap scope.declared = ms.flatMap scope.declared

theorem SameView.refl (scope : HeaderScope) (ns : List Node) : scope.SameView ns ns :=
  ⟨rfl, rfl, rfl, rfl, rfl⟩

theorem SameView.symm {scope : HeaderScope} {ns ms : List Node} (h : scope.SameView ns ms) :
    scope.SameView ms ns :=
  ⟨h.parameters.symm, h.fields.symm, h.constants.symm, h.value.symm, h.declared.symm⟩

theorem SameView.trans {scope : HeaderScope} {ns ms ls : List Node}
    (h : scope.SameView ns ms) (h' : scope.SameView ms ls) : scope.SameView ns ls :=
  ⟨h.parameters.trans h'.parameters, h.fields.trans h'.fields, h.constants.trans h'.constants,
    h.value.trans h'.value, h.declared.trans h'.declared⟩

theorem SameView.append {scope : HeaderScope} {ns ns' ms ms' : List Node}
    (hn : scope.SameView ns ns') (hm : scope.SameView ms ms') :
    scope.SameView (ns ++ ms) (ns' ++ ms') where
  parameters := by
    rw [List.filterMap_append, List.filterMap_append, hn.parameters, hm.parameters]
  fields := by
    rw [List.filterMap_append, List.filterMap_append, hn.fields, hm.fields]
  constants := by
    rw [List.filterMap_append, List.filterMap_append, hn.constants, hm.constants]
  value := by
    rw [List.findSome?_append, List.findSome?_append, hn.value, hm.value]
  declared := by
    rw [List.flatMap_append, List.flatMap_append, hn.declared, hm.declared]

/-- A replacement in the middle of a list. -/
theorem SameView.between {scope : HeaderScope} {ns ms : List Node} (h : scope.SameView ns ms)
    (front back : List Node) :
    scope.SameView (front ++ (ns ++ back)) (front ++ (ms ++ back)) :=
  (SameView.refl scope front).append (h.append (SameView.refl scope back))

/-- A list of nodes none of which is seen. -/
theorem SameView.of_forall {scope : HeaderScope} {ns : List Node}
    (h : ∀ n ∈ ns, scope.SameView [n] []) : scope.SameView ns [] := by
  induction ns with
  | nil =>
      exact SameView.refl scope []
  | cons n ns ih =>
      have hrest := ih fun m hm => h m (List.mem_cons_of_mem n hm)
      exact (h n List.mem_cons_self).append hrest

/-!
# Nodes in which it sees the same
-/

/-- Single nodes are seen alike if they read alike and so do the nodes that a walk goes on
to. -/
theorem sameView_singleton {scope : HeaderScope} {n m : Node}
    (hparameter : parameter? n = parameter? m) (hfield : field? n = field? m)
    (hconstant : constant? n = constant? m) (hvalue : n.entity.value? = m.entity.value?)
    (hown : scope.own n = scope.own m) (hentered : scope.SameView n.entered m.entered) :
    scope.SameView [n] [m] where
  parameters := by
    rw [List.filterMap_cons, List.filterMap_cons, hparameter]
  fields := by
    rw [List.filterMap_cons, List.filterMap_cons, hfield]
  constants := by
    rw [List.filterMap_cons, List.filterMap_cons, hconstant]
  value := by
    rw [List.findSome?_cons, List.findSome?_cons, firstValue?_eq n, firstValue?_eq m, hvalue,
      hentered.value]
  declared := by
    rw [List.flatMap_singleton, List.flatMap_singleton, declared_eq, declared_eq, hown,
      hentered.declared]

/-- What a node declares depends on its children by what is read of them. -/
theorem declaration?_congr {scope : HeaderScope} {ns ms : List Node}
    (h : scope.SameView ns ms) (id : UInt64) (entity : Entity) :
    declaration? (.mk id entity ns) = declaration? (.mk id entity ms) := by
  have hfunction : ∀ name type variadic,
      function name type variadic ns = function name type variadic ms := by
    intro name type variadic
    rw [function_eq, function_eq, h.parameters]
  have hrecord : ∀ name tag, record name tag ns = record name tag ms := by
    intro name tag
    rw [record_eq, record_eq, h.fields]
  have henumeration : ∀ name fixed,
      enumeration name fixed ns = enumeration name fixed ms := by
    intro name fixed
    rw [enumeration_eq, enumeration_eq, enumerators_eq_numbered, enumerators_eq_numbered,
      h.constants]
  rw [declaration?_eq, declaration?_eq]
  simp only [Node.entity, Node.children, hfunction, hrecord, henumeration]

/-- Children that are seen alike make their parents be seen alike. -/
theorem sameView_children {scope : HeaderScope} {ns ms : List Node}
    (h : scope.SameView ns ms) (id : UInt64) (entity : Entity) :
    scope.SameView [.mk id entity ns] [.mk id entity ms] := by
  apply sameView_singleton
  · rfl
  · rfl
  · unfold constant?
    rw [initializer?_eq_findSome?, initializer?_eq_findSome?]
    simp only [Node.entity, Node.children, h.value]
  · rfl
  · unfold own
    rw [declaration?_congr h]
    rfl
  · unfold Node.entered
    cases entity with
    | compoundStatement range =>
        exact SameView.refl scope []
    | _ =>
        exact h

/-- Nodes of no known kind are not seen at all. -/
theorem sameView_of_onlyOther (scope : HeaderScope) {n : Node} (h : n.OnlyOther) :
    scope.SameView [n] [] := by
  induction h with
  | mk id kind extent _ ih =>
      have hown : scope.own (.mk id (.other kind extent) []) = [] := by
        unfold own
        split <;> rfl
      have hleaf : scope.SameView [.mk id (.other kind extent) []] [] := by
        constructor
        · rfl
        · rfl
        · rfl
        · rw [List.findSome?_cons, firstValue?_eq]
          rfl
        · rw [List.flatMap_singleton, declared_eq, hown]
          rfl
      exact (sameView_children (SameView.of_forall ih) id (.other kind extent)).trans hleaf

/-- The place of a node matters only by the position that decides its file. -/
theorem sameView_place (scope : HeaderScope) (id newId : UInt64) {entity : Entity} {x : Extent}
    (children : List Node) (h : Location.SameExpansion entity.extent.location x.location) :
    scope.SameView [.mk id entity children] [.mk newId (entity.withExtent x) children] := by
  have hlocal : scope.isLocal (.mk id entity children) =
      scope.isLocal (.mk newId (entity.withExtent x) children) := by
    unfold isLocal
    simp only [Node.entity, Entity.bind_deciding_withExtent h]
  have hdeclaration : declaration? (.mk id entity children) =
      declaration? (.mk newId (entity.withExtent x) children) := by
    cases entity with
    | record extent name tag complete implicit =>
        cases name <;> cases complete <;> rfl
    | enumeration extent name fixedType implicit =>
        cases name <;> rfl
    | _ =>
        rfl
  apply sameView_singleton
  · cases entity <;> rfl
  · cases entity <;> rfl
  · cases entity <;> rfl
  · cases entity <;> rfl
  · have himplicit : (entity.withExtent x).isImplicit = entity.isImplicit := by
      cases entity <;> rfl
    unfold own
    rw [hlocal, hdeclaration]
    simp only [Node.entity, himplicit]
    rfl
  · have hentered : (Node.mk newId (entity.withExtent x) children).entered =
        (Node.mk id entity children).entered := by
      cases entity <;> rfl
    rw [hentered]
    exact SameView.refl scope _

/-!
# Edits
-/

theorem sameView_of_edit (scope : HeaderScope) {n m : Node} (h : n.Edit m) :
    scope.SameView [n] [m] := by
  induction h with
  | body id range before after =>
      apply sameView_singleton
      · rfl
      · rfl
      · rfl
      · rfl
      · unfold own
        rfl
      · exact SameView.refl scope []
  | insert id entity front back hother =>
      apply sameView_children
      exact (sameView_of_onlyOther scope hother).symm.between front back
  | place id newId entity x children hplace =>
      exact sameView_place scope id newId children hplace
  | inside id entity front back _ ih =>
      apply sameView_children
      exact ih.between front back

theorem declared_of_isForeign {scope : HeaderScope} {n : Node} (h : scope.IsForeign n) :
    scope.declared n = [] := by
  rw [declared_eq_flatMap]
  apply List.flatMap_eq_nil_iff.mpr
  intro m hm
  unfold own
  rcases h m hm with himplicit | hlocal
  · rw [himplicit]
    rfl
  · rw [hlocal, Bool.and_false]
    rfl

theorem declared_of_edit {scope : HeaderScope} {root other : Node}
    (h : scope.Edit root other) : scope.declared root = scope.declared other := by
  cases h with
  | within hedit =>
      have hview := (sameView_of_edit scope hedit).declared
      rwa [List.flatMap_singleton, List.flatMap_singleton] at hview
  | foreign id front back hforeign =>
      rw [declared_translationUnit, declared_translationUnit, List.flatMap_append,
        List.flatMap_append, List.flatMap_cons, declared_of_isForeign hforeign, List.nil_append]

/-- What is not the header's own declaration cannot influence its binding. -/
theorem extract_eq_of_edits {scope : HeaderScope} {root other : Node}
    (h : Relation.EqvGen scope.Edit root other) : scope.extract root = scope.extract other := by
  have hdeclared : scope.declared root = scope.declared other := by
    induction h with
    | rel root other hedit =>
        exact declared_of_edit hedit
    | refl root =>
        rfl
    | symm root other _ ih =>
        exact ih.symm
    | trans root between other _ _ ih₁ ih₂ =>
        exact ih₁.trans ih₂
  rw [extract_eq, extract_eq]
  exact congrArg (fun ds => (Declarations.ofList ds).check) hdeclared

/-- A function from a macro that gets another body, a comment, a new id and another
spelling position, next to a global of another header. -/
theorem extract_eq_of_edits_function :
    let scope := Sample.scope
    let expanded (file : String) : Extent :=
      ⟨some ⟨some (Sample.positionIn file), some (Sample.positionIn "lib.h")⟩, none⟩
    let elsewhere : Extent := ⟨some (.plain (Sample.positionIn "stdio.h")), none⟩
    let remark : Node := .mk 2 (.other (some "FullComment") elsewhere) []
    let parameter : Node := .mk 3 (.parameter (expanded "lib.h") none ⟨"int", none⟩) []
    let foreign : Node := .mk 5 (.global elsewhere "errno" ⟨"int", none⟩ false) []
    let body (children : List Node) : Node := .mk 4 (.compoundStatement none) children
    let function (id : UInt64) (file : String) (children : List Node) : Node :=
      .mk id (.function (expanded file) "f" ⟨"int (int)", none⟩ none false) children
    let unit := Sample.unit
    let root := unit [function 1 "lib.h" [parameter, body []]]
    let other := unit [foreign, function 6 "macros.h" [remark, parameter, body [foreign]]]
    Relation.EqvGen scope.Edit root other ∧ scope.extract root = scope.extract other := by
  intro scope expanded elsewhere remark parameter foreign body function unit root other
  have hbody : scope.Edit root (unit [function 1 "lib.h" [parameter, body [foreign]]]) :=
    .within (.inside 0 _ [] [] (.inside 1 _ [parameter] [] (.body 4 none [] [foreign])))
  have hremark : remark.OnlyOther :=
    .mk 2 _ _ fun _ hc => absurd hc List.not_mem_nil
  have hinsert : scope.Edit (unit [function 1 "lib.h" [parameter, body [foreign]]])
      (unit [function 1 "lib.h" [remark, parameter, body [foreign]]]) :=
    .within (.inside 0 _ [] [] (.insert 1 _ [] _ hremark))
  have hplace : scope.Edit (unit [function 1 "lib.h" [remark, parameter, body [foreign]]])
      (unit [function 6 "macros.h" [remark, parameter, body [foreign]]]) :=
    .within (.inside 0 _ [] [] (.place 1 6 _ (expanded "macros.h") _ (.respelled _ _ _)))
  have hlocal : scope.isLocal foreign = false := by
    decide +kernel
  have hforeign : scope.IsForeign foreign := by
    intro m hm
    rw [Node.walk_eq] at hm
    rcases List.mem_singleton.mp hm with rfl
    exact Or.inr hlocal
  have hadd : scope.Edit (unit [function 6 "macros.h" [remark, parameter, body [foreign]]])
      other :=
    .foreign 0 [] _ hforeign
  have hedits : Relation.EqvGen scope.Edit root other :=
    .trans _ _ _ (.rel _ _ hbody) (.trans _ _ _ (.rel _ _ hinsert)
      (.trans _ _ _ (.rel _ _ hplace) (.rel _ _ hadd)))
  exact ⟨hedits, extract_eq_of_edits hedits⟩

end HeaderScope
end HeaderBinding
