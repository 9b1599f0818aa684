import HeaderBinding.Proofs.Extraction.Reading
import HeaderBinding.Proofs.Text.Order

/-!
# The content of an extraction

An extraction holds, category by category, one entry for each name that a node of the
header bears in that category. The entries ascend by name, and each is built from the
last node that bears its name.
-/

namespace HeaderBinding

open Dump Text

namespace Declaration

def name : Declaration → String
  | function f => f.name
  | record r => r.name
  | enumeration e => e.name
  | typedef t => t.name
  | global g => g.name

theorem eq_function_of_function? {d : Declaration} {f : Function} (h : d.function? = some f) :
    d = function f := by
  cases d with
  | function _ =>
      cases h
      rfl
  | record _ | enumeration _ | typedef _ | global _ =>
      cases h

theorem eq_record_of_struct? {d : Declaration} {r : Record} (h : d.struct? = some r) :
    d = record r := by
  cases d with
  | record _ =>
      simp only [struct?, Option.ite_none_left_eq_some, Option.some_inj] at h
      rw [h.2]
  | function _ | enumeration _ | typedef _ | global _ =>
      cases h

theorem eq_record_of_union? {d : Declaration} {r : Record} (h : d.union? = some r) :
    d = record r := by
  cases d with
  | record _ =>
      simp only [union?, Option.ite_none_right_eq_some, Option.some_inj] at h
      rw [h.2]
  | function _ | enumeration _ | typedef _ | global _ =>
      cases h

theorem eq_enumeration_of_enumeration? {d : Declaration} {e : Enumeration}
    (h : d.enumeration? = some e) : d = enumeration e := by
  cases d with
  | enumeration _ =>
      cases h
      rfl
  | function _ | record _ | typedef _ | global _ =>
      cases h

theorem eq_typedef_of_typedef? {d : Declaration} {t : TypedName} (h : d.typedef? = some t) :
    d = typedef t := by
  cases d with
  | typedef _ =>
      cases h
      rfl
  | function _ | record _ | enumeration _ | global _ =>
      cases h

theorem eq_global_of_global? {d : Declaration} {g : TypedName} (h : d.global? = some g) :
    d = global g := by
  cases d with
  | global _ =>
      cases h
      rfl
  | function _ | record _ | enumeration _ | typedef _ =>
      cases h

theorem name_of_function? {d : Declaration} {f : Function} (h : d.function? = some f) :
    d.name = f.name :=
  congrArg name (eq_function_of_function? h)

theorem name_of_struct? {d : Declaration} {r : Record} (h : d.struct? = some r) :
    d.name = r.name :=
  congrArg name (eq_record_of_struct? h)

theorem name_of_union? {d : Declaration} {r : Record} (h : d.union? = some r) :
    d.name = r.name :=
  congrArg name (eq_record_of_union? h)

theorem name_of_enumeration? {d : Declaration} {e : Enumeration} (h : d.enumeration? = some e) :
    d.name = e.name :=
  congrArg name (eq_enumeration_of_enumeration? h)

theorem name_of_typedef? {d : Declaration} {t : TypedName} (h : d.typedef? = some t) :
    d.name = t.name :=
  congrArg name (eq_typedef_of_typedef? h)

theorem name_of_global? {d : Declaration} {g : TypedName} (h : d.global? = some g) :
    d.name = g.name :=
  congrArg name (eq_global_of_global? h)

end Declaration

namespace Extraction

/-!
# What a node adds to a category

A record or an enumeration counts if it has a name, a record only where it is defined.
-/

def functionOf? (n : Node) : Option Function :=
  match n.entity with
  | .function _ name type variadic _ => some (function name type variadic n.children)
  | _ => none

def structOf? (n : Node) : Option Record :=
  match n.entity with
  | .record _ (some name) tag true _ =>
      if name ≠ "" ∧ tag ≠ some "union" then some (record name tag n.children) else none
  | _ => none

def unionOf? (n : Node) : Option Record :=
  match n.entity with
  | .record _ (some name) tag true _ =>
      if name ≠ "" ∧ tag = some "union" then some (record name tag n.children) else none
  | _ => none

def enumerationOf? (n : Node) : Option Enumeration :=
  match n.entity with
  | .enumeration _ (some name) fixed _ =>
      if name ≠ "" then some (enumeration name fixed n.children) else none
  | _ => none

def typedefOf? (n : Node) : Option TypedName :=
  match n.entity with
  | .typedef _ name type _ => some ⟨name, .ofSpelling type.resolvedOrWritten⟩
  | _ => none

def globalOf? (n : Node) : Option TypedName :=
  match n.entity with
  | .global _ name type _ => some ⟨name, .ofSpelling type.written⟩
  | _ => none

/-- The entries of one category of the given nodes, in the order of the walk. -/
structure Content (name : α → String) (of? : Node → Option α) (nodes : List Node)
    (entries : List α) : Prop where
  ascending : Ascending name entries
  names : ∀ s, (∃ x ∈ entries, name x = s) ↔
    ∃ n ∈ nodes, (of? n).isSome ∧ n.entity.name? = some s
  last : ∀ x ∈ entries, ∃ front n back, nodes = front ++ n :: back ∧ of? n = some x ∧
    ∀ m ∈ back, (of? m).isSome → m.entity.name? ≠ some (name x)

/-!
# Categories of the declarations

The category of a node is that of what it declares.
-/

theorem bind_category? (n : Node) :
    (declaration? n).bind Declaration.function? = functionOf? n ∧
      (declaration? n).bind Declaration.struct? = structOf? n ∧
      (declaration? n).bind Declaration.union? = unionOf? n ∧
      (declaration? n).bind Declaration.enumeration? = enumerationOf? n ∧
      (declaration? n).bind Declaration.typedef? = typedefOf? n ∧
      (declaration? n).bind Declaration.global? = globalOf? n := by
  rw [declaration?_eq]
  unfold functionOf? structOf? unionOf? enumerationOf? typedefOf? globalOf?
  cases he : n.entity with
  | record extent name tag complete implicit =>
      cases complete with
      | false =>
          cases name <;> exact ⟨rfl, rfl, rfl, rfl, rfl, rfl⟩
      | true =>
          cases name with
          | none =>
              exact ⟨rfl, rfl, rfl, rfl, rfl, rfl⟩
          | some name =>
              by_cases hname : name = ""
              · simp [hname]
              · by_cases htag : tag = some "union"
                · simp [hname, htag, record_eq, Declaration.function?, Declaration.struct?,
                    Declaration.union?, Declaration.enumeration?, Declaration.typedef?,
                    Declaration.global?]
                · simp [hname, htag, record_eq, Declaration.function?, Declaration.struct?,
                    Declaration.union?, Declaration.enumeration?, Declaration.typedef?,
                    Declaration.global?]
  | enumeration extent name fixedType implicit =>
      cases name with
      | none =>
          exact ⟨rfl, rfl, rfl, rfl, rfl, rfl⟩
      | some name =>
          by_cases hname : name = ""
          · simp [hname]
          · simp [hname, Declaration.function?, Declaration.struct?, Declaration.union?,
              Declaration.enumeration?, Declaration.typedef?, Declaration.global?]
  | _ =>
      exact ⟨rfl, rfl, rfl, rfl, rfl, rfl⟩

/-- A declaration bears the name of its node. -/
theorem name?_of_declaration? {n : Node} {d : Declaration} (h : declaration? n = some d) :
    n.entity.name? = some d.name := by
  rw [declaration?_eq] at h
  split at h
  next he =>
    cases h
    rw [he]
    rfl
  next he =>
    split at h
    · cases h
    · cases h
      rw [he]
      rfl
  next he =>
    split at h
    · cases h
    · cases h
      rw [he]
      rfl
  next he =>
    cases h
    rw [he]
    rfl
  next he =>
    cases h
    rw [he]
    rfl
  next =>
    cases h

/-!
# Collecting a category
-/

/-- An entry is read off the last node that bears its name. -/
theorem mem_sortNamed_filterMap {name : α → String} {of? : Node → Option α}
    (hname : ∀ n x, of? n = some x → n.entity.name? = some (name x)) {nodes : List Node}
    {x : α} :
    x ∈ sortNamed name (nodes.filterMap of?) ↔
      ∃ front n back, nodes = front ++ n :: back ∧ of? n = some x ∧
        ∀ m ∈ back, (of? m).isSome → m.entity.name? ≠ some (name x) := by
  rw [mem_sortNamed]
  constructor
  · rintro ⟨before, behind, hsplit, hbehind⟩
    rcases List.filterMap_eq_append_iff.mp hsplit with ⟨front, rest, hnodes, _, hrest⟩
    rcases List.filterMap_eq_cons_iff.mp hrest with ⟨skipped, n, back, hback, _, hof, hbehind'⟩
    refine ⟨front ++ skipped, n, back, ?_, hof, ?_⟩
    · rw [hnodes, hback, List.append_assoc]
    · intro m hm hsome hsame
      rcases Option.isSome_iff_exists.mp hsome with ⟨y, hy⟩
      rw [hname m y hy] at hsame
      have hmem : y ∈ behind := by
        rw [← hbehind']
        exact List.mem_filterMap.mpr ⟨m, hm, hy⟩
      exact hbehind y hmem (Option.some.inj hsame)
  · rintro ⟨front, n, back, rfl, hof, hback⟩
    refine ⟨front.filterMap of?, back.filterMap of?, ?_, ?_⟩
    · rw [List.filterMap_append, List.filterMap_cons_some hof]
    · intro y hy hsame
      rcases List.mem_filterMap.mp hy with ⟨m, hm, hmy⟩
      apply hback m hm (by simp [hmy])
      rw [hname m y hmy, hsame]

theorem content_sortNamed {name : α → String} {of? : Node → Option α} (nodes : List Node)
    (hname : ∀ n x, of? n = some x → n.entity.name? = some (name x)) :
    Content name of? nodes (sortNamed name (nodes.filterMap of?)) where
  ascending := ascending_sortNamed name (nodes.filterMap of?)
  names := by
    intro s
    constructor
    · rintro ⟨x, hx, rfl⟩
      rcases mem_sortNamed.mp hx with ⟨front, back, hsplit, _⟩
      have hmem : x ∈ nodes.filterMap of? := by simp [hsplit]
      rcases List.mem_filterMap.mp hmem with ⟨n, hn, hof⟩
      exact ⟨n, hn, by simp [hof], hname n x hof⟩
    · rintro ⟨n, hn, hsome, hs⟩
      rcases Option.isSome_iff_exists.mp hsome with ⟨x, hof⟩
      have hmem : x ∈ nodes.filterMap of? := List.mem_filterMap.mpr ⟨n, hn, hof⟩
      have hlastNamed : ∃ y, IsLastNamed name y (nodes.filterMap of?) ∧ name y = name x :=
        exists_isLastNamed hmem
      rcases hlastNamed with ⟨y, hlast, hyx⟩
      refine ⟨y, mem_sortNamed.mpr hlast, ?_⟩
      rw [hname n x hof] at hs
      rw [hyx]
      exact Option.some.inj hs
  last := by
    intro x hx
    exact (mem_sortNamed_filterMap hname).mp hx

theorem filterMap_category {of? : Node → Option α} {category? : Declaration → Option α}
    (nodes : List Node) (hof : ∀ n, (declaration? n).bind category? = of? n) :
    (nodes.filterMap declaration?).filterMap category? = nodes.filterMap of? := by
  rw [List.filterMap_filterMap, funext hof]

/-- Each category of the declarations of some nodes has the content of that category. -/
theorem content_category {name : α → String} {of? : Node → Option α}
    {category? : Declaration → Option α} (nodes : List Node)
    (hof : ∀ n, (declaration? n).bind category? = of? n)
    (hname : ∀ d x, category? d = some x → d.name = name x) :
    Content name of? nodes
      (sortNamed name ((nodes.filterMap declaration?).filterMap category?)) := by
  rw [filterMap_category nodes hof]
  apply content_sortNamed
  intro n x hx
  rw [← hof n] at hx
  rcases Option.bind_eq_some_iff.mp hx with ⟨d, hd, hdx⟩
  rw [name?_of_declaration? hd, hname d x hdx]

end Extraction

namespace Declarations

open Extraction

theorem eq_ofList_of_check {d e : Declarations} (h : d.check = .ok e) : e = d := by
  unfold check at h
  split at h
  · cases h
  · cases h
    rfl

end Declarations

namespace HeaderScope

open Extraction

theorem eq_ofList_of_extract {scope : HeaderScope} {root : Node} {d : Declarations}
    (h : scope.extract root = .ok d) :
    d = .ofList ((scope.declarations root).filterMap declaration?) := by
  rw [extract_eq] at h
  exact Declarations.eq_ofList_of_check h

/-- What an extraction holds, category by category, over the nodes that the walk reaches,
that the front end did not make up, and that are in the header. -/
theorem content_of_extract {scope : HeaderScope} {root : Node} {d : Declarations}
    (h : scope.extract root = .ok d) :
    let nodes := root.walk.filter fun n => !n.entity.isImplicit && scope.isLocal n
    Content Function.name functionOf? nodes d.functions ∧
      Content Record.name structOf? nodes d.structs ∧
      Content Record.name unionOf? nodes d.unions ∧
      Content Enumeration.name enumerationOf? nodes d.enums ∧
      Content TypedName.name typedefOf? nodes d.typedefs ∧
      Content TypedName.name globalOf? nodes d.globals := by
  intro nodes
  have hd : d = Declarations.ofList (nodes.filterMap declaration?) :=
    eq_ofList_of_extract h
  rw [hd]
  refine ⟨?_, ?_, ?_, ?_, ?_, ?_⟩
  · exact content_category nodes (fun n => (bind_category? n).1)
      fun _ _ => Declaration.name_of_function?
  · exact content_category nodes (fun n => (bind_category? n).2.1)
      fun _ _ => Declaration.name_of_struct?
  · exact content_category nodes (fun n => (bind_category? n).2.2.1)
      fun _ _ => Declaration.name_of_union?
  · exact content_category nodes (fun n => (bind_category? n).2.2.2.1)
      fun _ _ => Declaration.name_of_enumeration?
  · exact content_category nodes (fun n => (bind_category? n).2.2.2.2.1)
      fun _ _ => Declaration.name_of_typedef?
  · exact content_category nodes (fun n => (bind_category? n).2.2.2.2.2)
      fun _ _ => Declaration.name_of_global?

/-- An enumeration that is declared again with enumerators, and a union inside a struct of
its name. -/
theorem content_of_extract_redeclared :
    let scope := Sample.scope
    let root := Sample.unit
      [ Sample.enumeration "b" [],
        Sample.record "r" "struct" true [Sample.record "r" "union" true []],
        Sample.enumeration "a" [], Sample.record "r" "struct" false [],
        Sample.enumeration "b" [Sample.enumerator "x" [], Sample.enumerator "y" []] ]
    let nodes := root.walk.filter fun n => !n.entity.isImplicit && scope.isLocal n
    let d : Declarations :=
      ⟨[], [⟨"r", [], false⟩], [⟨"r", [], true⟩],
        [⟨"a", .i32, []⟩, ⟨"b", .i32, [⟨"x", 0⟩, ⟨"y", 1⟩]⟩], [], []⟩
    scope.extract root = .ok d ∧ Content Record.name structOf? nodes d.structs ∧
      Content Record.name unionOf? nodes d.unions ∧
      Content Enumeration.name enumerationOf? nodes d.enums := by
  intro scope root nodes d
  have h : scope.extract root = .ok d := by
    have hsome : (scope.extract root).toOption = some d := by
      decide +kernel
    cases hresult : scope.extract root with
    | error e =>
        rw [hresult] at hsome
        cases hsome
    | ok found =>
        rw [hresult] at hsome
        exact congrArg Except.ok (Option.some.inj hsome)
  have hcontent := content_of_extract h
  exact ⟨h, hcontent.2.1, hcontent.2.2.1, hcontent.2.2.2.1⟩

end HeaderScope
end HeaderBinding
