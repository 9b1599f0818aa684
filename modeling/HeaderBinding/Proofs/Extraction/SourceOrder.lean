import Mathlib.Data.List.FinRange
import HeaderBinding.Proofs.Extraction.Content
import HeaderBinding.Proofs.Extraction.Interference

/-!
# Source order

A category holds the last declaration of each name, in the order of names. So the order in
which a header declares things shows only where two declarations of one category have one
name: a header may be rearranged as long as these stay in their order.
-/

namespace HeaderBinding

open Dump Text

/-!
# Categories
-/

inductive Category where
  | function
  | struct
  | union
  | enumeration
  | typedef
  | global
  deriving DecidableEq

namespace Declaration

def category : Declaration → Category
  | function _ => .function
  | record r => if r.isUnion then .union else .struct
  | enumeration _ => .enumeration
  | typedef _ => .typedef
  | global _ => .global

/-- What at most one declaration of a binding has. -/
def key (d : Declaration) : Category × String :=
  (d.category, d.name)

theorem key_of_function? {d : Declaration} {f : Function} (h : d.function? = some f) :
    d.key = (.function, f.name) := by
  rw [eq_function_of_function? h]
  rfl

theorem key_of_struct? {d : Declaration} {r : Record} (h : d.struct? = some r) :
    d.key = (.struct, r.name) := by
  have hd := eq_record_of_struct? h
  subst hd
  simp only [struct?, Option.ite_none_left_eq_some] at h
  simp [key, category, name, h.1]

theorem key_of_union? {d : Declaration} {r : Record} (h : d.union? = some r) :
    d.key = (.union, r.name) := by
  have hd := eq_record_of_union? h
  subst hd
  simp only [union?, Option.ite_none_right_eq_some] at h
  simp [key, category, name, h.1]

theorem key_of_enumeration? {d : Declaration} {e : Enumeration} (h : d.enumeration? = some e) :
    d.key = (.enumeration, e.name) := by
  rw [eq_enumeration_of_enumeration? h]
  rfl

theorem key_of_typedef? {d : Declaration} {t : TypedName} (h : d.typedef? = some t) :
    d.key = (.typedef, t.name) := by
  rw [eq_typedef_of_typedef? h]
  rfl

theorem key_of_global? {d : Declaration} {g : TypedName} (h : d.global? = some g) :
    d.key = (.global, g.name) := by
  rw [eq_global_of_global? h]
  rfl

end Declaration

/-!
# What decides a category
-/

namespace Declarations

/-- The entries of one name in a category come from the declarations of one key. -/
theorem filter_category {name : α → String} {of? : Declaration → Option α} {c : Category}
    (hkey : ∀ d x, of? d = some x → d.key = (c, name x)) (ds : List Declaration) (s : String) :
    (ds.filterMap of?).filter (name · = s) =
      (ds.filter (·.key = (c, s))).filterMap of? := by
  rw [List.filter_filterMap, List.filterMap_filter]
  apply List.filterMap_congr
  intro d _
  cases hd : of? d with
  | none =>
      simp
  | some x =>
      simp [hkey d x hd, Option.filter]

theorem category_congr {name : α → String} {of? : Declaration → Option α} {c : Category}
    (hkey : ∀ d x, of? d = some x → d.key = (c, name x)) {ds es : List Declaration}
    (h : ∀ k, ds.filter (·.key = k) = es.filter (·.key = k)) :
    sortNamed name (ds.filterMap of?) = sortNamed name (es.filterMap of?) := by
  apply sortNamed_congr
  intro s
  rw [filter_category hkey, filter_category hkey, h]

/-- Declarations of different keys do not depend on each other's place. -/
theorem ofList_congr {ds es : List Declaration}
    (h : ∀ k, ds.filter (·.key = k) = es.filter (·.key = k)) : ofList ds = ofList es := by
  unfold ofList
  rw [category_congr (fun _ _ => Declaration.key_of_function?) h,
    category_congr (fun _ _ => Declaration.key_of_struct?) h,
    category_congr (fun _ _ => Declaration.key_of_union?) h,
    category_congr (fun _ _ => Declaration.key_of_enumeration?) h,
    category_congr (fun _ _ => Declaration.key_of_typedef?) h,
    category_congr (fun _ _ => Declaration.key_of_global?) h]

end Declarations

/-!
# Rearranging
-/

/-- The list that has at each place what a permutation of the places says. -/
def rearranged (xs : List α) (σ : Equiv.Perm (Fin xs.length)) : List α :=
  List.ofFn fun i => xs.get (σ i)

/-- Entries that keep their order among each other are the same list before and after. -/
theorem filter_rearranged (xs : List α) (σ : Equiv.Perm (Fin xs.length)) (p : α → Bool)
    (h : ∀ i j, i < j → p (xs.get (σ i)) → p (xs.get (σ j)) → σ i < σ j) :
    (rearranged xs σ).filter p = xs.filter p := by
  -- Both lists are read off the places of such entries, which ascend in both.
  have hplaces : (List.ofFn σ).filter (p ∘ xs.get) =
      (List.finRange xs.length).filter (p ∘ xs.get) := by
    have hperm : (List.ofFn σ).Perm (List.finRange xs.length) := by
      rw [List.ofFn_eq_map]
      exact Equiv.Perm.map_finRange_perm σ
    have hbefore : ((List.ofFn σ).filter (p ∘ xs.get)).Pairwise (· < ·) := by
      rw [List.pairwise_filter, List.pairwise_ofFn]
      exact fun i j hij => h i j hij
    have hafter : ((List.finRange xs.length).filter (p ∘ xs.get)).Pairwise (· < ·) :=
      (List.pairwise_lt_finRange _).filter _
    apply List.Perm.eq_of_pairwise _ hbefore hafter (hperm.filter _)
    intro i j _ _ hij hji
    exact absurd hji (lt_asymm hij)
  have hmap : rearranged xs σ = (List.ofFn σ).map xs.get := by
    rw [rearranged, List.map_ofFn]
    rfl
  rw [hmap, List.filter_map, hplaces, ← List.filter_map, List.map_get_finRange]

theorem flatMap_filter_ne_nil (f : α → List β) (xs : List α) :
    (xs.filter fun x => f x ≠ []).flatMap f = xs.flatMap f := by
  induction xs with
  | nil =>
      rfl
  | cons x xs ih =>
      by_cases hx : f x = []
      · rw [List.filter_cons_of_neg (by simpa using hx), ih, List.flatMap_cons, hx,
          List.nil_append]
      · rw [List.filter_cons_of_pos (by simpa using hx), List.flatMap_cons, ih,
          List.flatMap_cons]

namespace HeaderScope

/-- Whether the header declares one name of one category both in the walk over one subtree
and in the walk over another one. -/
def Clash (scope : HeaderScope) (n m : Node) : Prop :=
  ∃ x ∈ scope.declared n, ∃ y ∈ scope.declared m, x.category = y.category ∧ x.name = y.name

instance (scope : HeaderScope) : DecidableRel scope.Clash := fun n m =>
  inferInstanceAs (Decidable (∃ x ∈ scope.declared n, ∃ y ∈ scope.declared m,
    x.category = y.category ∧ x.name = y.name))

/-- The declarations of one key keep their order as long as subtrees that clash do. -/
theorem filter_declared_rearranged {scope : HeaderScope} {ns : List Node}
    {σ : Equiv.Perm (Fin ns.length)}
    (h : ∀ i j, i < j → scope.Clash (ns.get (σ i)) (ns.get (σ j)) → σ i < σ j)
    (k : Category × String) :
    ((rearranged ns σ).flatMap scope.declared).filter (·.key = k) =
      (ns.flatMap scope.declared).filter (·.key = k) := by
  let bearers (n : Node) : List Declaration := (scope.declared n).filter (·.key = k)
  have hclash : ∀ n m, bearers n ≠ [] → bearers m ≠ [] → scope.Clash n m := by
    intro n m hn hm
    rcases List.exists_mem_of_ne_nil _ hn with ⟨x, hx⟩
    rcases List.exists_mem_of_ne_nil _ hm with ⟨y, hy⟩
    rcases List.mem_filter.mp hx with ⟨hxn, hxk⟩
    rcases List.mem_filter.mp hy with ⟨hym, hyk⟩
    have hkeys : x.key = y.key := (of_decide_eq_true hxk).trans (of_decide_eq_true hyk).symm
    exact ⟨x, hxn, y, hym, Prod.mk.inj hkeys⟩
  rw [List.filter_flatMap, List.filter_flatMap]
  change (rearranged ns σ).flatMap bearers = ns.flatMap bearers
  rw [← flatMap_filter_ne_nil bearers (rearranged ns σ), ← flatMap_filter_ne_nil bearers ns,
    filter_rearranged]
  intro i j hij hi hj
  exact h i j hij (hclash _ _ (of_decide_eq_true hi) (of_decide_eq_true hj))

/-- The order of the declarations in a header does not matter, as long as those of one name
and one category keep theirs. -/
theorem extract_rearranged (scope : HeaderScope) (id : UInt64) (ns : List Node)
    (σ : Equiv.Perm (Fin ns.length))
    (h : ∀ i j, i < j → scope.Clash (ns.get (σ i)) (ns.get (σ j)) → σ i < σ j) :
    scope.extract (.mk id .translationUnit (rearranged ns σ)) =
      scope.extract (.mk id .translationUnit ns) := by
  rw [extract_eq, extract_eq]
  change (Declarations.ofList (scope.declared _)).check =
    (Declarations.ofList (scope.declared _)).check
  rw [declared_translationUnit, declared_translationUnit,
    Declarations.ofList_congr (filter_declared_rearranged h)]

/-- A global that moves out from between two declarations of a type, which has its name. -/
theorem extract_rearranged_redeclared :
    let scope := Sample.scope
    let ns := [Sample.definition "t" "int", Sample.global "t" "t", Sample.definition "t" "long"]
    let σ : Equiv.Perm (Fin ns.length) := Equiv.swap 0 1
    (∀ i j, i < j → scope.Clash (ns.get (σ i)) (ns.get (σ j)) → σ i < σ j) ∧
      (ns.get (σ 0)).entity = (Sample.global "t" "t").entity ∧
      scope.extract (.mk 0 .translationUnit (rearranged ns σ)) =
        scope.extract (.mk 0 .translationUnit ns) := by
  intro scope ns σ
  have h : ∀ i j, i < j → scope.Clash (ns.get (σ i)) (ns.get (σ j)) → σ i < σ j := by
    decide +kernel
  exact ⟨h, rfl, extract_rearranged scope 0 ns σ h⟩

end HeaderScope
end HeaderBinding
