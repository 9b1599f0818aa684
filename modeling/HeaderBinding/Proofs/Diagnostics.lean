import Mathlib.Data.Set.Function
import HeaderBinding.Diagnostics
import HeaderBinding.Proofs.Extraction.Entries
import HeaderBinding.Proofs.Json.Rendering
import HeaderBinding.Proofs.Spelling.Token

/-!
# Reading the record of the declarations

The record of a binding is a JSON text from which all that was recorded is read back: the types
by their tokens, everything else as it was.
-/

namespace HeaderBinding

open Json

/-!
# Declarations with other types
-/

/-- A type as far as its token tells. -/
def ForeignType.asToken (t : ForeignType) : ForeignType :=
  .named t.token

namespace TypedName

def mapType (f : ForeignType → ForeignType) (t : TypedName) : TypedName :=
  { t with type := f t.type }

end TypedName

namespace Function

def mapTypes (f : ForeignType → ForeignType) (fn : Function) : Function :=
  { fn with returns := f fn.returns, parameters := fn.parameters.map (TypedName.mapType f) }

end Function

namespace Record

def mapTypes (f : ForeignType → ForeignType) (r : Record) : Record :=
  { r with fields := r.fields.map (TypedName.mapType f) }

end Record

namespace Enumeration

def mapType (f : ForeignType → ForeignType) (e : Enumeration) : Enumeration :=
  { e with underlying := f e.underlying }

end Enumeration

namespace Declarations

def mapTypes (f : ForeignType → ForeignType) (d : Declarations) : Declarations where
  functions := d.functions.map (Function.mapTypes f)
  structs := d.structs.map (Record.mapTypes f)
  unions := d.unions.map (Record.mapTypes f)
  enums := d.enums.map (Enumeration.mapType f)
  typedefs := d.typedefs.map (TypedName.mapType f)
  globals := d.globals.map (TypedName.mapType f)

end Declarations

/-!
# Types that are left as they are
-/

theorem map_eq_self {α : Type} {g : α → α} {as : List α} (h : ∀ a ∈ as, g a = a) :
    as.map g = as :=
  (List.map_congr_left h).trans (List.map_id as)

namespace Function

variable {f g : ForeignType → ForeignType}

theorem mapTypes_mapTypes (fn : Function) :
    (fn.mapTypes f).mapTypes g = fn.mapTypes (g ∘ f) := by
  simp [mapTypes, TypedName.mapType]

theorem mapTypes_eq_self {fn : Function} (h : ∀ t ∈ (Declaration.function fn).types, f t = t) :
    fn.mapTypes f = fn := by
  rcases List.forall_mem_append.mp h with ⟨hparameters, hreturns⟩
  have hparameter : ∀ p ∈ fn.parameters, p.mapType f = p := by
    intro p hp
    rw [TypedName.mapType, hparameters p.type (List.mem_map_of_mem hp)]
  rw [mapTypes, hreturns fn.returns List.mem_cons_self, map_eq_self hparameter]

end Function

namespace Record

variable {f g : ForeignType → ForeignType}

theorem mapTypes_mapTypes (r : Record) : (r.mapTypes f).mapTypes g = r.mapTypes (g ∘ f) := by
  simp [mapTypes, TypedName.mapType]

theorem mapTypes_eq_self {r : Record} (h : ∀ t ∈ (Declaration.record r).types, f t = t) :
    r.mapTypes f = r := by
  have hfield : ∀ p ∈ r.fields, p.mapType f = p := by
    intro p hp
    rw [TypedName.mapType, h p.type (List.mem_map_of_mem hp)]
  rw [mapTypes, map_eq_self hfield]

end Record

namespace Declarations

variable {f g : ForeignType → ForeignType}

theorem mapTypes_mapTypes (d : Declarations) :
    (d.mapTypes f).mapTypes g = d.mapTypes (g ∘ f) := by
  simp [mapTypes, TypedName.mapType, Enumeration.mapType, Function.mapTypes_mapTypes,
    Record.mapTypes_mapTypes]

theorem mapTypes_eq_self {d : Declarations} (h : ∀ t ∈ d.types, f t = t) :
    d.mapTypes f = d := by
  have hentry : ∀ x ∈ d.entries, ∀ t ∈ x.types, f t = t := fun x hx t ht =>
    h t (List.mem_flatMap.mpr ⟨x, hx, ht⟩)
  have hfunction : ∀ fn ∈ d.functions, fn.mapTypes f = fn := fun fn hfn =>
    Function.mapTypes_eq_self (hentry (.function fn) (by simp [entries, hfn]))
  have hstruct : ∀ r ∈ d.structs, r.mapTypes f = r := fun r hr =>
    Record.mapTypes_eq_self (hentry (.record r) (by simp [entries, hr]))
  have hunion : ∀ r ∈ d.unions, r.mapTypes f = r := fun r hr =>
    Record.mapTypes_eq_self (hentry (.record r) (by simp [entries, hr]))
  have henum : ∀ e ∈ d.enums, e.mapType f = e := by
    intro e he
    rw [Enumeration.mapType, hentry (.enumeration e) (by simp [entries, he]) e.underlying
      List.mem_cons_self]
  have htypedef : ∀ t ∈ d.typedefs, t.mapType f = t := by
    intro t ht
    rw [TypedName.mapType, hentry (.typedef t) (by simp [entries, ht]) t.type List.mem_cons_self]
  have hglobal : ∀ t ∈ d.globals, t.mapType f = t := by
    intro t ht
    rw [TypedName.mapType, hentry (.global t) (by simp [entries, ht]) t.type List.mem_cons_self]
  rw [mapTypes, map_eq_self hfunction, map_eq_self hstruct, map_eq_self hunion,
    map_eq_self henum, map_eq_self htypedef, map_eq_self hglobal]

/-- Types that are no opaque names like the language's own are told by their tokens. -/
theorem eq_of_mapTypes_asToken {d e : Declarations} (hd : ∀ t ∈ d.types, t.IsForeign)
    (he : ∀ t ∈ e.types, t.IsForeign) (h : d.mapTypes .asToken = e.mapTypes .asToken) :
    d = e := by
  have hnonempty : Nonempty ForeignType := ⟨.void⟩
  have hinj : Set.InjOn ForeignType.asToken {t | t.IsForeign} := by
    intro t ht u hu htu
    exact ForeignType.token_injective ht hu (ForeignType.named.inj htu)
  have hinverse := hinj.leftInvOn_invFunOn
  calc
    d = d.mapTypes (Function.invFunOn ForeignType.asToken _ ∘ .asToken) :=
      (mapTypes_eq_self fun t ht => hinverse (hd t ht)).symm
    _ = (e.mapTypes .asToken).mapTypes _ := by rw [← h, mapTypes_mapTypes]
    _ = e := by
      rw [mapTypes_mapTypes]
      exact mapTypes_eq_self fun t ht => hinverse (he t ht)

end Declarations

/-!
# Reading trees
-/

namespace Json.Tree

def keys : Tree → List String
  | object members => members.map Prod.fst
  | _ => []

def member? (key : String) : Tree → Option Tree
  | object members => members.lookup key
  | _ => none

def text? : Tree → Option String
  | text s => some s
  | _ => none

def flag? : Tree → Option Bool
  | flag b => some b
  | _ => none

def integer? : Tree → Option Int
  | integer v => some v
  | _ => none

/-- Reads all items of an array. -/
def items? {α : Type} (read : Tree → Option α) : Tree → Option (List α)
  | array items => items.mapM read
  | _ => none

theorem items?_map {α β : Type} {write : α → Tree} {read : Tree → Option β} {back : α → β}
    (h : ∀ a, read (write a) = some (back a)) (as : List α) :
    items? read (array (as.map write)) = some (as.map back) := by
  have hread : read ∘ write = fun a => pure (back a) := funext h
  rw [items?, List.mapM_map, hread, List.mapM_pure]
  rfl

end Json.Tree

namespace TypedName

def ofTree? (typeKey : String) (t : Tree) : Option TypedName := do
  let name ← (← t.member? "name").text?
  let type ← (← t.member? typeKey).text?
  return ⟨name, .named type⟩

theorem ofTree?_tree {typeKey : String} (h : typeKey ≠ "name") (t : TypedName) :
    ofTree? typeKey (t.tree typeKey) = some (t.mapType .asToken) := by
  have hkey : (typeKey == "name") = false := beq_eq_false_iff_ne.mpr h
  have htype : (t.tree typeKey).member? typeKey = some (.text t.type.token) := by
    simp [tree, Tree.member?, List.lookup_cons, hkey]
  rw [ofTree?, htype]
  rfl

end TypedName

namespace Function

def ofTree? (t : Tree) : Option Function := do
  let name ← (← t.member? "name").text?
  let returns ← (← t.member? "return_type").text?
  let parameters ← (← t.member? "params").items? (TypedName.ofTree? "type")
  let variadic ← (← t.member? "variadic").flag?
  return ⟨name, .named returns, parameters, variadic⟩

theorem ofTree?_tree (f : Function) : ofTree? f.tree = some (f.mapTypes .asToken) := by
  have htype : "type" ≠ "name" := by
    decide
  have hparameters := Tree.items?_map (TypedName.ofTree?_tree htype) f.parameters
  change ((Tree.array (f.parameters.map (TypedName.tree "type"))).items? _).bind _ = _
  rw [hparameters]
  rfl

end Function

namespace Record

def ofTree? (t : Tree) : Option Record := do
  let name ← (← t.member? "name").text?
  let fields ← (← t.member? "fields").items? (TypedName.ofTree? "type")
  let isUnion ← (← t.member? "is_union").flag?
  return ⟨name, fields, isUnion⟩

theorem ofTree?_tree (r : Record) : ofTree? r.tree = some (r.mapTypes .asToken) := by
  have htype : "type" ≠ "name" := by
    decide
  have hfields := Tree.items?_map (TypedName.ofTree?_tree htype) r.fields
  change ((Tree.array (r.fields.map (TypedName.tree "type"))).items? _).bind _ = _
  rw [hfields]
  rfl

end Record

namespace Enumeration

def valueOfTree? (t : Tree) : Option Enumerator := do
  let name ← (← t.member? "name").text?
  let value ← (← t.member? "value").integer?
  return ⟨name, value⟩

def ofTree? (t : Tree) : Option Enumeration := do
  let name ← (← t.member? "name").text?
  let underlying ← (← t.member? "underlying").text?
  let values ← (← t.member? "values").items? valueOfTree?
  return ⟨name, .named underlying, values⟩

theorem ofTree?_tree (e : Enumeration) : ofTree? e.tree = some (e.mapType .asToken) := by
  have hvalue : ∀ v, valueOfTree? (valueTree v) = some (id v) := fun _ => rfl
  have hvalues := Tree.items?_map hvalue e.values
  change ((Tree.array (e.values.map valueTree)).items? _).bind _ = _
  rw [hvalues, List.map_id]
  rfl

end Enumeration

namespace Declarations

/-- The categories of the record. -/
def categories : List String :=
  ["functions", "structs", "unions", "enums", "typedefs", "globals"]

def ofTree? (t : Tree) : Option Declarations := do
  let functions ← (← t.member? "functions").items? Function.ofTree?
  let structs ← (← t.member? "structs").items? Record.ofTree?
  let unions ← (← t.member? "unions").items? Record.ofTree?
  let enums ← (← t.member? "enums").items? Enumeration.ofTree?
  let typedefs ← (← t.member? "typedefs").items? (TypedName.ofTree? "target")
  let globals ← (← t.member? "globals").items? (TypedName.ofTree? "type")
  return ⟨functions, structs, unions, enums, typedefs, globals⟩

theorem ofTree?_tree (d : Declarations) : ofTree? d.tree = some (d.mapTypes .asToken) := by
  have htarget : "target" ≠ "name" := by
    decide
  have htype : "type" ≠ "name" := by
    decide
  have hfunctions := Tree.items?_map Function.ofTree?_tree d.functions
  have hstructs := Tree.items?_map Record.ofTree?_tree d.structs
  have hunions := Tree.items?_map Record.ofTree?_tree d.unions
  have henums := Tree.items?_map Enumeration.ofTree?_tree d.enums
  have htypedefs := Tree.items?_map (TypedName.ofTree?_tree htarget) d.typedefs
  have hglobals := Tree.items?_map (TypedName.ofTree?_tree htype) d.globals
  simp [ofTree?, tree, Tree.member?, List.lookup_cons, hfunctions, hstructs, hunions, henums,
    htypedefs, hglobals, mapTypes]

/-!
# Reading the text
-/

/-- The record is a JSON text of one meaning only, an object of the six categories. All lists
and their order, all names, marks and values are read back from it, and all types up to their
tokens. So it tells declarations apart whose opaque types do not look like the language's own. -/
theorem read_diagnostics (d : Declarations) :
    (∃ source : Source,
      (∀ other : Source,
        Source.Spread other.pieces (encode d.diagnostics.toList) ↔ other = source) ∧
      ∃ tree, source.tree? = some tree ∧ tree.keys = categories ∧
        ofTree? tree = some (d.mapTypes .asToken)) ∧
    ∀ e : Declarations, (∀ t ∈ d.types ++ e.types, t.IsForeign) →
      (d.diagnostics = e.diagnostics ↔ d = e) := by
  constructor
  · exact ⟨d.tree.source, fun _ => Tree.spread_render_iff, d.tree, Tree.tree?_source d.tree, rfl,
      ofTree?_tree d⟩
  · intro e hforeign
    rcases List.forall_mem_append.mp hforeign with ⟨hd, he⟩
    constructor
    · intro h
      have htree : d.tree = e.tree := Tree.render_injective h
      have hread := ofTree?_tree d
      rw [htree, ofTree?_tree e] at hread
      exact eq_of_mapTypes_asToken hd he (Option.some.inj hread).symm
    · rintro rfl
      rfl

/-- Values that are one to floating point are told apart. -/
theorem read_diagnostics_largest :
    let largest (v : Int) : Declarations :=
      ⟨[], [], [], [⟨"Limit", .named "uint128", [⟨"MAX", v⟩]⟩], [], []⟩
    (largest 170141183460469231731687303715884105727).diagnostics ≠
      (largest 170141183460469231731687303715884105726).diagnostics := by
  intro largest
  have hforeign : ∀ t ∈ (largest 170141183460469231731687303715884105727).types ++
      (largest 170141183460469231731687303715884105726).types, t.IsForeign := by
    decide +kernel
  have hne : largest 170141183460469231731687303715884105727 ≠
      largest 170141183460469231731687303715884105726 := by
    decide +kernel
  exact mt ((read_diagnostics _).2 _ hforeign).mp hne

end Declarations
end HeaderBinding
