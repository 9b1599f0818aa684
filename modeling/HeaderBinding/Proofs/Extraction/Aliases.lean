import Mathlib.Data.List.Chain
import Mathlib.Data.List.Nodup
import HeaderBinding.BindingModule
import HeaderBinding.Proofs.Extraction.Content
import HeaderBinding.Proofs.Spelling.OpaqueName
import HeaderBinding.Proofs.Spelling.Token

/-!
# Aliases

An alias may lead to another one, by the name that its type bottoms out in. That name stands
in the header, as it is or behind the keyword of a tag, since tags and aliases share their
names in a binding. So following aliases returns to a name only where the type definitions
of the header refer to each other in a circle, by plain names or by tags.
-/

namespace HeaderBinding

open Dump Text Spelling

namespace Declarations

/-- Whether the type of one alias bottoms out in the name of another one. -/
def LeadsTo (d : Declarations) (a b : String) : Prop :=
  ∃ t ∈ d.typedefs, t.name = a ∧ t.type.opaqueName? = some b ∧ ∃ u ∈ d.typedefs, u.name = b

instance (d : Declarations) : DecidableRel d.LeadsTo := fun a b =>
  inferInstanceAs (Decidable (∃ t ∈ d.typedefs,
    t.name = a ∧ t.type.opaqueName? = some b ∧ ∃ u ∈ d.typedefs, u.name = b))

end Declarations

/-!
# Circles
-/

/-- Whether a way comes back to the name that it starts from. -/
def IsCircle (names : List String) : Prop :=
  ∃ name way, names = name :: (way ++ [name])

theorem nodup_or_exists_circle (names : List String) :
    names.Nodup ∨ ∃ circle, circle <:+: names ∧ IsCircle circle := by
  induction names with
  | nil =>
      exact .inl List.nodup_nil
  | cons name names ih =>
      by_cases hmem : name ∈ names
      · rcases List.append_of_mem hmem with ⟨way, back, rfl⟩
        right
        refine ⟨name :: (way ++ [name]), ⟨[], back, ?_⟩, name, way, rfl⟩
        simp
      · rcases ih with hnodup | ⟨circle, hinfix, hcircle⟩
        · exact .inl (List.nodup_cons.mpr ⟨hmem, hnodup⟩)
        · exact .inr ⟨circle, hinfix.trans (List.suffix_cons name names).isInfix, hcircle⟩

/-- A way each step of which is of one kind or the other is of the first kind, or has a step
of the second one. -/
theorem chain_or_exists_step {r s : String → String → Prop} {names : List String}
    (h : names.IsChain fun a b => r a b ∨ s a b) :
    names.IsChain r ∨ ∃ a b, [a, b] <:+: names ∧ s a b := by
  induction h with
  | nil =>
      exact .inl .nil
  | singleton name =>
      exact .inl (.singleton name)
  | @cons_cons a b names hab hrest ih =>
      rcases ih with hchain | ⟨x, y, hinfix, hxy⟩
      · rcases hab with hfirst | hsecond
        · exact .inl (.cons_cons hfirst hchain)
        · exact .inr ⟨a, b, ⟨[], names, rfl⟩, hsecond⟩
      · exact .inr ⟨x, y, hinfix.trans (List.suffix_cons a _).isInfix, hxy⟩

/-!
# References in the header
-/

/-- The name of a type definition and the type that it is given. -/
def definition? (n : Node) : Option (String × String) :=
  match n.entity with
  | .typedef _ name type _ => some (name, type.resolvedOrWritten)
  | _ => none

theorem exists_definition_of_typedefOf? {n : Node} {t : TypedName}
    (h : Extraction.typedefOf? n = some t) :
    ∃ spelling, definition? n = some (t.name, spelling) ∧ t.type = .ofSpelling spelling := by
  unfold Extraction.typedefOf? at h
  split at h
  next extent name type implicit he =>
    cases h
    refine ⟨type.resolvedOrWritten, ?_, rfl⟩
    unfold definition?
    rw [he]
  next =>
    cases h

theorem isSome_typedefOf?_of_definition {n : Node} {name spelling : String}
    (h : definition? n = some (name, spelling)) :
    (Extraction.typedefOf? n).isSome ∧ n.entity.name? = some name := by
  unfold definition? at h
  split at h
  next he =>
    cases h
    unfold Extraction.typedefOf?
    rw [he]
    exact ⟨rfl, rfl⟩
  next =>
    cases h

namespace HeaderScope

/-- Whether the last type definition of a name in the header has the given type. -/
def IsDefinedAs (scope : HeaderScope) (root : Node) (name spelling : String) : Prop :=
  ∃ front n back, scope.declarations root = front ++ n :: back ∧
    definition? n = some (name, spelling) ∧
    ∀ m ∈ back, ∀ other, definition? m ≠ some (name, other)

/-- Whether the type of a type definition is a name, qualifiers, stars and brackets apart. -/
def RefersPlainly (scope : HeaderScope) (root : Node) (a b : String) : Prop :=
  ∃ spelling base, scope.IsDefinedAs root a spelling ∧
    HasBase spelling.toList base ∧ unqualified base = b.toList

/-- Whether the type of a type definition is a tag behind its keyword, qualifiers, stars and
brackets apart. -/
def RefersByTag (scope : HeaderScope) (root : Node) (a b : String) : Prop :=
  ∃ spelling base keyword, scope.IsDefinedAs root a spelling ∧
    HasBase spelling.toList base ∧ lowerCase keyword ∈ tagKeywords ∧
    unqualified base = keyword ++ ' ' :: b.toList

/-- An alias is read off the last type definition of its name. -/
theorem exists_isDefinedAs_of_extract {scope : HeaderScope} {root : Node} {d : Declarations}
    (h : scope.extract root = .ok d) {t : TypedName} (ht : t ∈ d.typedefs) :
    ∃ spelling, scope.IsDefinedAs root t.name spelling ∧ t.type = .ofSpelling spelling := by
  have hcontent := (content_of_extract h).2.2.2.2.1
  rcases hcontent.last t ht with ⟨front, n, back, hnodes, hof, hlast⟩
  rcases exists_definition_of_typedefOf? hof with ⟨spelling, hdefinition, htype⟩
  refine ⟨spelling, ⟨front, n, back, hnodes, hdefinition, ?_⟩, htype⟩
  intro m hm other hother
  rcases isSome_typedefOf?_of_definition hother with ⟨hsome, hname⟩
  exact hlast m hm hsome hname

theorem refers_of_opaqueName? {scope : HeaderScope} {root : Node} {d : Declarations}
    (h : scope.extract root = .ok d) {t : TypedName} (ht : t ∈ d.typedefs) {name : String}
    (hname : t.type.opaqueName? = some name) :
    scope.RefersPlainly root t.name name ∨ scope.RefersByTag root t.name name := by
  rcases exists_isDefinedAs_of_extract h ht with ⟨spelling, hdefined, htype⟩
  rw [htype] at hname
  rcases exists_hasBase_of_opaqueName? hname with ⟨base, hbase, hplain | htag⟩
  · exact .inl ⟨spelling, base, hdefined, hbase, hplain⟩
  · rcases htag with ⟨keyword, hkeyword, htag⟩
    exact .inr ⟨spelling, base, keyword, hdefined, hbase, hkeyword, htag⟩

/-- One alias leads to another one only where its type definition refers to the name of that
one in the header. -/
theorem refers_of_leadsTo {scope : HeaderScope} {root : Node} {d : Declarations}
    (h : scope.extract root = .ok d) {a b : String} (hab : d.LeadsTo a b) :
    scope.RefersPlainly root a b ∨ scope.RefersByTag root a b := by
  rcases hab with ⟨t, ht, rfl, hname, _⟩
  exact refers_of_opaqueName? h ht hname

/-- Following aliases never returns to a name, unless a tag on the way is an alias as well, or
type definitions refer to each other in a circle by plain names. An alias is written for itself
only where its type definition refers to its own name. -/
theorem nodup_or_circle_of_aliases {scope : HeaderScope} {root : Node} {d : Declarations}
    (h : scope.extract root = .ok d) :
    (∀ names : List String, names.IsChain d.LeadsTo →
      names.Nodup ∨ ∃ circle, circle <:+: names ∧ IsCircle circle ∧
        (circle.IsChain (scope.RefersPlainly root) ∨
          ∃ a b, [a, b] <:+: circle ∧ scope.RefersByTag root a b)) ∧
      ∀ t ∈ d.typedefs, ¬"c.".toList <+: t.name.toList → t.type.token = t.name →
        scope.RefersPlainly root t.name t.name ∨ scope.RefersByTag root t.name t.name := by
  constructor
  · intro names hchain
    rcases nodup_or_exists_circle names with hnodup | ⟨circle, hinfix, hcircle⟩
    · exact .inl hnodup
    · right
      have hleads : circle.IsChain d.LeadsTo := List.IsChain.infix hchain hinfix
      have hrefers : circle.IsChain fun a b =>
          scope.RefersPlainly root a b ∨ scope.RefersByTag root a b :=
        hleads.imp fun a b => refers_of_leadsTo h
      exact ⟨circle, hinfix, hcircle, chain_or_exists_step hrefers⟩
  · intro t ht hname htoken
    have hnamed : t.type = .named t.name := by
      apply ForeignType.eq_named_of_token _ htoken
      rintro name ⟨⟩
      exact hname
    apply refers_of_opaqueName? h ht
    rw [hnamed]
    rfl

/-- A pointer to a struct whose tag is an alias of something else, an alias of that pointer,
and an alias of a struct by its own tag. -/
theorem nodup_or_circle_of_aliases_tagged :
    let scope := Sample.scope
    let root := Sample.unit
      [ Sample.definition "list" "const struct node *", Sample.definition "node" "struct item",
        Sample.definition "stack" "list", Sample.definition "tree" "struct tree" ]
    let d : Declarations :=
      ⟨[], [], [], [], [⟨"list", .ptr (.named "node")⟩, ⟨"node", .named "item"⟩,
        ⟨"stack", .named "list"⟩, ⟨"tree", .named "tree"⟩], []⟩
    scope.extract root = .ok d ∧ ["stack", "list", "node"].IsChain d.LeadsTo ∧
      ["tree", "tree"].IsChain d.LeadsTo ∧
      (∃ circle, circle <:+: ["tree", "tree"] ∧ IsCircle circle ∧
        (circle.IsChain (scope.RefersPlainly root) ∨
          ∃ a b, [a, b] <:+: circle ∧ scope.RefersByTag root a b)) ∧
      (scope.RefersPlainly root "tree" "tree" ∨ scope.RefersByTag root "tree" "tree") := by
  intro scope root d
  have h : scope.extract root = .ok d := by
    decide +kernel
  have hlist : ["stack", "list", "node"].IsChain d.LeadsTo := by
    decide +kernel
  have htree : ["tree", "tree"].IsChain d.LeadsTo := by
    decide +kernel
  have haliases := nodup_or_circle_of_aliases h
  have hcircle := (haliases.1 ["tree", "tree"] htree).resolve_left (by decide)
  have hself := haliases.2 ⟨"tree", .named "tree"⟩ (by decide) (by decide) rfl
  exact ⟨h, hlist, htree, hcircle, hself⟩

/-- Aliases of their own tag, of each other, and of a type of the binding language. -/
theorem aliases_in_circles :
    (let root := Sample.unit
        [Sample.record "X" "struct" false [], Sample.definition "X" "struct X"]
      let d : Declarations := ⟨[], [], [], [], [⟨"X", .named "X"⟩], []⟩
      Sample.scope.extract root = .ok d ∧ ["X", "X"].IsChain d.LeadsTo ∧ ¬["X", "X"].Nodup ∧
        "  foreign alias X = X" ∈ BindingModule.lines ⟨"lib", [], none⟩ d) ∧
      (let root := Sample.unit [Sample.definition "a" "b *", Sample.definition "b" "a"]
        let d : Declarations := ⟨[], [], [], [], [⟨"a", .ptr (.named "b")⟩, ⟨"b", .named "a"⟩], []⟩
        Sample.scope.extract root = .ok d ∧ ["a", "b", "a"].IsChain d.LeadsTo ∧
          ¬["a", "b", "a"].Nodup) ∧
      (let root := Sample.unit [Sample.definition "c.i32" "int"]
        let d : Declarations := ⟨[], [], [], [], [⟨"c.i32", .i32⟩], []⟩
        Sample.scope.extract root = .ok d ∧
          "  foreign alias c.i32 = c.i32" ∈ BindingModule.lines ⟨"lib", [], none⟩ d) := by
  decide +kernel

end HeaderScope
end HeaderBinding
