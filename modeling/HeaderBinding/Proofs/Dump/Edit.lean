import HeaderBinding.Dump.Node

/-!
# Edits of a tree

What can change in a tree without changing what the tree declares: the bodies of
functions, nodes of no known kind, and the places of nodes, as long as the positions that
decide their files stay.
-/

namespace HeaderBinding
namespace Dump

namespace Entity

def extent : Entity → Extent
  | translationUnit => ⟨none, none⟩
  | function extent _ _ _ _ => extent
  | parameter extent _ _ => extent
  | record extent _ _ _ _ => extent
  | field extent _ _ _ => extent
  | enumeration extent _ _ _ => extent
  | enumerator extent _ => extent
  | typedef extent _ _ _ => extent
  | global extent _ _ _ => extent
  | compoundStatement range => ⟨none, range⟩
  | constantExpression range _ => ⟨none, range⟩
  | integerLiteral range _ => ⟨none, range⟩
  | other _ extent => extent

/-- The entity at another place, as far as it records its place at all. -/
def withExtent (x : Extent) : Entity → Entity
  | translationUnit => translationUnit
  | function _ name type variadic implicit => function x name type variadic implicit
  | parameter _ name type => parameter x name type
  | record _ name tag complete implicit => record x name tag complete implicit
  | field _ name type implicit => field x name type implicit
  | enumeration _ name fixedType implicit => enumeration x name fixedType implicit
  | enumerator _ name => enumerator x name
  | typedef _ name type implicit => typedef x name type implicit
  | global _ name type implicit => global x name type implicit
  | compoundStatement _ => compoundStatement x.range
  | constantExpression _ value => constantExpression x.range value
  | integerLiteral _ value => integerLiteral x.range value
  | other kind _ => other kind x

end Entity

/-- Equal locations, up to the spelling position where there is an expansion position. -/
inductive Location.SameExpansion : Option Location → Option Location → Prop where
  | same (l : Option Location) : SameExpansion l l
  | respelled (s t : Option Position) (p : Position) :
      SameExpansion (some ⟨s, some p⟩) (some ⟨t, some p⟩)

theorem Location.SameExpansion.bind_deciding {l k : Option Location}
    (h : SameExpansion l k) : l.bind deciding = k.bind deciding := by
  cases h with
  | same l =>
      rfl
  | respelled s t p =>
      rfl

theorem Entity.bind_deciding_withExtent {e : Entity} {x : Extent}
    (h : Location.SameExpansion e.extent.location x.location) :
    (e.withExtent x).location.bind Location.deciding = e.location.bind Location.deciding := by
  cases e with
  | translationUnit | compoundStatement | constantExpression | integerLiteral =>
      rfl
  | _ =>
      exact h.bind_deciding.symm

/-- A node of no known kind, with none of a known kind below it. -/
inductive Node.OnlyOther : Node → Prop where
  | mk (id : UInt64) (kind : Option String) (extent : Extent) {children : List Node}
      (h : ∀ c ∈ children, OnlyOther c) : OnlyOther (.mk id (.other kind extent) children)

/-!
# One edit, at any depth
-/

inductive Node.Edit : Node → Node → Prop where
  | body (id : UInt64) (range : Option Range) (before after : List Node) :
      Edit (.mk id (.compoundStatement range) before) (.mk id (.compoundStatement range) after)
  | insert (id : UInt64) (entity : Entity) (front back : List Node) {n : Node}
      (h : n.OnlyOther) :
      Edit (.mk id entity (front ++ back)) (.mk id entity (front ++ n :: back))
  | place (id newId : UInt64) (entity : Entity) (x : Extent) (children : List Node)
      (h : Location.SameExpansion entity.extent.location x.location) :
      Edit (.mk id entity children) (.mk newId (entity.withExtent x) children)
  | inside (id : UInt64) (entity : Entity) (front back : List Node) {n m : Node}
      (h : Edit n m) :
      Edit (.mk id entity (front ++ n :: back)) (.mk id entity (front ++ m :: back))

end Dump
end HeaderBinding
