import HeaderBinding.Proofs.Dump.Position

/-!
# Reading the fields of a node

A field is read into a draft of the node as it is written. Which fields a kind of node
declares is compared with the fields that its nodes have.
-/

namespace HeaderBinding
namespace Dump

open Json
open Except (ok)

/-!
# Identifiers
-/

theorem hexValue?_of_numeral {ds : List Char} {n : Nat} (h : HexNumeral ds n) :
    Text.hexValue? ds = some n := by
  induction h with
  | single hc =>
      simp [Text.hexValue?, hc]
  | @append ds n c k hds hc ih =>
      unfold Text.hexValue? at ih ⊢
      split at ih
      · cases ih
      · rw [if_neg (by simp), List.foldl_append, ih]
        simp [hc]

theorem cons_of_numeral {ds : List Char} {n : Nat} (h : HexNumeral ds n) :
    ∃ c cs, ds = c :: cs ∧ c ≠ '+' := by
  induction h with
  | @single c k hc =>
      refine ⟨c, [], rfl, ?_⟩
      rintro rfl
      cases hc
  | @append ds n d k hds hd ih =>
      rcases ih with ⟨c, cs, rfl, hc⟩
      exact ⟨c, cs ++ [d], rfl, hc⟩

theorem idOfText?_of_written {id : UInt64} {text : String} (h : IdWrittenAs id text) :
    idOfText? text = some id := by
  rcases h with ⟨ds, htext, hds⟩
  have hvalue := hexValue?_of_numeral hds
  rcases cons_of_numeral hds with ⟨c, cs, rfl, hc⟩
  unfold idOfText?
  rw [htext]
  simp [hc, hvalue, id.toNat_lt]

theorem readId_of_written {id : UInt64} {text : String} (h : IdWrittenAs id text) :
    readId (Datum.text text).value = ok id := by
  simp only [readId, Datum.value, Scan.whole, readText, bind, Except.bind,
    idOfText?_of_written h]
  rfl

/-!
# Contents
-/

theorem readType_of_written {t : TypeSpelling} {d : Datum} {room : Nat} (h : t.WrittenAs d)
    (hroom : d.depth ≤ room) : readType room d.value = ok t := by
  cases room with
  | zero =>
      cases h <;>
        exact absurd hroom (Nat.not_succ_le_zero _)
  | succ room =>
      rcases t with ⟨written, resolved⟩
      cases h with
      | plain h =>
          cases h
          rfl
      | writtenFirst =>
          cases resolved <;>
            rfl
      | resolvedFirst =>
          cases resolved <;>
            rfl

theorem map_of_ok {x : Reading α} {f : α → β} {recent after : Recent} {a : α}
    (h : x recent = ok (a, after)) : (f <$> x) recent = ok (f a, after) := by
  show (x recent >>= fun p => pure (f p.1, p.2)) = ok (f a, after)
  rw [h]
  rfl

theorem Location.WrittenAs.isObject {l : Location} {d : Datum} {recent after : Recent}
    (h : l.WrittenAs recent d after) : ∃ members, d = .object members := by
  cases h with
  | none =>
      exact ⟨_, rfl⟩
  | plain h =>
      cases h
      exact ⟨_, rfl⟩
  | both hp hq =>
      exact ⟨_, rfl⟩

theorem readLocation?_of_written {l : Option Location} {d : Datum} {recent after : Recent}
    {room : Nat} (h : Content.WrittenAs recent (.location l) d after) (hroom : d.depth ≤ room) :
    optional (readLocation room) d.value recent = ok (l, after) := by
  cases h with
  | noLocation =>
      rfl
  | location h =>
      rcases h.isObject with ⟨members, rfl⟩
      exact map_of_ok (readLocation_of_written h hroom)

theorem readRange?_of_written {r : Option Range} {d : Datum} {recent after : Recent}
    {room : Nat} (h : Content.WrittenAs recent (.range r) d after) (hroom : d.depth ≤ room) :
    optional (readRange room) d.value recent = ok (r, after) := by
  cases h with
  | noRange =>
      rfl
  | range h =>
      have hread := readRange_of_written h hroom
      cases h <;>
        exact map_of_ok hread

theorem readText?_of_written {s : Option String} {d : Datum} {recent after : Recent}
    (h : Content.WrittenAs recent (.text s) d after) :
    optional readText d.value = ok s ∧ after = recent := by
  cases h <;>
    exact ⟨rfl, rfl⟩

theorem readText_of_written {s : String} {d : Datum} {recent after : Recent}
    (h : Content.WrittenAs recent (.text (some s)) d after) :
    readText d.value = ok s ∧ after = recent := by
  cases h
  exact ⟨rfl, rfl⟩

theorem readType?_of_written {t : Option TypeSpelling} {d : Datum} {recent after : Recent}
    {room : Nat} (h : Content.WrittenAs recent (.type t) d after) (hroom : d.depth ≤ room) :
    optional (readType room) d.value = ok t ∧ after = recent := by
  cases h with
  | noType =>
      exact ⟨rfl, rfl⟩
  | @type t d h =>
      have hread : some <$> readType room d.value = ok (some t) := by
        rw [readType_of_written h hroom]
        rfl
      refine ⟨?_, rfl⟩
      cases h <;>
        exact hread

theorem readFlag?_of_written {b : Option Bool} {d : Datum} {recent after : Recent}
    (h : Content.WrittenAs recent (.flag b) d after) :
    optional readFlag d.value = ok b ∧ after = recent := by
  cases h <;>
    exact ⟨rfl, rfl⟩

theorem readMark_of_written {b : Bool} {d : Datum} {recent after : Recent}
    (h : Content.WrittenAs recent (.mark b) d after) :
    readFlag d.value = ok b ∧ after = recent := by
  cases h
  exact ⟨rfl, rfl⟩

/-!
# Drafts
-/

namespace NodeDraft

def slot (s : NodeDraft) : NodeField → Content
  | .location => .location s.location
  | .range => .range s.range
  | .name => .text s.name
  | .type => .type s.type
  | .variadic => .flag s.variadic
  | .implicit => .mark s.implicit
  | .tag => .text s.tag
  | .complete => .mark s.complete
  | .fixedType => .type s.fixedType
  | .value => .text s.value
  | .kind => .text s.kind

/-- The draft that has been given one field of another draft. -/
def put (s target : NodeDraft) (f : NodeField) : NodeDraft :=
  let s := { s with given := f :: s.given }
  match f with
  | .location => { s with location := target.location }
  | .range => { s with range := target.range }
  | .name => { s with name := target.name }
  | .type => { s with type := target.type }
  | .variadic => { s with variadic := target.variadic }
  | .implicit => { s with implicit := target.implicit }
  | .tag => { s with tag := target.tag }
  | .complete => { s with complete := target.complete }
  | .fixedType => { s with fixedType := target.fixedType }
  | .value => { s with value := target.value }
  | .kind => { s with kind := target.kind }

@[simp]
theorem given_put (s target : NodeDraft) (f : NodeField) :
    (s.put target f).given = f :: s.given := by
  cases f <;>
    rfl

@[simp]
theorem slot_put (s target : NodeDraft) (f : NodeField) :
    (s.put target f).slot f = target.slot f := by
  cases f <;>
    rfl

@[simp]
theorem slot_put_of_ne (s target : NodeDraft) {f g : NodeField} (h : g ≠ f) :
    (s.put target f).slot g = s.slot g := by
  cases f <;> cases g <;>
    first
    | rfl
    | exact absurd rfl h

/-- What a draft describes depends on what its fields hold only. -/
theorem entity?_congr {s t : NodeDraft} (h : ∀ f, s.slot f = t.slot f) (kind : NodeKind) :
    s.entity? kind = t.entity? kind := by
  rcases s with ⟨_, location, range, name, type, variadic, implicit, tag, complete, fixedType,
    value, known⟩
  cases Content.location.inj (h .location)
  cases Content.range.inj (h .range)
  cases Content.text.inj (h .name)
  cases Content.type.inj (h .type)
  cases Content.flag.inj (h .variadic)
  cases Content.mark.inj (h .implicit)
  cases Content.text.inj (h .tag)
  cases Content.mark.inj (h .complete)
  cases Content.type.inj (h .fixedType)
  cases Content.text.inj (h .value)
  cases Content.text.inj (h .kind)
  cases kind <;>
    rfl

theorem slot_of_omissible {s : NodeDraft} {f : NodeField} (h : (s.slot f).Omissible) :
    s.slot f = empty.slot f := by
  cases f <;>
    exact congrArg _ h

end NodeDraft

theorem readField_of_written {kind : NodeKind} {f : NodeField} {target : NodeDraft} {d : Datum}
    {recent after : Recent} {room : Nat} (s : NodeDraft)
    (hname : kind.named = true → target.name ≠ none) (htype : f = .type → target.type ≠ none)
    (h : (target.slot f).WrittenAs recent d after) (hroom : d.depth ≤ room) :
    readField room kind f d.value s recent = ok (s.put target f, after) := by
  cases f with
  | location =>
      exact bind_of_ok (readLocation?_of_written h hroom)
  | range =>
      exact bind_of_ok (readRange?_of_written h hroom)
  | name =>
      by_cases hnamed : kind.named = true
      · rcases Option.ne_none_iff_exists'.mp (hname hnamed) with ⟨name, hsome⟩
        change Content.WrittenAs recent (.text target.name) d after at h
        show (if kind.named = true then (liftM (readText d.value) : Reading String) >>= _
          else _) recent = ok ({ s with given := .name :: s.given, name := target.name }, after)
        rw [hsome] at h ⊢
        rcases readText_of_written h with ⟨hread, rfl⟩
        rw [if_pos hnamed]
        exact lift_bind_of_ok after hread
      · rcases readText?_of_written h with ⟨hread, rfl⟩
        show (if kind.named = true then _
          else (liftM (optional readText d.value : Except Fault _) : Reading (Option String)) >>= _)
          after = _
        rw [if_neg hnamed]
        exact lift_bind_of_ok after hread
  | type =>
      rcases Option.ne_none_iff_exists'.mp (htype rfl) with ⟨t, hsome⟩
      change Content.WrittenAs recent (.type target.type) d after at h
      show ((liftM (readType room d.value) : Reading TypeSpelling) >>= _) recent =
        ok ({ s with given := .type :: s.given, type := target.type }, after)
      rw [hsome] at h ⊢
      cases h with
      | type h =>
          exact lift_bind_of_ok recent (readType_of_written h hroom)
  | variadic =>
      rcases readFlag?_of_written h with ⟨hread, rfl⟩
      exact lift_bind_of_ok after hread
  | implicit =>
      rcases readMark_of_written h with ⟨hread, rfl⟩
      exact lift_bind_of_ok after hread
  | tag =>
      rcases readText?_of_written h with ⟨hread, rfl⟩
      exact lift_bind_of_ok after hread
  | complete =>
      rcases readMark_of_written h with ⟨hread, rfl⟩
      exact lift_bind_of_ok after hread
  | fixedType =>
      rcases readType?_of_written h hroom with ⟨hread, rfl⟩
      exact lift_bind_of_ok after hread
  | value =>
      rcases readText?_of_written h with ⟨hread, rfl⟩
      exact lift_bind_of_ok after hread
  | kind =>
      rcases readText?_of_written h with ⟨hread, rfl⟩
      exact lift_bind_of_ok after hread

/-!
# What the kinds declare
-/

namespace Entity

def kind : Entity → NodeKind
  | translationUnit => .translationUnit
  | function _ _ _ _ _ => .function
  | parameter _ _ _ => .parameter
  | record _ _ _ _ _ => .record
  | field _ _ _ _ => .field
  | enumeration _ _ _ _ => .enumeration
  | enumerator _ _ => .enumerator
  | typedef _ _ _ _ => .typedef
  | global _ _ _ _ => .global
  | compoundStatement _ => .compoundStatement
  | constantExpression _ _ => .constantExpression
  | integerLiteral _ _ => .integerLiteral
  | other _ _ => .other

/-- The draft of an entity that has been read as a whole. -/
def draft : Entity → NodeDraft
  | translationUnit => .empty
  | function extent name type variadic implicit =>
      { NodeDraft.empty with
        location := extent.location, range := extent.range, name := some name,
        type := some type, variadic := variadic, implicit := implicit }
  | parameter extent name type =>
      { NodeDraft.empty with
        location := extent.location, range := extent.range, name := name, type := some type }
  | record extent name tag complete implicit =>
      { NodeDraft.empty with
        location := extent.location, range := extent.range, name := name, tag := tag,
        complete := complete, implicit := implicit }
  | field extent name type implicit =>
      { NodeDraft.empty with
        location := extent.location, range := extent.range, name := name, type := some type,
        implicit := implicit }
  | enumeration extent name fixedType implicit =>
      { NodeDraft.empty with
        location := extent.location, range := extent.range, name := name,
        fixedType := fixedType, implicit := implicit }
  | enumerator extent name =>
      { NodeDraft.empty with
        location := extent.location, range := extent.range, name := some name }
  | typedef extent name type implicit =>
      { NodeDraft.empty with
        location := extent.location, range := extent.range, name := some name,
        type := some type, implicit := implicit }
  | global extent name type implicit =>
      { NodeDraft.empty with
        location := extent.location, range := extent.range, name := some name,
        type := some type, implicit := implicit }
  | compoundStatement range => { NodeDraft.empty with range := range }
  | constantExpression range value => { NodeDraft.empty with range := range, value := value }
  | integerLiteral range value => { NodeDraft.empty with range := range, value := value }
  | other kind extent =>
      { NodeDraft.empty with location := extent.location, range := extent.range, kind := kind }

theorem entity?_draft (e : Entity) : e.draft.entity? e.kind = some e := by
  cases e <;>
    rfl

theorem name_draft_of_named {e : Entity} (h : e.kind.named = true) : e.draft.name ≠ none := by
  cases e <;>
    first
    | exact Option.some_ne_none _
    | cases h

theorem type_draft_of_declared {e : Entity} (h : .type ∈ e.kind.declares) :
    e.draft.type ≠ none := by
  cases e <;>
    first
    | exact Option.some_ne_none _
    | simp [kind, NodeKind.declares] at h

/-- The fields of an entity are those that its kind declares, under the same keys, but for
the kind itself. -/
theorem fields_eq (e : Entity) :
    e.fields = (e.kind.declares.filter (· ≠ .kind)).map fun f => (f.key, e.draft.slot f) := by
  cases e <;>
    rfl

theorem slot_draft_of_undeclared {e : Entity} {f : NodeField} (h : f ∉ e.kind.declares) :
    e.draft.slot f = NodeDraft.empty.slot f := by
  cases e <;> cases f <;>
    first
    | rfl
    | simp [kind, NodeKind.declares] at h

end Entity

theorem NodeField.key_injective (f g : NodeField) (h : f.key = g.key) : f = g := by
  cases f <;> cases g <;>
    first
    | rfl
    | exact absurd h (by decide)

theorem NodeKind.field?_key {kind : NodeKind} {f : NodeField} (h : f ∈ kind.declares) :
    kind.field? f.key = some f := by
  cases hfind : kind.field? f.key with
  | none =>
      have hnot := List.find?_eq_none.mp hfind f h
      exact absurd (decide_eq_true rfl) hnot
  | some g =>
      unfold NodeKind.field? at hfind
      have hkey := List.find?_some hfind
      rw [NodeField.key_injective g f (of_decide_eq_true hkey)]

namespace Entity

/-- A field that an entity has is declared by its kind. -/
theorem declared_of_mem_fields {e : Entity} {key : String} {content : Content}
    (h : (key, content) ∈ e.fields) :
    ∃ f, f ∈ e.kind.declares ∧ f ≠ .kind ∧ f.key = key ∧ e.draft.slot f = content := by
  rw [fields_eq] at h
  rcases List.mem_map.mp h with ⟨f, hf, hpair⟩
  cases hpair
  rcases List.mem_filter.mp hf with ⟨hdeclared, hkind⟩
  exact ⟨f, hdeclared, of_decide_eq_true hkind, rfl, rfl⟩

theorem mem_fields_of_declared {e : Entity} {f : NodeField} (h : f ∈ e.kind.declares)
    (hkind : f ≠ .kind) : (f.key, e.draft.slot f) ∈ e.fields := by
  rw [fields_eq]
  apply List.mem_map.mpr
  exact ⟨f, List.mem_filter.mpr ⟨h, decide_eq_true hkind⟩, rfl⟩

end Entity

end Dump
end HeaderBinding
