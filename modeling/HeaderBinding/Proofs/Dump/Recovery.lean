import HeaderBinding.Proofs.Dump.Field
import HeaderBinding.Proofs.Json.Print

/-!
# Reading undoes writing

Whatever files and lines a dump leaves out, and in whatever order it writes the fields of
its nodes, the tree is read back as it was.
-/

namespace HeaderBinding
namespace Dump

open Json
open Except (ok)

/-!
# Drafts on the way to an entity
-/

namespace Entity

/-- A draft that has some fields of an entity and none besides. -/
structure Partial (e : Entity) (s : NodeDraft) : Prop where
  said : ∀ f ∈ s.given, s.slot f = e.draft.slot f
  unsaid : ∀ f, f ∉ s.given → s.slot f = NodeDraft.empty.slot f

theorem Partial.put {e : Entity} {s : NodeDraft} (h : e.Partial s) (f : NodeField) :
    e.Partial (s.put e.draft f) := by
  constructor
  · intro g hg
    by_cases hgf : g = f
    · simp [hgf]
    · rw [NodeDraft.given_put] at hg
      simpa [hgf] using h.said g (List.mem_of_ne_of_mem hgf hg)
  · intro g hg
    rw [NodeDraft.given_put, List.mem_cons, not_or] at hg
    simpa [hg.1] using h.unsaid g hg.2

/-- A draft in which only what may be left out is missing describes the entity. -/
theorem Partial.entity? {e : Entity} {s : NodeDraft} (h : e.Partial s)
    (hwhole : ∀ f, f ∈ e.kind.declares → f ∈ s.given ∨ (e.draft.slot f).Omissible) :
    s.entity? e.kind = some e := by
  have hslot : ∀ f, s.slot f = e.draft.slot f := by
    intro f
    by_cases hgiven : f ∈ s.given
    · exact h.said f hgiven
    · rw [h.unsaid f hgiven]
      by_cases hdeclared : f ∈ e.kind.declares
      · have homissible := (hwhole f hdeclared).resolve_left hgiven
        exact (NodeDraft.slot_of_omissible homissible).symm
      · exact (slot_draft_of_undeclared hdeclared).symm
  rw [NodeDraft.entity?_congr hslot, entity?_draft]

/-- What is known of an entity by its kind. -/
theorem draftFor_of_hasKind {e : Entity} {name : String} (h : e.HasKind name) :
    ∃ s, draftFor name = (e.kind, s) ∧ e.Partial s ∧
      ∀ f, f ∈ s.given ↔ f = .kind ∧ e.kind = .other := by
  have hempty : e.Partial .empty :=
    ⟨fun f hf => absurd hf List.not_mem_nil, fun f _ => rfl⟩
  have hgiven : e.kind ≠ .other →
      ∀ f, f ∈ NodeDraft.empty.given ↔ f = .kind ∧ e.kind = .other :=
    fun hkind f => ⟨fun hf => absurd hf List.not_mem_nil, fun hf => absurd hf.2 hkind⟩
  cases e with
  | other known extent =>
      rcases h with ⟨rfl, hname⟩
      have hfind : NodeKind.ofName? name = none := by
        have hnames : ∀ kind ∈ NodeKind.all, kind.name ∈ kindNames := by decide
        apply List.find?_eq_none.mpr
        intro kind hkind heq
        exact hname (of_decide_eq_true heq ▸ hnames kind hkind)
      refine ⟨.ofKind name, ?_, ?_, ?_⟩
      · unfold draftFor
        rw [hfind]
        rfl
      · constructor
        · intro f hf
          rw [List.mem_singleton.mp hf]
          rfl
        · intro f hf
          cases f <;>
            first
            | rfl
            | exact absurd List.mem_cons_self hf
      · exact fun f => List.mem_singleton.trans (and_iff_left rfl).symm
  | _ =>
      cases h
      exact ⟨.empty, rfl, hempty, hgiven (by rintro ⟨⟩)⟩

end Entity

theorem readMember_of_declared {kind : NodeKind} {f : NodeField} {s : NodeDraft} (room : Nat)
    (v : Value) (hdeclared : f ∈ kind.declares) (hgiven : f ∉ s.given) :
    readMember room kind f.key v s = readField room kind f v s := by
  unfold readMember
  rw [NodeKind.field?_key hdeclared]
  exact if_neg hgiven

theorem NodeKind.eq_other_of_declares {kind : NodeKind} (h : .kind ∈ kind.declares) :
    kind = .other := by
  cases kind <;>
    first
    | rfl
    | exact absurd h (by decide)

theorem NodeField.key_ne_inner (f : NodeField) : f.key ≠ "inner" := by
  cases f <;>
    decide

/-!
# Members of a node
-/

theorem readNodeMembers_of_kind {id : UInt64} {text : String} (room : Nat) (kind : String)
    (vs : List Member) (recent : Recent) (hid : IdWrittenAs id text) :
    readNodeMembers room none ((.whole "id", (Datum.text text).value) ::
        (.whole "kind", (Datum.text kind).value) :: vs) recent =
      readFields room none id (draftFor kind).1 (draftFor kind).2 [] vs recent := by
  simp only [readNodeMembers, readFromKind, Scan.whole]
  rw [lift_bind_of_ok recent rfl]
  show ((liftM (readId (Datum.text text).value) : Reading UInt64) >>= _) recent = _
  rw [lift_bind_of_ok recent (readId_of_written hid), lift_bind_of_ok recent rfl,
    if_neg (not_not_intro rfl)]
  rfl

theorem readFields_field {key : String} (hkey : key ≠ "inner") (room : Nat) (id : UInt64)
    (kind : NodeKind) (s : NodeDraft) (known : List Node) (v : Value) (vs : List Member)
    (recent : Recent) :
    readFields room none id kind s known ((.whole key, v) :: vs) recent =
      (readMember room kind key v s >>= fun s =>
        readFields room none id kind s known vs) recent := by
  simp only [readFields, Scan.whole]
  rw [lift_bind_of_ok recent rfl, if_neg hkey]

theorem readFields_inner (room : Nat) (id : UInt64) (kind : NodeKind) (s : NodeDraft)
    (known : List Node) (v : Value) (vs : List Member) (recent : Recent) :
    readFields room none id kind s known ((.whole "inner", v) :: vs) recent =
      (readChildren room v >>= fun children =>
        readFields room none id kind s children vs) recent := by
  simp only [readFields, Scan.whole]
  rw [lift_bind_of_ok recent rfl, if_pos rfl]

/-!
# Trees

The induction is on the way a tree is written. Behind the kind of a node, the draft that
is read so far is a part of the entity, and none of the keys to come has been read.
-/

mutual

theorem readNode_of_written {recent after : Recent} {n : Node} {d : Datum} {room : Nat}
    (h : Node.WrittenAs recent n d after) (hroom : d.depth ≤ room) :
    readNode room d.value recent = ok (n, after) := by
  cases h with
  | @mk _ _ id entity children text kind members hid hkind hcovers hmembers =>
      rcases exists_deeper hroom with ⟨inner, hdeeper, hinner⟩
      have hdepth : Datum.memberDepth members ≤ inner :=
        Nat.le_trans (Nat.le_max_right _ _) (Nat.le_trans (Nat.le_max_right _ _) hinner)
      rcases entity.draftFor_of_hasKind hkind with ⟨s, hs, hpartial, hgiven⟩
      have hopen : ∀ f ∈ s.given, f = .kind ∨ f.key ∉ members.keys :=
        fun f hf => Or.inl ((hgiven f).mp hf).1
      rcases readFields_of_written hmembers hdepth hcovers.once hpartial hopen id []
        with ⟨t, ht, htpartial, hkept, hread⟩
      have hwhole : ∀ f, f ∈ entity.kind.declares →
          f ∈ t.given ∨ (entity.draft.slot f).Omissible := by
        intro f hf
        by_cases hfkind : f = .kind
        · subst hfkind
          have hgiven' := (hgiven .kind).mpr ⟨rfl, NodeKind.eq_other_of_declares hf⟩
          exact Or.inl (hkept .kind hgiven')
        · rcases hcovers.fields _ _ (Entity.mem_fields_of_declared hf hfkind) with hkey | homit
          · exact Or.inl (hread f hkey)
          · exact Or.inr homit
      have hchildren : (if "inner" ∈ members.keys then children else []) = children := by
        by_cases hinner : "inner" ∈ members.keys
        · rw [if_pos hinner]
        · rw [if_neg hinner, hcovers.children.resolve_left hinner]
      show ((liftM (deeper room) : Reading Nat) >>= fun room => readNodeMembers room none _)
        recent = _
      rw [lift_bind_of_ok recent hdeeper]
      simp only [Datum.memberValues]
      rw [readNodeMembers_of_kind inner kind _ recent hid, hs, ht, hchildren]
      unfold complete
      rw [htpartial.entity? hwhole]
      rfl
termination_by sizeOf d

theorem readFields_of_written {recent after : Recent} {e : Entity} {children : List Node}
    {members : Members} {room : Nat} (h : Entity.MembersWrittenAs recent e children members after)
    (hroom : Datum.memberDepth members ≤ room) (honce : members.keys.Nodup) {s : NodeDraft}
    (hs : e.Partial s) (hopen : ∀ f ∈ s.given, f = .kind ∨ f.key ∉ members.keys)
    (id : UInt64) (known : List Node) :
    ∃ t, readFields room none id e.kind s known (Datum.memberValues members) recent =
        complete id e.kind t (if "inner" ∈ members.keys then children else known) after ∧
      e.Partial t ∧ (∀ f ∈ s.given, f ∈ t.given) ∧
        ∀ f, f.key ∈ members.keys → f ∈ t.given := by
  cases h with
  | nil =>
      refine ⟨s, ?_, hs, fun f hf => hf, fun f hf => absurd hf List.not_mem_nil⟩
      simp only [Datum.memberValues, readFields]
      exact lift_bind_of_ok recent rfl
  | @field _ between _ _ _ key content d members hkey hd hmembers =>
      rcases Entity.declared_of_mem_fields hkey with ⟨f, hdeclared, hkind, rfl, rfl⟩
      have hroomd : d.depth ≤ room := Nat.le_trans (Nat.le_max_left _ _) hroom
      have hrooms : Datum.memberDepth members ≤ room :=
        Nat.le_trans (Nat.le_max_right _ _) hroom
      have hgiven : f ∉ s.given := by
        intro hf
        rcases hopen f hf with hfkind | hkey
        · exact hkind hfkind
        · exact hkey List.mem_cons_self
      have hread := readField_of_written s Entity.name_draft_of_named
        (fun hf => Entity.type_draft_of_declared (hf ▸ hdeclared)) hd hroomd
      rw [← readMember_of_declared room d.value hdeclared hgiven] at hread
      have hopen' : ∀ g ∈ (s.put e.draft f).given, g = .kind ∨ g.key ∉ members.keys := by
        intro g hg
        rw [NodeDraft.given_put] at hg
        rcases List.mem_cons.mp hg with rfl | hg
        · exact Or.inr (List.nodup_cons.mp honce).1
        · exact (hopen g hg).imp_right fun hnot hkey => hnot (List.mem_cons_of_mem _ hkey)
      rcases readFields_of_written hmembers hrooms (List.nodup_cons.mp honce).2 (hs.put f) hopen'
        id known with ⟨t, ht, htpartial, hkept, hnew⟩
      refine ⟨t, ?_, htpartial, ?_, ?_⟩
      · have hinner : "inner" ∈ Members.keys ((f.key, d) :: members) ↔
            "inner" ∈ Members.keys members :=
          List.mem_cons.trans (or_iff_right f.key_ne_inner.symm)
        simp only [Datum.memberValues, hinner]
        rw [readFields_field f.key_ne_inner, bind_of_ok hread, ht]
      · intro g hg
        apply hkept
        rw [NodeDraft.given_put]
        exact List.mem_cons_of_mem f hg
      · intro g hg
        rcases List.mem_cons.mp hg with hgf | hg
        · apply hkept
          rw [NodeDraft.given_put, NodeField.key_injective g f hgf]
          exact List.mem_cons_self
        · exact hnew g hg
  | @children _ between _ _ _ items members hitems hmembers =>
      have hroomitems : (Datum.array items).depth ≤ room :=
        Nat.le_trans (Nat.le_max_left _ _) hroom
      have hrooms : Datum.memberDepth members ≤ room :=
        Nat.le_trans (Nat.le_max_right _ _) hroom
      have hopen' : ∀ f ∈ s.given, f = .kind ∨ f.key ∉ members.keys := fun f hf =>
        (hopen f hf).imp_right fun hnot hkey => hnot (List.mem_cons_of_mem _ hkey)
      rcases readFields_of_written hmembers hrooms (List.nodup_cons.mp honce).2 hs hopen' id
        children with ⟨t, ht, htpartial, hkept, hnew⟩
      refine ⟨t, ?_, htpartial, hkept, ?_⟩
      · have hread :
            readChildren room (Datum.array items).value recent = ok (children, between) := by
          rcases exists_deeper hroomitems with ⟨inner, hdeeper, hinner⟩
          simp only [Datum.value, readChildren]
          rw [lift_bind_of_ok recent hdeeper]
          exact readNodes_of_written hitems hinner
        have hinner : "inner" ∈ Members.keys (("inner", Datum.array items) :: members) :=
          List.mem_cons_self
        simp only [Datum.memberValues]
        rw [readFields_inner, bind_of_ok hread, ht, if_pos hinner, ite_self]
      · intro f hf
        rcases List.mem_cons.mp hf with hinner | hf
        · exact absurd hinner f.key_ne_inner
        · exact hnew f hf
termination_by sizeOf members

theorem readNodes_of_written {recent after : Recent} {ns : List Node} {items : List Datum}
    {room : Nat} (h : Node.AllWrittenAs recent ns items after)
    (hroom : Datum.itemDepth items ≤ room) :
    readNodes room none (Datum.itemValues items) recent = ok (ns, after) := by
  cases h with
  | nil =>
      simp only [Datum.itemValues, readNodes]
      exact lift_bind_of_ok recent rfl
  | @cons _ between _ n ns d items hn hns =>
      have hd : d.depth ≤ room := Nat.le_trans (Nat.le_max_left _ _) hroom
      have hitems : Datum.itemDepth items ≤ room := Nat.le_trans (Nat.le_max_right _ _) hroom
      simp only [Datum.itemValues, readNodes]
      rw [bind_of_ok (readNode_of_written hn hd), bind_of_ok (readNodes_of_written hns hitems)]
      rfl
termination_by sizeOf items

end

/-- A text that lays out a datum of a tree is read as this tree, if arrays and objects are
not nested too deeply. It is the text of a whole dump, so no position comes before it. -/
theorem Node.ofText_of_written {n : Node} {d : Datum} {last : Recent} {text : List Char}
    (hn : Node.WrittenAs ⟨"", 0⟩ n d last) (hdepth : d.depth ≤ nestingLimit)
    (htext : Layout d.tokens text) : Node.ofText (encode text) = ok n := by
  unfold Node.ofText
  rw [ofText_layout htext]
  show ((readNode nestingLimit d.value ⟨"", 0⟩) >>= _) = ok n
  rw [readNode_of_written hn hdepth]
  rfl

/-- The second location says neither its file nor its line, which are those of the first
one, although that belongs to a node of no known kind. -/
theorem Node.ofText_of_written_omitted :
    Node.ofText (encode (Datum.print (.object [("id", .text "0x1"),
      ("kind", .text "TranslationUnitDecl"), ("inner", .array [
        .object [("id", .text "0x2"), ("kind", .text "StaticAssertDecl"),
          ("loc", .object [("offset", .natural 20), ("file", .text "lib.h"),
            ("line", .natural 2), ("col", .natural 1), ("tokLen", .natural 14)])],
        .object [("id", .text "0x3"), ("kind", .text "EnumConstantDecl"),
          ("loc", .object [("offset", .natural 60), ("col", .natural 5),
            ("tokLen", .natural 3)]), ("name", .text "A")]])]))) =
      ok (.mk 1 .translationUnit [
        .mk 2 (.other (some "StaticAssertDecl")
          ⟨some (.plain ⟨20, "lib.h", 2, none, none, 1, 14, none, false⟩), none⟩) [],
        .mk 3 (.enumerator
          ⟨some (.plain ⟨60, "lib.h", 2, none, none, 5, 3, none, false⟩), none⟩ "A") []]) := by
  let first : Position := ⟨20, "lib.h", 2, none, none, 1, 14, none, false⟩
  let second : Position := ⟨60, "lib.h", 2, none, none, 5, 3, none, false⟩
  have hfirst : first.HasMembers ⟨"", 0⟩ [("file", .text "lib.h"), ("line", .natural 2),
      ("col", .natural 1), ("tokLen", .natural 14)] := by
    refine ⟨by decide, ?_, by decide, by decide, .inr rfl, .inr rfl, by decide, by decide,
      .inr rfl, .inr rfl⟩
    intro key d hd
    simp only [List.mem_cons, Prod.mk.injEq, List.not_mem_nil, or_false] at hd
    rcases hd with ⟨rfl, rfl⟩ | ⟨rfl, rfl⟩ | ⟨rfl, rfl⟩ | ⟨rfl, rfl⟩
    · exact .file
    · exact .line
    · exact .column
    · exact .tokenLength
  have hsecond : second.HasMembers first.recent [("col", .natural 5), ("tokLen", .natural 3)] := by
    refine ⟨by decide, ?_, .inr rfl, .inr rfl, .inr rfl, .inr rfl, by decide, by decide,
      .inr rfl, .inr rfl⟩
    intro key d hd
    simp only [List.mem_cons, Prod.mk.injEq, List.not_mem_nil, or_false] at hd
    rcases hd with ⟨rfl, rfl⟩ | ⟨rfl, rfl⟩
    · exact .column
    · exact .tokenLength
  have hother : Node.WrittenAs ⟨"", 0⟩
      (.mk 2 (.other (some "StaticAssertDecl") ⟨some (.plain first), none⟩) [])
      (.object [("id", .text "0x2"), ("kind", .text "StaticAssertDecl"),
        ("loc", .object [("offset", .natural 20), ("file", .text "lib.h"),
          ("line", .natural 2), ("col", .natural 1), ("tokLen", .natural 14)])])
      first.recent := by
    refine .mk ⟨['2'], rfl, .single rfl⟩ ⟨rfl, by decide⟩ ⟨by decide, ?_, .inr rfl⟩
      (.field List.mem_cons_self (.location (.plain (.members hfirst))) .nil)
    rintro key content (_ | ⟨_, _ | ⟨_, ⟨⟩⟩⟩)
    · exact .inl (by decide)
    · exact .inr rfl
  have henumerator : Node.WrittenAs first.recent
      (.mk 3 (.enumerator ⟨some (.plain second), none⟩ "A") [])
      (.object [("id", .text "0x3"), ("kind", .text "EnumConstantDecl"),
        ("loc", .object [("offset", .natural 60), ("col", .natural 5),
          ("tokLen", .natural 3)]), ("name", .text "A")])
      second.recent := by
    refine .mk ⟨['3'], rfl, .single rfl⟩ rfl ⟨by decide, ?_, .inr rfl⟩
      (.field List.mem_cons_self (.location (.plain (.members hsecond)))
        (.field (.tail _ (.tail _ List.mem_cons_self)) .text .nil))
    rintro key content (_ | ⟨_, _ | ⟨_, _ | ⟨_, ⟨⟩⟩⟩⟩)
    · exact .inl (by decide)
    · exact .inr rfl
    · exact .inl (by decide)
  refine @Node.ofText_of_written _ _ second.recent _ ?_ ?_ (Datum.layout_tokens _)
  · refine .mk ⟨['1'], rfl, .single rfl⟩ rfl ⟨by decide, ?_, .inl (by decide)⟩
      (.children (.cons hother (.cons henumerator .nil)) .nil)
    rintro key content ⟨⟩
  · decide

end Dump
end HeaderBinding
