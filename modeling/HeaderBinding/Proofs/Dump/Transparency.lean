import HeaderBinding.Proofs.Dump.Acceptance
import HeaderBinding.Proofs.Dump.Recovery

/-!
# Members that no node is read by

A node is read by the fields of its kind only. Whatever else its members hold, as long as their
keys can be read, the tree is the same with them and without them, and so are the files and
the lines that are carried from one position to the next.
-/

namespace HeaderBinding

open Json
open Except (ok error)

namespace Json

namespace StringLiteral

/-- Whether a literal stands for any text at all. -/
def Readable (s : StringLiteral) : Prop :=
  ∃ t, s.Denotes t

theorem Denotes.unique {s : StringLiteral} {t u : String} (ht : s.Denotes t)
    (hu : s.Denotes u) : t = u := by
  have hscan := (scan_of_denotes ht).symm.trans (scan_of_denotes hu)
  exact Except.ok.inj (congrArg Scan.content hscan)

end StringLiteral

end Json

namespace Dump

/-!
# Texts with further members
-/

/-- The keys of the fields that a node of this kind is read by. -/
def fieldKeys (kind : String) : List String :=
  match kind with
  | "TranslationUnitDecl" => []
  | "FunctionDecl" => ["loc", "range", "name", "type", "variadic", "isImplicit"]
  | "ParmVarDecl" => ["loc", "range", "name", "type"]
  | "RecordDecl" => ["loc", "range", "name", "tagUsed", "completeDefinition", "isImplicit"]
  | "FieldDecl" => ["loc", "range", "name", "type", "isImplicit"]
  | "EnumDecl" => ["loc", "range", "name", "fixedUnderlyingType", "isImplicit"]
  | "EnumConstantDecl" => ["loc", "range", "name"]
  | "TypedefDecl" => ["loc", "range", "name", "type", "isImplicit"]
  | "VarDecl" => ["loc", "range", "name", "type", "isImplicit"]
  | "CompoundStmt" => ["range"]
  | "ConstantExpr" => ["range", "value"]
  | "IntegerLiteral" => ["range", "value"]
  | _ => ["loc", "range"]

/-- Whether a key is none of those that a node of this kind is read by. -/
def Unmodeled (kind : String) (key : StringLiteral) : Prop :=
  ∀ name ∈ ["id", "kind", "inner"] ++ fieldKeys kind, ¬key.Denotes name

section Extension

variable (fits : StringLiteral → Prop)

mutual

/-- A node with further members behind its kind, and behind the kinds of the nodes below it.
Their keys are none that the nodes are read by, and all of them fit. -/
inductive NodeExtended : Source → Source → Prop where
  | same (d : Source) : NodeExtended d d
  | members {before ms ms' : List (StringLiteral × Source)} {key name : StringLiteral}
      {kind : String} (hbefore : ∀ m ∈ before, m.1.Denotes "id") (hkey : key.Denotes "kind")
      (hname : name.Denotes kind) (h : MembersExtended kind ms ms') :
      NodeExtended (.object (before ++ (key, .text name) :: ms))
        (.object (before ++ (key, .text name) :: ms'))

inductive MembersExtended : String → List (StringLiteral × Source) →
    List (StringLiteral × Source) → Prop where
  | nil {kind : String} : MembersExtended kind [] []
  | keep {kind : String} {ms ms' : List (StringLiteral × Source)} (m : StringLiteral × Source)
      (h : MembersExtended kind ms ms') : MembersExtended kind (m :: ms) (m :: ms')
  | children {kind : String} {ms ms' : List (StringLiteral × Source)} {key : StringLiteral}
      {ds ds' : List Source} (hkey : key.Denotes "inner") (hds : NodesExtended ds ds')
      (h : MembersExtended kind ms ms') :
      MembersExtended kind ((key, .array ds) :: ms) ((key, .array ds') :: ms')
  | insert {kind : String} {ms ms' : List (StringLiteral × Source)} {key : StringLiteral}
      (d : Source) (hkey : Unmodeled kind key) (hfits : fits key)
      (h : MembersExtended kind ms ms') : MembersExtended kind ms ((key, d) :: ms')

inductive NodesExtended : List Source → List Source → Prop where
  | nil : NodesExtended [] []
  | cons {d d' : Source} {ds ds' : List Source} (h : NodeExtended d d')
      (hds : NodesExtended ds ds') : NodesExtended (d :: ds) (d' :: ds')

end

end Extension

/-!
# The fields of a kind
-/

theorem mem_fieldKeys_of_declared {name : String} {f : NodeField}
    (h : f ∈ (draftFor name).1.declares) : f = .kind ∨ f.key ∈ fieldKeys name := by
  unfold draftFor at h
  split at h
  next kind hfind =>
    have hname : name = kind.name := by
      unfold NodeKind.ofName? at hfind
      have hfound := List.find?_some hfind
      exact (of_decide_eq_true hfound).symm
    subst hname
    have hall : ∀ f ∈ kind.declares, f = .kind ∨ f.key ∈ fieldKeys kind.name := by
      cases kind <;>
        decide
    exact hall f h
  next hfind =>
    have hother : fieldKeys name = ["loc", "range"] := by
      unfold fieldKeys
      split
      case h_13 =>
        rfl
      all_goals exact absurd hfind (by decide)
    have hall : ∀ f ∈ NodeKind.other.declares, f = .kind ∨ f.key ∈ ["loc", "range"] := by
      decide
    rw [hother]
    exact hall f h

theorem field?_of_unmodeled {kind key : String}
    (hkey : key ∉ ["id", "kind", "inner"] ++ fieldKeys kind) :
    (draftFor kind).1.field? key = none := by
  apply List.find?_eq_none.mpr
  intro f hf heq
  have hf' : f.key = key := of_decide_eq_true heq
  apply hkey
  apply List.mem_append.mpr
  rcases mem_fieldKeys_of_declared hf with rfl | hfield
  · rw [← hf']
    exact .inl (by decide)
  · rw [← hf']
    exact .inr hfield

theorem readMember_of_unmodeled {kind key : String} {v : Value} (room : Nat) (s : NodeDraft)
    (recent : Recent) (hkey : key ∉ ["id", "kind", "inner"] ++ fieldKeys kind)
    (hv : v.passing = none) :
    readMember room (draftFor kind).1 key v s recent = ok (s, recent) := by
  have hpass : pass v = ok () := by
    unfold pass
    rw [hv]
  unfold readMember
  rw [field?_of_unmodeled hkey]
  exact lift_bind_of_ok recent hpass

/-!
# Up to the kind
-/

theorem readNodeMembers_id (room : Nat) (v : Value) (vs : List Member) :
    readNodeMembers room none ((.whole "id", v) :: vs) =
      (liftM (readId v) >>= fun id => readFromKind room none id vs) := by
  rfl

theorem readNodeMembers_kind (room : Nat) (kind : String) (vs : List Member) :
    readNodeMembers room none ((.whole "kind", .atom (.whole (.text kind))) :: vs) =
      readFields room none 0 (draftFor kind).1 (draftFor kind).2 [] vs := by
  rfl

theorem readFromKind_kind (room : Nat) (id : UInt64) (kind : String) (vs : List Member) :
    readFromKind room none id ((.whole "kind", .atom (.whole (.text kind))) :: vs) =
      readFields room none id (draftFor kind).1 (draftFor kind).2 [] vs := by
  rfl

theorem readFromKind_id (room : Nat) (id : UInt64) (v : Value) (vs : List Member) :
    readFromKind room none id ((.whole "id", v) :: vs) = refuse .misshapen := by
  rfl

theorem memberValues_append (before ms : List (StringLiteral × Source)) :
    Source.memberValues (before ++ ms) =
      Source.memberValues before ++ Source.memberValues ms := by
  induction before with
  | nil =>
      rfl
  | cons m before ih =>
      rcases m with ⟨key, d⟩
      simp only [List.cons_append, Source.memberValues, ih]

/-- A node is read alike if the members behind its kind are. In front of the kind there is room
for one identifier, and a second one is refused before it comes to the kind. -/
theorem readNodeMembers_congr {before : List (StringLiteral × Source)} {kind : String}
    {vs vs' : List Member} (room : Nat) (hbefore : ∀ m ∈ before, m.1.Denotes "id")
    (h : ∀ id, readFields room none id (draftFor kind).1 (draftFor kind).2 [] vs' =
      readFields room none id (draftFor kind).1 (draftFor kind).2 [] vs) :
    readNodeMembers room none (Source.memberValues before ++
        (.whole "kind", .atom (.whole (.text kind))) :: vs') =
      readNodeMembers room none (Source.memberValues before ++
        (.whole "kind", .atom (.whole (.text kind))) :: vs) := by
  cases before with
  | nil =>
      simp only [Source.memberValues, List.nil_append, readNodeMembers_kind, h]
  | cons m before =>
      rcases m with ⟨key, d⟩
      have hkey := StringLiteral.scan_of_denotes (hbefore _ List.mem_cons_self)
      simp only at hkey
      cases before with
      | nil =>
          simp only [Source.memberValues, List.cons_append, List.nil_append, hkey,
            readNodeMembers_id, readFromKind_kind, h]
      | cons m' before =>
          rcases m' with ⟨key', d'⟩
          have hkey' := StringLiteral.scan_of_denotes
            (hbefore _ (List.mem_cons_of_mem _ List.mem_cons_self))
          simp only at hkey'
          simp only [Source.memberValues, List.cons_append, hkey, hkey', readNodeMembers_id,
            readFromKind_id]

theorem sizeOf_lt_append (before : List (StringLiteral × Source)) (m : StringLiteral × Source)
    (ms : List (StringLiteral × Source)) : sizeOf ms < sizeOf (before ++ m :: ms) := by
  induction before with
  | nil =>
      rw [List.nil_append, List.cons.sizeOf_spec]
      omega
  | cons m' before ih =>
      rw [List.cons_append, List.cons.sizeOf_spec]
      omega

/-!
# Behind the kind

The induction is on the way a node is extended. A further member leaves both the draft and the
position read last as they are.
-/

mutual

theorem readNode_of_extended {d d' : Source} (h : NodeExtended StringLiteral.Readable d d')
    (room : Nat) : readNode room d'.value = readNode room d.value := by
  cases h with
  | same d =>
      rfl
  | @members before ms ms' key name kind hbefore hkey hname h =>
      have hfields := fun room id =>
        readFields_of_extended h room id (draftFor kind).2 []
      simp only [Source.value, readNode, memberValues_append, Source.memberValues,
        StringLiteral.scan_of_denotes hkey, StringLiteral.scan_of_denotes hname]
      congr 1
      funext room
      exact readNodeMembers_congr room hbefore (hfields room)
termination_by sizeOf d'
decreasing_by
  subst_vars
  rw [Source.object.sizeOf_spec]
  exact Nat.lt_add_left 1 (sizeOf_lt_append before _ ms')

theorem readFields_of_extended {kind : String} {ms ms' : List (StringLiteral × Source)}
    (h : MembersExtended StringLiteral.Readable kind ms ms') (room : Nat) (id : UInt64)
    (s : NodeDraft) (known : List Node) :
    readFields room none id (draftFor kind).1 s known (Source.memberValues ms') =
      readFields room none id (draftFor kind).1 s known (Source.memberValues ms) := by
  cases h with
  | nil =>
      rfl
  | @keep _ ms ms' m h =>
      rcases m with ⟨key, d⟩
      have ih := readFields_of_extended h room id
      simp only [Source.memberValues, readFields, ih]
  | @children _ ms ms' key ds ds' hkey hds h =>
      have ih := readFields_of_extended h room id
      have hchildren : readChildren room (Source.array ds').value =
          readChildren room (Source.array ds).value := by
        simp only [Source.value, readChildren, readNodes_of_extended hds]
      funext recent
      simp only [Source.memberValues, StringLiteral.scan_of_denotes hkey]
      rw [readFields_inner, readFields_inner, hchildren]
      simp only [ih]
  | @insert _ ms ms' key d hkey hfits h =>
      rcases hfits with ⟨name, hname⟩
      have hunmodeled : name ∉ ["id", "kind", "inner"] ++ fieldKeys kind :=
        fun hmem => hkey name hmem hname
      have hinner : name ≠ "inner" := by
        rintro rfl
        exact hunmodeled (List.mem_append_left _ (by decide))
      funext recent
      simp only [Source.memberValues, StringLiteral.scan_of_denotes hname]
      rw [readFields_field hinner,
        bind_of_ok (readMember_of_unmodeled room s recent hunmodeled d.passing_value),
        readFields_of_extended h]
termination_by sizeOf ms'

theorem readNodes_of_extended {ds ds' : List Source}
    (h : NodesExtended StringLiteral.Readable ds ds') (room : Nat) :
    readNodes room none (Source.itemValues ds') = readNodes room none (Source.itemValues ds) := by
  cases h with
  | nil =>
      rfl
  | cons h hds =>
      simp only [Source.itemValues, readNodes, readNode_of_extended h, readNodes_of_extended hds]
termination_by sizeOf ds'

end

/-- A text with further members is read as the text without them is: as the same tree, with the
same files and lines, if it is read at all. -/
theorem Node.ofText_eq_of_extended {d d' : Source} {t t' : List UInt8}
    (h : NodeExtended StringLiteral.Readable d d') (ht : Source.Spread d.pieces t)
    (ht' : Source.Spread d'.pieces t') : Node.ofText t' = Node.ofText t := by
  unfold Node.ofText
  rw [Source.ofText_pieces ht, Source.ofText_pieces ht']
  simp only [readNode_of_extended h]

/-- Every text that is read has a source, and with further members in its source it is read as
the same tree, with the same files and lines. -/
theorem Node.ofText_of_extended {t : List UInt8} {n : Node} (h : Node.ofText t = ok n) :
    (∃ d : Source, Source.Spread d.pieces t) ∧
      ∀ (d d' : Source) (t' : List UInt8), Source.Spread d.pieces t →
        NodeExtended StringLiteral.Readable d d' → Source.Spread d'.pieces t' →
          Node.ofText t' = ok n := by
  constructor
  · exact Node.exists_source_of_ofText h
  · intro d d' t' ht hextended ht'
    rw [Node.ofText_eq_of_extended hextended ht ht']
    exact h

theorem unmodeled_quoted {kind key : String}
    (h : key ∉ ["id", "kind", "inner"] ++ fieldKeys kind) :
    Unmodeled kind (Source.quoted key) := by
  intro name hname hdenotes
  rw [(Source.denotes_quoted key).unique hdenotes] at h
  exact h hname

theorem nodeExtended_ofDatum {fits : StringLiteral → Prop} {id kind : String}
    {ms ms' : Members}
    (h : MembersExtended fits kind (Source.ofMembers ms) (Source.ofMembers ms')) :
    NodeExtended fits
      (Source.ofDatum (.object (("id", .text id) :: ("kind", .text kind) :: ms)))
      (Source.ofDatum (.object (("id", .text id) :: ("kind", .text kind) :: ms'))) := by
  have hid : ∀ m ∈ [(Source.quoted "id", Source.text (Source.quoted id))],
      m.1.Denotes "id" := by
    intro m hm
    rw [List.mem_singleton.mp hm]
    exact Source.denotes_quoted "id"
  simp only [Source.ofDatum, Source.ofMembers]
  exact .members hid (Source.denotes_quoted "kind") (Source.denotes_quoted kind) h

/-- The further members hold a position each, in other files and deep inside. The second
enumerator still takes its file and its line from the first. -/
theorem Node.ofText_of_extended_positions :
    Node.ofText (encode (Datum.print (.object [("id", .text "0x1"),
        ("kind", .text "TranslationUnitDecl"),
        ("loc", .object [("offset", .natural 1), ("file", .text "b.h"), ("line", .natural 9),
          ("col", .natural 1), ("tokLen", .natural 1)]),
        ("inner", .array [
          .object [("id", .text "0x2"), ("kind", .text "EnumConstantDecl"),
            ("loc", .object [("offset", .natural 20), ("file", .text "a.h"),
              ("line", .natural 2), ("col", .natural 1), ("tokLen", .natural 1)]),
            ("previousDecl", .array [.array [.object [("id", .text "0x9"),
              ("kind", .text "EnumConstantDecl"), ("loc", .object [("offset", .natural 5),
                ("file", .text "c.h"), ("line", .natural 4), ("col", .natural 1),
                ("tokLen", .natural 1)])]]]),
            ("name", .text "A")],
          .object [("id", .text "0x3"), ("kind", .text "EnumConstantDecl"),
            ("loc", .object [("offset", .natural 30), ("col", .natural 5),
              ("tokLen", .natural 1)]), ("name", .text "B")]])]))) =
      ok (.mk 1 .translationUnit [
        .mk 2 (.enumerator
          ⟨some (.plain ⟨20, "a.h", 2, none, none, 1, 1, none, false⟩), none⟩ "A") [],
        .mk 3 (.enumerator
          ⟨some (.plain ⟨30, "a.h", 2, none, none, 5, 1, none, false⟩), none⟩ "B") []]) := by
  let first : Datum := .object [("offset", .natural 20), ("file", .text "a.h"),
    ("line", .natural 2), ("col", .natural 1), ("tokLen", .natural 1)]
  let second : Datum := .object [("id", .text "0x3"), ("kind", .text "EnumConstantDecl"),
    ("loc", .object [("offset", .natural 30), ("col", .natural 5), ("tokLen", .natural 1)]),
    ("name", .text "B")]
  let plain : Datum := .object [("id", .text "0x1"), ("kind", .text "TranslationUnitDecl"),
    ("inner", .array [.object [("id", .text "0x2"), ("kind", .text "EnumConstantDecl"),
      ("loc", first), ("name", .text "A")], second])]
  have hplain : Node.ofText (encode plain.print) = ok (.mk 1 .translationUnit [
      .mk 2 (.enumerator
        ⟨some (.plain ⟨20, "a.h", 2, none, none, 1, 1, none, false⟩), none⟩ "A") [],
      .mk 3 (.enumerator
        ⟨some (.plain ⟨30, "a.h", 2, none, none, 5, 1, none, false⟩), none⟩ "B") []]) := by
    unfold Node.ofText
    rw [ofText_layout (Datum.layout_tokens plain)]
    rfl
  have hfirst : ∀ d, MembersExtended StringLiteral.Readable "EnumConstantDecl"
      (Source.ofMembers [("loc", first), ("name", .text "A")])
      (Source.ofMembers [("loc", first), ("previousDecl", d), ("name", .text "A")]) :=
    fun d => .keep _ (.insert _ (unmodeled_quoted (by decide)) ⟨_, Source.denotes_quoted _⟩
      (.keep _ .nil))
  refine (Node.ofText_of_extended hplain).2 (Source.ofDatum plain) _ _
    (Source.spread_print plain) (nodeExtended_ofDatum ?_) (Source.spread_print _)
  exact .insert _ (unmodeled_quoted (by decide)) ⟨_, Source.denotes_quoted _⟩
    (.children (Source.denotes_quoted "inner")
      (.cons (nodeExtended_ofDatum (hfirst _)) (.cons (.same _) .nil)) .nil)

/-- A key that stands for no text is refused, although the grammar admits it: here it is half of
a surrogate pair. -/
theorem Node.not_ofText_of_extended_unreadable :
    ¬∀ (d d' : Source) (t t' : List UInt8) (n : Node), NodeExtended (fun _ => True) d d' →
      Source.Spread d.pieces t → Source.Spread d'.pieces t' → Node.ofText t = ok n →
        Node.ofText t' = ok n := by
  intro hall
  have hunit : HexUnit (((13 * 16 + 8) * 16 + 0) * 16 + 0) ['d', '8', '0', '0'] :=
    .digits rfl rfl rfl rfl
  let half : StringLiteral := ⟨_, .unit hunit .nil⟩
  have hhalf : half.scan = ⟨error .malformed, none⟩ := by
    have hread := readText_of_high hunit (by decide) (by decide)
    show Scan.mk (Json.readText (encode _ ++ [] ++ [quoteByte])) none = _
    rw [List.append_nil, hread]
  have hunmodeled : Unmodeled "TranslationUnitDecl" half := by
    intro name _ hdenotes
    rw [StringLiteral.scan_of_denotes hdenotes] at hhalf
    cases hhalf
  let d : Source := .object [(Source.quoted "kind", .text (Source.quoted "TranslationUnitDecl"))]
  let d' : Source := .object [(Source.quoted "kind",
    .text (Source.quoted "TranslationUnitDecl")), (half, .null)]
  have hextended : NodeExtended (fun _ => True) d d' :=
    @NodeExtended.members _ [] [] [(half, .null)] (Source.quoted "kind")
      (Source.quoted "TranslationUnitDecl") _ (fun _ hm => absurd hm List.not_mem_nil)
      (Source.denotes_quoted _) (Source.denotes_quoted _)
      (.insert .null hunmodeled trivial .nil)
  have hread : Node.ofText d.pieces.flatten = ok (.mk 0 .translationUnit []) := by
    unfold Node.ofText
    rw [Source.ofText_pieces (Source.Spread.flatten _)]
    simp only [d, Source.value, Source.memberValues,
      StringLiteral.scan_of_denotes (Source.denotes_quoted _)]
    rfl
  have hrefused : Node.ofText d'.pieces.flatten = error .malformed := by
    unfold Node.ofText
    rw [Source.ofText_pieces (Source.Spread.flatten _)]
    simp only [d', Source.value, Source.memberValues, hhalf,
      StringLiteral.scan_of_denotes (Source.denotes_quoted _)]
    rfl
  have haccepted := hall d d' _ _ _ hextended (Source.Spread.flatten _)
    (Source.Spread.flatten _) hread
  rw [hrefused] at haccepted
  cases haccepted

end Dump
end HeaderBinding
