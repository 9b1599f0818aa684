import Mathlib
import HeaderBinding.Proofs.BindingModule.Legible
import HeaderBinding.Proofs.Text.Mark

/-!
# Modules tell their declarations

A line that declares something legible is read in one way only, from its keyword over its
name to its types. The lines of a module in turn tell the declarations, since a line of a
member belongs to the last record or enumeration before it.
-/

namespace HeaderBinding

open Text

namespace BindingModule

/-!
# Keywords and names
-/

theorem LineKind.keyword_append_inj {k k' : LineKind} {s s' : String}
    (h : k.keyword ++ s = k'.keyword ++ s') : k = k' ∧ s = s' := by
  have hstart : ∀ k k' : LineKind, k.keyword.toList <+: k'.keyword.toList → k = k' := by
    intro k k'
    cases k <;> cases k' <;> decide
  have hlist := congrArg String.toList h
  rw [String.toList_append, String.toList_append] at hlist
  have hkind : k = k' := by
    rcases List.prefix_or_prefix_of_prefix (List.prefix_append _ _)
      (hlist ▸ List.prefix_append k'.keyword.toList s'.toList) with hk | hk
    · exact hstart k k' hk
    · exact (hstart k' k hk).symm
  subst hkind
  exact ⟨rfl, (String.append_right_inj _).mp h⟩

/-- A text that starts with a character of no name. -/
def StartsOutside (s : String) : Prop :=
  ∃ c back, s.toList = c :: back ∧ isNameChar c = false

theorem StartsOutside.append {s : String} (h : StartsOutside s) (t : String) :
    StartsOutside (s ++ t) := by
  rcases h with ⟨c, back, hs, hc⟩
  refine ⟨c, back ++ t.toList, ?_, hc⟩
  rw [String.toList_append, hs, List.cons_append]

theorem name_append_inj {m n s t : String} (hm : IsPlainName m) (hn : IsPlainName n)
    (hs : StartsOutside s) (ht : StartsOutside t) (h : m ++ s = n ++ t) : m = n ∧ s = t := by
  rcases hs with ⟨c, back, hs, hc⟩
  rcases ht with ⟨c', back', ht, hc'⟩
  have hlist := congrArg String.toList h
  rw [String.toList_append, String.toList_append, hs, ht] at hlist
  rcases append_cons_inj_of_forall hm.chars hn.chars hc hc' hlist with ⟨hname, htail⟩
  rw [← hs, ← ht] at htail
  exact ⟨String.toList_inj.mp hname, String.toList_inj.mp htail⟩

theorem Line.startsOutside_tail (l : Line) : StartsOutside l.tail := by
  have hspace : ∀ s, StartsOutside (" layout " ++ s) := fun s =>
    StartsOutside.append ⟨' ', "layout ".toList, rfl, by decide⟩ s
  cases l with
  | record _ _ | enumeration _ _ =>
      exact (hspace _).append _
  | field _ | global _ =>
      exact StartsOutside.append ⟨':', [' '], rfl, by decide⟩ _
  | enumerator _ | typedef _ =>
      exact StartsOutside.append ⟨' ', "= ".toList, rfl, by decide⟩ _
  | function _ =>
      apply StartsOutside.append
      apply StartsOutside.append
      exact StartsOutside.append ⟨'(', [], rfl, by decide⟩ _

/-!
# Parameters
-/

theorem toList_parameter (p : TypedName) :
    (parameter p).toList = p.name.toList ++ ':' :: ' ' :: p.type.token.toList := by
  unfold parameter
  rw [String.toList_append, String.toList_append, List.append_assoc]
  rfl

/-- Parameters, each with a comma before it. -/
def furtherParameters (ps : List TypedName) : List Char :=
  ps.flatMap fun p => ',' :: ' ' :: (parameter p).toList

theorem furtherParameters_cons (p : TypedName) (ps : List TypedName) :
    furtherParameters (p :: ps) = (',' :: ' ' :: p.name.toList) ++
      ':' :: ' ' :: (p.type.token.toList ++ furtherParameters ps) := by
  unfold furtherParameters
  rw [List.flatMap_cons, toList_parameter]
  simp

theorem furtherParameters_eq (p : TypedName) (ps : List TypedName) :
    furtherParameters (p :: ps) =
      ',' :: ' ' :: (", ".intercalate ((p :: ps).map parameter)).toList := by
  induction ps generalizing p with
  | nil =>
      rw [List.map_singleton, String.intercalate_singleton]
      exact List.append_nil _
  | cons q ps ih =>
      have hcons : furtherParameters (p :: q :: ps) =
          (',' :: ' ' :: (parameter p).toList) ++ furtherParameters (q :: ps) :=
        List.flatMap_cons
      have hmap : (p :: q :: ps).map parameter = parameter p :: parameter q :: ps.map parameter :=
        rfl
      rw [hcons, ih, hmap, String.intercalate_cons_cons, String.toList_append,
        String.toList_append, List.append_assoc]
      rfl

/-- A name with a type, both legible. -/
structure IsLegibleName (p : TypedName) : Prop where
  name : IsPlainName p.name
  type : p.type.IsLegible

theorem typedName_inj {p q : TypedName} (hp : p.type.IsLegible) (hq : q.type.IsLegible)
    (hname : p.name = q.name) (htoken : p.type.token = q.type.token) : p = q := by
  have htype := ForeignType.token_injective hp.foreign hq.foreign htoken
  cases p
  cases q
  cases hname
  cases htype
  rfl

theorem IsLegibleName.colon_not_mem {p : TypedName} (h : IsLegibleName p) {s : List Char}
    (hs : ':' ∉ s) : ':' ∉ s ++ (',' :: ' ' :: p.name.toList) := by
  have hname := h.name.not_mem (c := ':') (by decide)
  simp [hs, hname]

theorem furtherParameters_inj {ps qs : List TypedName} {s t : List Char}
    (hps : ∀ p ∈ ps, IsLegibleName p) (hqs : ∀ q ∈ qs, IsLegibleName q)
    (hs : ':' ∉ s) (ht : ':' ∉ t)
    (h : s ++ furtherParameters ps = t ++ furtherParameters qs) : s = t ∧ ps = qs := by
  have hnil : furtherParameters [] = [] := rfl
  induction ps generalizing qs s t with
  | nil =>
      cases qs with
      | nil =>
          exact ⟨List.append_cancel_right h, rfl⟩
      | cons q qs =>
          rw [hnil, List.append_nil, furtherParameters_cons] at h
          exact absurd (by simp [h]) hs
  | cons p ps ih =>
      cases qs with
      | nil =>
          rw [hnil, List.append_nil, furtherParameters_cons] at h
          exact absurd (by simp [← h]) ht
      | cons q qs =>
          rcases List.forall_mem_cons.mp hps with ⟨hp, hps⟩
          rcases List.forall_mem_cons.mp hqs with ⟨hq, hqs⟩
          rw [furtherParameters_cons, furtherParameters_cons, ← List.append_assoc,
            ← List.append_assoc] at h
          -- The first colon is that of the first parameter, and the last space before it
          -- that in front of the name.
          rcases firstMark_inj (hp.colon_not_mem hs) (hq.colon_not_mem ht) h with
            ⟨hnames, hrest⟩
          have hmark : (s ++ [',']) ++ ' ' :: p.name.toList =
              (t ++ [',']) ++ ' ' :: q.name.toList := by
            simpa using hnames
          rcases lastMark_inj (hp.name.not_mem (by decide)) (hq.name.not_mem (by decide)) hmark
            with ⟨hst, hname⟩
          rcases ih hps hqs (hp.type.not_mem_token (by decide))
            (hq.type.not_mem_token (by decide)) (List.cons.inj hrest).2 with ⟨htoken, rfl⟩
          have hpq := typedName_inj hp.type hq.type (String.toList_inj.mp hname)
            (String.toList_inj.mp htoken)
          exact ⟨List.append_cancel_right hst, by rw [hpq]⟩

theorem parameters_inj {ps qs : List TypedName} (hps : ∀ p ∈ ps, IsLegibleName p)
    (hqs : ∀ q ∈ qs, IsLegibleName q)
    (h : ", ".intercalate (ps.map parameter) = ", ".intercalate (qs.map parameter)) :
    ps = qs := by
  have hcolon : ∀ p ps, ':' ∈ (", ".intercalate ((p :: ps).map parameter)).toList := by
    intro p ps
    have hmem : ':' ∈ furtherParameters (p :: ps) := by
      rw [furtherParameters_cons]
      simp
    rw [furtherParameters_eq] at hmem
    simpa using hmem
  cases ps with
  | nil =>
      cases qs with
      | nil =>
          rfl
      | cons q qs =>
          have hmem := hcolon q qs
          rw [← h] at hmem
          cases hmem
  | cons p ps =>
      cases qs with
      | nil =>
          have hmem := hcolon p ps
          rw [h] at hmem
          cases hmem
      | cons q qs =>
          apply And.right
          apply furtherParameters_inj hps hqs List.not_mem_nil List.not_mem_nil
          rw [furtherParameters_eq, furtherParameters_eq, h]

/-!
# Lines
-/

theorem toList_tail_function (f : Function) :
    (Line.function f).tail.toList =
      '(' :: ((", ".intercalate (f.parameters.map parameter)).toList ++ [')', ' ']) ++
        '-' :: '>' :: ' ' :: f.returns.token.toList := by
  have harrow : ") -> ".toList = [')', ' ', '-', '>', ' '] := rfl
  unfold Line.tail
  rw [String.toList_append, String.toList_append, String.toList_append, harrow]
  simp

theorem Line.IsLegible.parameters {f : Function} (h : (Line.function f).IsLegible) :
    ∀ p ∈ f.parameters, IsLegibleName p := by
  intro p hp
  constructor
  · exact h.names p.name (List.mem_cons_of_mem _ (List.mem_map_of_mem hp))
  · exact h.types p.type (List.mem_append_left _ (List.mem_map_of_mem hp))

/-- No parameter has a dash, so the first one is that of the arrow. -/
theorem dash_not_mem_parameters {ps : List TypedName} (h : ∀ p ∈ ps, IsLegibleName p) :
    '-' ∉ '(' :: ((", ".intercalate (ps.map parameter)).toList ++ [')', ' ']) := by
  have hparameters : '-' ∉ (", ".intercalate (ps.map parameter)).toList := by
    apply not_mem_intercalate (by decide)
    intro part hpart
    rcases List.mem_map.mp hpart with ⟨p, hp, rfl⟩
    have hname := (h p hp).name.not_mem (c := '-') (by decide)
    have htype : '-' ∉ p.type.token.toList := (h p hp).type.not_mem_token (by decide)
    rw [toList_parameter]
    simp [hname, htype]
  rw [List.mem_cons, List.mem_append, not_or, not_or]
  exact ⟨by decide, hparameters, by decide⟩

theorem function_inj {f g : Function} (hf : (Line.function f).IsLegible)
    (hg : (Line.function g).IsLegible) (hname : f.name = g.name)
    (h : (Line.function f).tail = (Line.function g).tail) : f = g := by
  have hlist := congrArg String.toList h
  rw [toList_tail_function, toList_tail_function] at hlist
  rcases firstMark_inj (dash_not_mem_parameters hf.parameters)
    (dash_not_mem_parameters hg.parameters) hlist with ⟨hfront, hback⟩
  have hparameters : f.parameters = g.parameters := by
    apply parameters_inj hf.parameters hg.parameters
    exact String.toList_inj.mp (List.append_cancel_right (List.cons.inj hfront).2)
  have htoken : f.returns.token = g.returns.token :=
    String.toList_inj.mp (List.cons.inj (List.cons.inj hback).2).2
  have hlegible : ∀ {f : Function}, (Line.function f).IsLegible → f.returns.IsForeign :=
    fun hf => (hf.types _ (List.mem_append_right _ List.mem_cons_self)).foreign
  have hreturns := ForeignType.token_injective (hlegible hf) (hlegible hg) htoken
  have hfixed : f.variadic = g.variadic := (hf.fixed f rfl).trans (hg.fixed g rfl).symm
  cases f
  cases g
  cases hname
  cases hparameters
  cases hreturns
  cases hfixed
  rfl

theorem record_inj {name name' : String} {isUnion isUnion' : Bool} (hname : name = name')
    (h : (Line.record name isUnion).tail = (Line.record name' isUnion').tail) :
    Line.record name isUnion = .record name' isUnion' := by
  have hlayouts : ∀ u v : Bool,
      (if u then "c union" else "c") = (if v then "c union" else "c") → u = v := by
    decide
  have hunion : isUnion = isUnion' :=
    hlayouts _ _ ((String.append_right_inj _).mp ((String.append_left_inj _).mp h))
  rw [hname, hunion]

theorem enumeration_inj {name name' : String} {t u : ForeignType} (ht : t.IsForeign)
    (hu : u.IsForeign) (hname : name = name')
    (h : (Line.enumeration name t).tail = (Line.enumeration name' u).tail) :
    Line.enumeration name t = .enumeration name' u := by
  have htoken : t.token = u.token :=
    (String.append_right_inj _).mp ((String.append_left_inj _).mp h)
  rw [hname, ForeignType.token_injective ht hu htoken]

theorem enumerator_inj {v w : Enumerator} (hname : v.name = w.name)
    (h : (Line.enumerator v).tail = (Line.enumerator w).tail) : v = w := by
  have hvalue : v.value = w.value := Int.repr_injective ((String.append_right_inj _).mp h)
  cases v
  cases w
  cases hname
  cases hvalue
  rfl

theorem Line.text_inj {l m : Line} (hl : l.IsLegible) (hm : m.IsLegible)
    (h : l.text = m.text) : l = m := by
  have hname : ∀ {l : Line}, l.IsLegible → IsPlainName l.name := fun hl =>
    hl.names _ List.mem_cons_self
  rcases LineKind.keyword_append_inj h with ⟨hkind, hrest⟩
  rcases name_append_inj (hname hl) (hname hm) l.startsOutside_tail m.startsOutside_tail hrest
    with ⟨hsame, htail⟩
  -- Lines of one kind are equal by their names and what the tails tell of the types.
  cases l with
  | record _ _ =>
      cases m with
      | record _ _ =>
          exact record_inj hsame htail
      | _ =>
          cases hkind
  | field f =>
      cases m with
      | field g =>
          rw [typedName_inj (hl.types _ List.mem_cons_self) (hm.types _ List.mem_cons_self)
            hsame ((String.append_right_inj _).mp htail)]
      | _ =>
          cases hkind
  | enumeration _ _ =>
      cases m with
      | enumeration _ _ =>
          exact enumeration_inj (hl.types _ List.mem_cons_self).foreign
            (hm.types _ List.mem_cons_self).foreign hsame htail
      | _ =>
          cases hkind
  | enumerator v =>
      cases m with
      | enumerator w =>
          rw [enumerator_inj hsame htail]
      | _ =>
          cases hkind
  | typedef t =>
      cases m with
      | typedef u =>
          rw [typedName_inj (hl.types _ List.mem_cons_self) (hm.types _ List.mem_cons_self)
            hsame ((String.append_right_inj _).mp htail)]
      | _ =>
          cases hkind
  | global g =>
      cases m with
      | global u =>
          rw [typedName_inj (hl.types _ List.mem_cons_self) (hm.types _ List.mem_cons_self)
            hsame ((String.append_right_inj _).mp htail)]
      | _ =>
          cases hkind
  | function f =>
      cases m with
      | function g =>
          rw [function_inj hl hm hsame htail]
      | _ =>
          cases hkind

/-!
# Groups of lines
-/

/-- Groups of members, each behind its head. -/
def grouped {α β : Type} (groups : List (α × List β)) : List (α ⊕ β) :=
  groups.flatMap fun g => .inl g.1 :: g.2.map .inr

theorem members_inj {α β : Type} {members members' : List β} {groups groups' : List (α × List β)}
    (h : members.map Sum.inr ++ grouped groups = members'.map Sum.inr ++ grouped groups') :
    members = members' ∧ grouped groups = grouped groups' := by
  have hhead : ∀ {b : β} {rest : List (α ⊕ β)} {gs : List (α × List β)},
      .inr b :: rest ≠ grouped gs := by
    intro b rest gs hgs
    cases gs with
    | nil =>
        cases hgs
    | cons g gs =>
        cases hgs
  induction members generalizing members' with
  | nil =>
      cases members' with
      | nil =>
          exact ⟨rfl, h⟩
      | cons b members' =>
          exact absurd h.symm hhead
  | cons b members ih =>
      cases members' with
      | nil =>
          exact absurd h hhead
      | cons c members' =>
          rcases List.cons.inj h with ⟨hb, hrest⟩
          rcases ih hrest with ⟨rfl, hgroups⟩
          cases hb
          exact ⟨rfl, hgroups⟩

theorem grouped_injective {α β : Type} :
    Function.Injective (grouped : List (α × List β) → List (α ⊕ β)) := by
  intro groups groups' h
  induction groups generalizing groups' with
  | nil =>
      cases groups' with
      | nil =>
          rfl
      | cons g groups' =>
          cases h
  | cons g groups ih =>
      cases groups' with
      | nil =>
          cases h
      | cons g' groups' =>
          rcases List.cons.inj h with ⟨hhead, hrest⟩
          rcases members_inj hrest with ⟨hmembers, hgroups⟩
          rw [ih hgroups, Prod.ext (Sum.inl.inj hhead) hmembers]

namespace Line

def recordPart? : Line → Option ((String × Bool) ⊕ TypedName)
  | record name isUnion => some (.inl (name, isUnion))
  | field f => some (.inr f)
  | _ => none

def enumerationPart? : Line → Option ((String × ForeignType) ⊕ Enumerator)
  | enumeration name underlying => some (.inl (name, underlying))
  | enumerator v => some (.inr v)
  | _ => none

def typedef? : Line → Option TypedName
  | typedef t => some t
  | _ => none

def global? : Line → Option TypedName
  | global g => some g
  | _ => none

def function? : Line → Option Function
  | function f => some f
  | _ => none

end Line

/-!
# Declarations
-/

end BindingModule

namespace Declarations

open BindingModule

theorem filterMap_lines {α : Type} (part? : Line → Option α) (d : Declarations) :
    d.lines.filterMap part? =
      (d.structs ++ d.unions).flatMap (fun r => (Declaration.record r).lines.filterMap part?) ++
      d.enums.flatMap (fun e => (Declaration.enumeration e).lines.filterMap part?) ++
      d.typedefs.filterMap (fun t => part? (.typedef t)) ++
      d.globals.filterMap (fun g => part? (.global g)) ++
      d.functions.filterMap (fun f => part? (.function f)) := by
  have hone : ∀ {β : Type} (line : β → Line) (xs : List β),
      xs.flatMap (fun x => [line x].filterMap part?) = xs.filterMap fun x => part? (line x) := by
    intro β line xs
    rw [← List.filterMap_flatMap, ← List.map_eq_flatMap, List.filterMap_map]
    rfl
  unfold lines entries
  rw [List.filterMap_flatMap, List.flatMap_append, List.flatMap_append, List.flatMap_append,
    List.flatMap_append, List.flatMap_map, List.flatMap_map, List.flatMap_map, List.flatMap_map,
    List.flatMap_map, ← hone Line.typedef, ← hone Line.global, ← hone Line.function]
  rfl

theorem flatMap_const_nil {α β : Type} (xs : List α) :
    xs.flatMap (fun _ => ([] : List β)) = [] :=
  List.flatMap_eq_nil_iff.mpr fun _ _ => rfl

theorem filterMap_recordPart? (d : Declarations) :
    d.lines.filterMap Line.recordPart? =
      grouped ((d.structs ++ d.unions).map fun r => ((r.name, r.isUnion), r.fields)) := by
  rw [filterMap_lines]
  simp [Line.recordPart?, Declaration.lines, grouped, List.filterMap_map, List.flatMap_map,
    Function.comp_def]

theorem filterMap_enumerationPart? (d : Declarations) :
    d.lines.filterMap Line.enumerationPart? =
      grouped (d.enums.map fun e => ((e.name, e.underlying), e.values)) := by
  rw [filterMap_lines]
  simp [Line.enumerationPart?, Declaration.lines, List.filterMap_cons, List.filterMap_map,
    flatMap_const_nil, grouped, List.flatMap_map, Function.comp_def]

theorem filterMap_typedef? (d : Declarations) : d.lines.filterMap Line.typedef? = d.typedefs := by
  rw [filterMap_lines]
  simp [Line.typedef?, Declaration.lines, List.filterMap_cons, List.filterMap_map,
    flatMap_const_nil, Function.comp_def]

theorem filterMap_global? (d : Declarations) : d.lines.filterMap Line.global? = d.globals := by
  rw [filterMap_lines]
  simp [Line.global?, Declaration.lines, List.filterMap_cons, List.filterMap_map,
    flatMap_const_nil, Function.comp_def]

theorem filterMap_function? (d : Declarations) :
    d.lines.filterMap Line.function? = d.functions := by
  rw [filterMap_lines]
  simp [Line.function?, Declaration.lines, List.filterMap_cons, List.filterMap_map,
    flatMap_const_nil, Function.comp_def]

/-- Declarations that a module can tell apart: plain names, legible types, records in the
category of their kind and no variadic function. -/
structure IsLegible (d : Declarations) : Prop where
  names : ∀ name ∈ d.names, IsPlainName name
  types : ∀ t ∈ d.types, t.IsLegible
  structs : ∀ r ∈ d.structs, r.isUnion = false
  unions : ∀ r ∈ d.unions, r.isUnion = true
  functions : ∀ f ∈ d.functions, f.variadic = false

instance : DecidablePred IsLegible := fun d =>
  decidable_of_iff
    ((∀ name ∈ d.names, IsPlainName name) ∧ (∀ t ∈ d.types, t.IsLegible) ∧
      (∀ r ∈ d.structs, r.isUnion = false) ∧ (∀ r ∈ d.unions, r.isUnion = true) ∧
      ∀ f ∈ d.functions, f.variadic = false)
    ⟨fun h => ⟨h.1, h.2.1, h.2.2.1, h.2.2.2.1, h.2.2.2.2⟩,
      fun h => ⟨h.names, h.types, h.structs, h.unions, h.functions⟩⟩

theorem IsLegible.line {d : Declarations} (h : d.IsLegible) {l : Line} (hl : l ∈ d.lines) :
    l.IsLegible where
  names _ hname := h.names _ (mem_names_of_mem_lines hl hname)
  types _ ht := h.types _ (mem_types_of_mem_lines hl ht)
  fixed f hf := by
    apply h.functions f
    rw [← filterMap_function?]
    exact List.mem_filterMap.mpr ⟨l, hl, by rw [hf]; rfl⟩

theorem IsLegible.filter_records {d : Declarations} (h : d.IsLegible) :
    (d.structs ++ d.unions).filter (fun r => !r.isUnion) = d.structs ∧
      (d.structs ++ d.unions).filter (fun r => r.isUnion) = d.unions := by
  constructor
  · rw [List.filter_append, List.filter_eq_self.mpr (by simpa using h.structs),
      List.filter_eq_nil_iff.mpr (by simpa using h.unions), List.append_nil]
  · rw [List.filter_append, List.filter_eq_nil_iff.mpr (by simpa using h.structs),
      List.filter_eq_self.mpr (by simpa using h.unions), List.nil_append]

theorem eq_of_lines {d e : Declarations} (hd : d.IsLegible) (he : e.IsLegible)
    (h : d.lines = e.lines) : d = e := by
  have hrecord : Function.Injective fun r : Record => ((r.name, r.isUnion), r.fields) := by
    rintro ⟨name, fields, isUnion⟩ ⟨name', fields', isUnion'⟩ heq
    cases heq
    rfl
  have henumeration :
      Function.Injective fun e : Enumeration => ((e.name, e.underlying), e.values) := by
    rintro ⟨name, underlying, values⟩ ⟨name', underlying', values'⟩ heq
    cases heq
    rfl
  have hrecords : d.structs ++ d.unions = e.structs ++ e.unions := by
    apply List.map_injective_iff.mpr hrecord
    apply grouped_injective
    rw [← filterMap_recordPart?, ← filterMap_recordPart?, h]
  have henums : d.enums = e.enums := by
    apply List.map_injective_iff.mpr henumeration
    apply grouped_injective
    rw [← filterMap_enumerationPart?, ← filterMap_enumerationPart?, h]
  have hstructs : d.structs = e.structs := by
    rw [← hd.filter_records.1, hrecords, he.filter_records.1]
  have hunions : d.unions = e.unions := by
    rw [← hd.filter_records.2, hrecords, he.filter_records.2]
  have htypedefs : d.typedefs = e.typedefs := by
    rw [← filterMap_typedef?, h, filterMap_typedef?]
  have hglobals : d.globals = e.globals := by
    rw [← filterMap_global?, h, filterMap_global?]
  have hfunctions : d.functions = e.functions := by
    rw [← filterMap_function?, h, filterMap_function?]
  cases d
  cases e
  cases hfunctions
  cases hstructs
  cases hunions
  cases henums
  cases htypedefs
  cases hglobals
  rfl

end Declarations

/-!
# Whole texts
-/

namespace BindingModule

theorem filter_rdropWhile {α : Type} (p : α → Bool) (xs : List α) :
    (xs.rdropWhile p).filter (fun x => !p x) = xs.filter fun x => !p x := by
  induction xs using List.reverseRecOn with
  | nil =>
      rfl
  | append_singleton xs x ih =>
      rw [List.rdropWhile_concat]
      split
      next hx =>
        simp [ih, hx]
      next =>
        rfl

/-- The lines of a module that are not empty are those that declare something. -/
theorem filter_body (d : Declarations) :
    (body d).filter (fun l => !isEmptyLine l) = d.lines.map Line.text := by
  have hshown : ∀ x : Declaration,
      x.shownLines.filter (fun l => !isEmptyLine l) = x.lines.map Line.text := by
    intro x
    have hlines : (x.lines.map Line.text).filter (fun l => !isEmptyLine l) =
        x.lines.map Line.text := by
      apply List.filter_eq_self.mpr
      intro l hl
      rcases List.mem_map.mp hl with ⟨line, _, rfl⟩
      simp [Line.isEmptyLine_text]
    have hempty : (if x.isBlock then [""] else []).filter (fun l => !isEmptyLine l) = [] := by
      cases x.isBlock <;> rfl
    rw [Declaration.shownLines, List.filter_append, hlines, hempty, List.append_nil]
  unfold body
  rw [filter_rdropWhile, declarationLines_eq_flatMap, List.filter_flatMap, Declarations.lines,
    List.map_flatMap]
  simp only [hshown]

/-- What a module shows of legible declarations are their lines and empty ones. -/
theorem map_text_of_renderText {h : ModuleHeader} {d e : Declarations} (hd : d.IsLegible)
    (he : e.IsLegible) (hsame : renderText h d = renderText h e) :
    d.lines.map Line.text = e.lines.map Line.text := by
  let shown (l : String) : List Char := trimEnd l.toList
  have hunbroken : ∀ {d : Declarations}, d.IsLegible → ∀ l ∈ body d, Unbroken l := by
    intro d hd
    apply unbroken_body
    · intro name hname
      exact (hd.names name hname).not_mem (by decide)
    · intro t ht
      exact (hd.types t ht).not_mem_token (by decide)
  have hlines : ∀ {d : Declarations}, d.IsLegible →
      ((body d).map shown).filter (fun s => !s.isEmpty) =
        (d.lines.map Line.text).map String.toList := by
    intro d hd
    have hfilter := congrArg (List.map shown) (filter_body d)
    rw [List.filter_map]
    refine hfilter.trans ?_
    rw [List.map_map, List.map_map]
    apply List.map_congr_left
    intro l hl
    exact (hd.line hl).endsFirmly.trimEnd
  have hbodies : (body d).map shown = (body e).map shown := by
    have htext := congrArg String.toList hsame
    rw [toList_renderText, toList_renderText, List.append_cons, List.append_cons _ _ (body e),
      List.flatMap_append, List.flatMap_append, List.flatMap_append, List.flatMap_append,
      List.append_cancel_left_eq] at htext
    have hsplit := congrArg (List.splitOn '\n') htext
    rw [splitOn_flatMap_shownLine (hunbroken hd), splitOn_flatMap_shownLine (hunbroken he)]
      at hsplit
    exact List.append_cancel_right hsplit
  apply List.map_injective_iff.mpr fun _ _ => String.toList_inj.mp
  rw [← hlines hd, ← hlines he, hbodies]

theorem lines_eq_of_map_text {ls ms : List Line} (hls : ∀ l ∈ ls, l.IsLegible)
    (hms : ∀ m ∈ ms, m.IsLegible) (h : ls.map Line.text = ms.map Line.text) : ls = ms := by
  induction ls generalizing ms with
  | nil =>
      exact (List.map_eq_nil_iff.mp h.symm).symm
  | cons l ls ih =>
      cases ms with
      | nil =>
          cases h
      | cons m ms =>
          rcases List.forall_mem_cons.mp hls with ⟨hl, hls⟩
          rcases List.forall_mem_cons.mp hms with ⟨hm, hms⟩
          rcases List.cons.inj h with ⟨htext, hrest⟩
          rw [Line.text_inj hl hm htext, ih hls hms hrest]

/-- Legible declarations that render to the same text behind the same first lines are the
same. -/
theorem renderText_injective {h : ModuleHeader} {d e : Declarations} (hd : d.IsLegible)
    (he : e.IsLegible) (hsame : renderText h d = renderText h e) : d = e := by
  apply Declarations.eq_of_lines hd he
  apply lines_eq_of_map_text (fun _ => hd.line) (fun _ => he.line)
  exact map_text_of_renderText hd he hsame

/-- A union and a function with a pointer to a function among its parameters, in the order
of the header and by category. -/
theorem renderText_injective_ofList :
    let h : ModuleHeader := ⟨"m", [], none⟩
    let walk : Function :=
      ⟨"walk", .void, [⟨"visit", .named "int (*)(int, char)"⟩, ⟨"n", .i32⟩], false⟩
    let value : Record := ⟨"value", [⟨"name", .constCString⟩], true⟩
    let d : Declarations := .ofList [.function walk, .record value]
    let e : Declarations := ⟨[walk], [], [value], [], [], []⟩
    d.IsLegible ∧ e.IsLegible ∧ renderText h d = renderText h e ∧ d = e := by
  intro h walk value d e
  have hd : d.IsLegible := by
    decide +kernel
  have he : e.IsLegible := by
    decide +kernel
  have hsame : renderText h d = renderText h e := by
    decide +kernel
  exact ⟨hd, he, hsame, renderText_injective hd he hsame⟩

end BindingModule
end HeaderBinding
