import HeaderBinding.Proofs.Extraction.Enumerators

/-!
# Enumerations that are declared again

An enumeration is read off the last declaration of its name, whether that has enumerators or
not. So the enumerators of a definition are kept if no declaration follows it, and a bare
declaration behind it takes its place.
-/

namespace HeaderBinding

open Dump Text

def Dump.Entity.isEnumeration : Entity → Bool
  | .enumeration _ _ _ _ => true
  | _ => false

namespace Extraction

def DeclaresEnumeration (n : Node) (name : String) : Prop :=
  n.entity.isEnumeration = true ∧ n.entity.name? = some name

instance (n : Node) (name : String) : Decidable (DeclaresEnumeration n name) :=
  inferInstanceAs (Decidable (_ ∧ _))

/-- The enumerators below a node. -/
def constants (n : Node) : List Node :=
  n.children.filter (·.entity.isEnumerator)

theorem isSome_enumerationOf? {n : Node} {name : String} (hname : name ≠ "")
    (h : DeclaresEnumeration n name) : (enumerationOf? n).isSome := by
  rcases h with ⟨hkind, hnamed⟩
  unfold enumerationOf?
  cases he : n.entity with
  | enumeration extent declared fixed implicit =>
      rw [he] at hnamed
      have hdeclared : declared = some name := hnamed
      simp [hdeclared, hname]
  | _ =>
      rw [he] at hkind
      cases hkind

theorem declares_of_enumerationOf? {n : Node} {e : Enumeration} (h : enumerationOf? n = some e) :
    DeclaresEnumeration n e.name := by
  unfold enumerationOf? at h
  split at h
  next extent name fixed implicit he =>
    split at h
    · rw [← Option.some.inj h]
      unfold DeclaresEnumeration
      rw [he]
      exact ⟨rfl, rfl⟩
    · cases h
  next =>
    cases h

theorem numbered_of_enumerationOf? {n : Node} {e : Enumeration}
    (h : enumerationOf? n = some e) : Numbered (constants n) e.values := by
  rw [← (bind_category? n).2.2.2.1] at h
  rcases Option.bind_eq_some_iff.mp h with ⟨d, hd, hde⟩
  rw [Declaration.eq_enumeration_of_enumeration? hde] at hd
  rw [values_of_declaration? hd]
  exact numbered_enumerators n.children

theorem Numbered.eq_nil {values : List Enumerator} (h : Numbered [] values) : values = [] :=
  List.map_eq_nil_iff.mp h.names

/-- Where one element stands no later than another one of the same list, that is the element
itself or comes after it. -/
theorem eq_or_mem_of_append_cons {α : Type} {x y : α} {front back before behind : List α}
    (h : front ++ x :: back = before ++ y :: behind) (hx : x ∉ behind) :
    y = x ∧ behind = back ∨ y ∈ back := by
  rcases List.append_eq_append_iff.mp h with ⟨between, hbefore, hback⟩ | ⟨between, hfront, hbehind⟩
  · cases between with
    | nil =>
        have hsame := List.cons.inj hback
        exact Or.inl ⟨hsame.1.symm, hsame.2.symm⟩
    | cons z between =>
        have hsplit := List.cons.inj hback
        rw [hsplit.2]
        exact Or.inr (List.mem_append_right between List.mem_cons_self)
  · cases between with
    | nil =>
        have hsame := List.cons.inj hbehind
        exact Or.inl hsame
    | cons z between =>
        have hsplit := List.cons.inj hbehind
        rw [hsplit.2] at hx
        exact absurd (List.mem_append_right between List.mem_cons_self) hx

/-- The entry of a name is read off a given declaration of it or off a later one, and off the
given one only if there is no later one. -/
theorem last_of_content {nodes front back : List Node} {n : Node} {name : String}
    {enums : List Enumeration} (h : Content Enumeration.name enumerationOf? nodes enums)
    (hname : name ≠ "") (hnodes : nodes = front ++ n :: back) (hn : DeclaresEnumeration n name) :
    ∃ e ∈ enums, e.name = name ∧
      (enumerationOf? n = some e ∧ (∀ m ∈ back, ¬DeclaresEnumeration m name) ∨
        ∃ m ∈ back, DeclaresEnumeration m name ∧ enumerationOf? m = some e) := by
  have hsome := isSome_enumerationOf? hname hn
  have hmem : n ∈ nodes := by
    rw [hnodes]
    exact List.mem_append_right front List.mem_cons_self
  rcases (h.names name).mpr ⟨n, hmem, hsome, hn.2⟩ with ⟨e, he, hename⟩
  rcases h.last e he with ⟨before, m, behind, hsplit, hof, hlast⟩
  have hbehind : ∀ k ∈ behind, ¬DeclaresEnumeration k name := by
    intro k hk hdeclares
    have hknamed := hdeclares.2
    rw [← hename] at hknamed
    exact hlast k hk (isSome_enumerationOf? hname hdeclares) hknamed
  have hnot : n ∉ behind := fun hin => hbehind n hin hn
  refine ⟨e, he, hename, ?_⟩
  rcases eq_or_mem_of_append_cons (hnodes.symm.trans hsplit) hnot with ⟨hsame, hback⟩ | hlater
  · left
    rw [hsame] at hof
    rw [← hback]
    exact ⟨hof, hbehind⟩
  · right
    have hdeclares := declares_of_enumerationOf? hof
    rw [hename] at hdeclares
    exact ⟨m, hlater, hdeclares, hof⟩

end Extraction

namespace HeaderScope

open Extraction

/-- Where the declarations of an enumeration behind one of them are bare, the enumeration has
the enumerators of that one if there are none such, and no enumerators otherwise. -/
theorem values_of_redeclared {scope : HeaderScope} {root : Node} {d : Declarations}
    {front back : List Node} {n : Node} {name : String} (h : scope.extract root = .ok d)
    (hname : name ≠ "")
    (hnodes : (root.walk.filter fun n => !n.entity.isImplicit && scope.isLocal n) =
      front ++ n :: back)
    (hn : DeclaresEnumeration n name)
    (hbare : ∀ m ∈ back, DeclaresEnumeration m name → constants m = []) :
    ∃ e ∈ d.enums, e.name = name ∧ (∀ x ∈ d.enums, x.name = name → x = e) ∧
      ((∀ m ∈ back, ¬DeclaresEnumeration m name) → Numbered (constants n) e.values) ∧
      ((∃ m ∈ back, DeclaresEnumeration m name) → e.values = []) := by
  have hcontent : Content Enumeration.name enumerationOf?
      (root.walk.filter fun n => !n.entity.isImplicit && scope.isLocal n) d.enums := by
    rw [eq_ofList_of_extract h]
    exact content_category _ (fun n => (bind_category? n).2.2.2.1)
      fun _ _ => Declaration.name_of_enumeration?
  rcases last_of_content hcontent hname hnodes hn with ⟨e, he, hename, hlast⟩
  have hunique : ∀ x ∈ d.enums, x.name = name → x = e := by
    intro x hx hxname
    exact eq_of_name_eq hcontent.ascending hx he (hxname.trans hename.symm)
  refine ⟨e, he, hename, hunique, ?_, ?_⟩
  · intro hfinal
    rcases hlast with ⟨hof, _⟩ | ⟨m, hm, hdeclares, _⟩
    · exact numbered_of_enumerationOf? hof
    · exact absurd hdeclares (hfinal m hm)
  · intro hagain
    rcases hlast with ⟨_, hfinal⟩ | ⟨m, hm, hdeclares, hof⟩
    · rcases hagain with ⟨m, hm, hdeclares⟩
      exact absurd hdeclares (hfinal m hm)
    · have hnumbered := numbered_of_enumerationOf? hof
      rw [hbare m hm hdeclares] at hnumbered
      exact hnumbered.eq_nil

/-- One enumeration that is declared again behind its definition, and one that is declared
before it. -/
theorem values_of_redeclared_twice :
    let scope := Sample.scope
    let constants := [Sample.enumerator "x" [], Sample.enumerator "y" []]
    let bare (name : String) := Sample.enumeration name []
    let defined (name : String) := Sample.enumeration name constants
    let root := Sample.unit [defined "a", bare "b", bare "a", defined "b"]
    let d : Declarations :=
      ⟨[], [], [], [⟨"a", .i32, []⟩, ⟨"b", .i32, [⟨"x", 0⟩, ⟨"y", 1⟩]⟩], [], []⟩
    scope.extract root = .ok d ∧
      (∃ e ∈ d.enums, e.name = "a" ∧ e.values = []) ∧
      ∃ e ∈ d.enums, e.name = "b" ∧ Numbered constants e.values := by
  intro scope constants bare defined root d
  have h : scope.extract root = .ok d := by
    decide +kernel
  have hnodes : (root.walk.filter fun n => !n.entity.isImplicit && scope.isLocal n) =
      defined "a" :: (constants ++ [bare "b", bare "a"]) ++ defined "b" :: constants := by
    have horder : root.preOrder =
        root :: (defined "a" :: (constants ++ [bare "b", bare "a"]) ++ defined "b" :: constants) :=
      rfl
    rw [Node.walk_eq_preOrder, horder, List.filter_cons_of_neg (by decide +kernel)]
    exact List.filter_eq_self.mpr (by decide +kernel)
  have hfirst := @values_of_redeclared scope root d [] _ (defined "a") "a" h (by decide) hnodes
    (by decide) (by decide)
  have hsecond := @values_of_redeclared scope root d
    (defined "a" :: (constants ++ [bare "b", bare "a"])) _ (defined "b") "b" h (by decide)
    hnodes (by decide) (by decide)
  rcases hfirst with ⟨a, ha, haname, _, _, hlost⟩
  rcases hsecond with ⟨b, hb, hbname, _, hkept, _⟩
  refine ⟨h, ⟨a, ha, haname, hlost (by decide)⟩, ⟨b, hb, hbname, hkept (by decide)⟩⟩

/-- A bare declaration behind the definition of an enumeration takes its enumerators. -/
theorem definition_lost_to_redeclaration :
    let definition :=
      Sample.enumeration "e" [Sample.enumerator "x" [], Sample.enumerator "y" []]
    let bare := Sample.enumeration "e" []
    let root := Sample.unit [definition, bare]
    (constants definition).map (·.entity.name?) = [some "x", some "y"] ∧
      (constants bare).length = 0 ∧
      Sample.scope.extract root = .ok ⟨[], [], [], [⟨"e", .i32, []⟩], [], []⟩ := by
  decide +kernel

end HeaderScope
end HeaderBinding
