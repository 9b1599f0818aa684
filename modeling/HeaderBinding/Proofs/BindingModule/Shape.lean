import Mathlib.Algebra.Ring.Nat
import HeaderBinding.Proofs.BindingModule.Line
import HeaderBinding.Proofs.Text.Tidy

/-!
# Number and form of lines

A module has a line for each declaration and member and one behind each block. Only the
empty line of a block can stand at the end of a module, and there it is trimmed away. No
line breaks in two as long as the names and tokens in it do not.
-/

namespace HeaderBinding

namespace Declarations

/-- Declarations whose last lines are a block. -/
def EndsInBlock (d : Declarations) : Prop :=
  d.typedefs = [] ∧ d.globals = [] ∧ d.functions = [] ∧
    (d.structs ≠ [] ∨ d.unions ≠ [] ∨ d.enums ≠ [])

instance (d : Declarations) : Decidable d.EndsInBlock :=
  inferInstanceAs (Decidable (_ ∧ _))

end Declarations

namespace BindingModule

open Text

/-!
# Number of lines
-/

/-- How many lines a module has: one of its own, two for the banner, and those of its
declarations, of which an empty one at the end does not count. -/
def lineCount (h : ModuleHeader) (d : Declarations) : Nat :=
  1 + (if h.source.isSome then 2 else 0) +
    ((d.structs ++ d.unions).map fun r => 2 + r.fields.length).sum +
    (d.enums.map fun e => 2 + e.values.length).sum +
    d.typedefs.length + d.globals.length + d.functions.length -
    (if d.EndsInBlock then 1 else 0)

theorem exists_getLast?_append_iff {α : Type} {p : α → Bool} {xs ys : List α}
    (hxs : ∀ x ∈ xs, p x = true) (hys : ∀ y ∈ ys, p y = false) :
    (∃ x ∈ (xs ++ ys).getLast?, p x = true) ↔ ys = [] ∧ xs ≠ [] := by
  rcases List.eq_nil_or_concat ys with rfl | ⟨init, y, rfl⟩
  · rw [List.append_nil]
    constructor
    · rintro ⟨x, hx, _⟩
      exact ⟨rfl, List.ne_nil_of_mem (List.mem_of_getLast? hx)⟩
    · rintro ⟨_, hne⟩
      exact ⟨_, List.getLast?_eq_some_getLast hne, hxs _ (List.getLast_mem hne)⟩
  · have hy : p y = false := hys y (by simp)
    simp [hy]

theorem endsInBlock_iff (d : Declarations) :
    d.EndsInBlock ↔ ∃ x ∈ d.entries.getLast?, x.isBlock = true := by
  let blocks := (d.structs ++ d.unions).map Declaration.record ++
    d.enums.map Declaration.enumeration
  let items := d.typedefs.map Declaration.typedef ++
    (d.globals.map Declaration.global ++ d.functions.map Declaration.function)
  have hentries : d.entries = blocks ++ items := by
    simp only [Declarations.entries, blocks, items, List.append_assoc]
  have hblocks : ∀ x ∈ blocks, x.isBlock = true := by
    intro x hx
    rcases List.mem_append.mp hx with hx | hx
    · rcases List.mem_map.mp hx with ⟨r, _, rfl⟩
      rfl
    · rcases List.mem_map.mp hx with ⟨e, _, rfl⟩
      rfl
  have hitems : ∀ x ∈ items, x.isBlock = false := by
    intro x hx
    rcases List.mem_append.mp hx with hx | hx
    · rcases List.mem_map.mp hx with ⟨t, _, rfl⟩
      rfl
    · rcases List.mem_append.mp hx with hx | hx
      · rcases List.mem_map.mp hx with ⟨g, _, rfl⟩
        rfl
      · rcases List.mem_map.mp hx with ⟨f, _, rfl⟩
        rfl
  have hends : d.EndsInBlock ↔ items = [] ∧ blocks ≠ [] := by
    simp only [Declarations.EndsInBlock, items, blocks, ne_eq, List.append_eq_nil_iff,
      List.map_eq_nil_iff, not_and_or, and_assoc]
  rw [hends, hentries, exists_getLast?_append_iff hblocks hitems]

theorem length_recordLines (r : Record) : (recordLines r).length = 2 + r.fields.length := by
  unfold recordLines
  simp only [List.length_append, List.length_cons, List.length_map, List.length_nil]
  omega

theorem length_enumerationLines (e : Enumeration) :
    (enumerationLines e).length = 2 + e.values.length := by
  unfold enumerationLines
  simp only [List.length_append, List.length_cons, List.length_map, List.length_nil]
  omega

theorem length_declarationLines (d : Declarations) :
    (declarationLines d).length =
      ((d.structs ++ d.unions).map fun r => 2 + r.fields.length).sum +
        (d.enums.map fun e => 2 + e.values.length).sum +
        d.typedefs.length + d.globals.length + d.functions.length := by
  unfold declarationLines
  simp only [List.length_append, List.length_flatMap, List.length_map, length_recordLines,
    length_enumerationLines]

theorem body_of_entries {d : Declarations} {init : List Declaration} {x : Declaration}
    (h : d.entries = init ++ [x]) :
    body d = init.flatMap Declaration.shownLines ++ x.lines.map Line.text := by
  rcases x.exists_lines with ⟨front, l, hlines⟩
  have hempty : (if x.isBlock then [""] else []).rdropWhile isEmptyLine = [] := by
    cases x.isBlock <;> rfl
  unfold body
  rw [declarationLines_eq_flatMap, h, List.flatMap_append, List.flatMap_singleton,
    Declaration.shownLines, hlines, List.map_append, List.map_singleton, List.append_assoc,
    List.singleton_append, ← List.append_assoc, rdropWhile_append_cons _ _ l.isEmptyLine_text,
    hempty, List.append_assoc]

theorem length_body (d : Declarations) :
    (body d).length + (if d.EndsInBlock then 1 else 0) = (declarationLines d).length := by
  rcases List.eq_nil_or_concat d.entries with hnil | ⟨init, x, hconcat⟩
  · have hends : ¬d.EndsInBlock := by
      rw [endsInBlock_iff, hnil]
      simp
    unfold body
    rw [if_neg hends, declarationLines_eq_flatMap, hnil]
    rfl
  · rw [List.concat_eq_append] at hconcat
    have hends : d.EndsInBlock ↔ x.isBlock = true := by
      rw [endsInBlock_iff, hconcat]
      simp
    rw [body_of_entries hconcat, declarationLines_eq_flatMap, hconcat, List.flatMap_append,
      List.flatMap_singleton, Declaration.shownLines]
    cases hblock : x.isBlock with
    | true =>
        rw [if_pos (hends.mpr hblock)]
        simp [Nat.add_assoc]
    | false =>
        rw [if_neg (mt hends.mp (by simp [hblock]))]
        simp

theorem length_lines (h : ModuleHeader) (d : Declarations) :
    (bannerLines h ++ moduleLine h :: body d).length = lineCount h d := by
  have hbanner : (bannerLines h).length = if h.source.isSome then 2 else 0 := by
    unfold bannerLines
    cases h.source <;> rfl
  have hbody := length_body d
  rw [length_declarationLines] at hbody
  unfold lineCount
  rw [List.length_append, List.length_cons, hbanner]
  omega

/-!
# Line feeds
-/

theorem unbroken_append {s t : String} : Unbroken (s ++ t) ↔ Unbroken s ∧ Unbroken t := by
  unfold Unbroken
  rw [String.toList_append, List.mem_append, not_or]

theorem not_mem_intercalate {c : Char} {sep : String} {parts : List String}
    (hsep : c ∉ sep.toList) (h : ∀ part ∈ parts, c ∉ part.toList) :
    c ∉ (sep.intercalate parts).toList := by
  induction parts with
  | nil =>
      exact List.not_mem_nil
  | cons part parts ih =>
      rcases List.forall_mem_cons.mp h with ⟨hpart, hrest⟩
      cases parts with
      | nil =>
          rwa [String.intercalate_singleton]
      | cons next parts =>
          rw [String.intercalate_cons_cons, String.toList_append, String.toList_append,
            List.mem_append, List.mem_append, not_or, not_or]
          exact ⟨⟨hpart, hsep⟩, ih hrest⟩

theorem unbroken_toString (v : Int) : Unbroken (toString v) := by
  have hnat : ∀ n : Nat, Unbroken n.repr := by
    intro n hn
    rw [Nat.toList_repr] at hn
    have hdigit := Nat.isDigit_of_mem_toDigits (by decide) (by decide) hn
    exact absurd hdigit (by decide)
  cases v with
  | ofNat n =>
      exact hnat n
  | negSucc n =>
      exact unbroken_append.mpr ⟨by decide, hnat (n + 1)⟩

theorem unbroken_quotedLink {link : String} (h : Unbroken link) : Unbroken (quotedLink link) := by
  have hescaped : ∀ c, '\n' ∈ escapedLinkChar c → c = '\n' := by
    intro c hc
    unfold escapedLinkChar at hc
    split at hc
    · exact absurd hc (by decide)
    · exact absurd hc (by decide)
    · exact (List.mem_singleton.mp hc).symm
  unfold Unbroken quotedLink
  rw [String.toList_ofList]
  intro hmem
  rcases List.mem_append.mp hmem with hmem | hmem
  · rcases List.mem_cons.mp hmem with hquote | hmem
    · exact absurd hquote (by decide)
    · rcases List.mem_flatMap.mp hmem with ⟨c, hc, hfeed⟩
      rw [hescaped c hfeed] at hc
      exact h hc
  · exact absurd hmem (by decide)

theorem unbroken_moduleLine {h : ModuleHeader} (hname : Unbroken h.name)
    (hlinks : ∀ link ∈ h.links, Unbroken link) : Unbroken (moduleLine h) := by
  have hclause : Unbroken (linkClause h.links) := by
    unfold linkClause
    split
    · decide
    · apply unbroken_append.mpr
      refine ⟨by decide, not_mem_intercalate (by decide) ?_⟩
      intro quoted hquoted
      rcases List.mem_map.mp hquoted with ⟨link, hlink, rfl⟩
      exact unbroken_quotedLink (hlinks link hlink)
  unfold moduleLine
  simp only [unbroken_append]
  exact ⟨⟨⟨by decide, hname⟩, hclause⟩, by decide⟩

theorem unbroken_bannerLines {h : ModuleHeader} (hsource : ∀ source ∈ h.source, Unbroken source) :
    ∀ l ∈ bannerLines h, Unbroken l := by
  unfold bannerLines
  split
  next =>
    exact List.forall_mem_nil _
  next source hs =>
    have hline : Unbroken ("# Source: " ++ source) :=
      unbroken_append.mpr ⟨by decide, hsource source hs⟩
    exact List.forall_mem_cons.mpr ⟨by decide, List.forall_mem_singleton.mpr hline⟩

theorem unbroken_parameter {p : TypedName} (hname : Unbroken p.name)
    (htype : Unbroken p.type.token) : Unbroken (parameter p) := by
  unfold parameter
  simp only [unbroken_append]
  exact ⟨⟨hname, by decide⟩, htype⟩

theorem Line.unbroken_tail {l : Line} (hnames : ∀ name ∈ l.names, Unbroken name)
    (htypes : ∀ t ∈ l.types, Unbroken t.token) : Unbroken l.tail := by
  cases l with
  | record name isUnion =>
      have hlayout : Unbroken (if isUnion then "c union" else "c") := by
        cases isUnion <;> decide
      unfold tail
      simp only [unbroken_append]
      exact ⟨⟨by decide, hlayout⟩, by decide⟩
  | enumeration name underlying =>
      unfold tail
      simp only [unbroken_append]
      exact ⟨⟨by decide, htypes underlying (by simp [types])⟩, by decide⟩
  | enumerator v =>
      exact unbroken_append.mpr ⟨by decide, unbroken_toString v.value⟩
  | field t | typedef t | global t =>
      exact unbroken_append.mpr ⟨by decide, htypes t.type (by simp [types])⟩
  | function f =>
      have hparameters : ∀ part ∈ f.parameters.map parameter, Unbroken part := by
        intro part hpart
        rcases List.mem_map.mp hpart with ⟨p, hp, rfl⟩
        apply unbroken_parameter
        · exact hnames p.name (List.mem_cons_of_mem _ (List.mem_map_of_mem hp))
        · exact htypes p.type (List.mem_append_left _ (List.mem_map_of_mem hp))
      unfold tail
      simp only [unbroken_append]
      exact ⟨⟨⟨by decide, not_mem_intercalate (by decide) hparameters⟩, by decide⟩,
        htypes f.returns (by simp [types])⟩

theorem Line.unbroken_text {l : Line} (hnames : ∀ name ∈ l.names, Unbroken name)
    (htypes : ∀ t ∈ l.types, Unbroken t.token) : Unbroken l.text := by
  have hkeyword : Unbroken l.kind.keyword := by
    cases l.kind <;> decide
  unfold text
  simp only [unbroken_append]
  exact ⟨hkeyword, hnames l.name List.mem_cons_self, unbroken_tail hnames htypes⟩

/-- A module breaks in no other place than behind its lines. -/
theorem unbroken_body {d : Declarations} (hnames : ∀ name ∈ d.names, Unbroken name)
    (htypes : ∀ t ∈ d.types, Unbroken t.token) : ∀ l ∈ body d, Unbroken l := by
  intro l hl
  have hstart : body d <+: declarationLines d := List.rdropWhile_prefix _ _
  have hmem : l ∈ declarationLines d := hstart.mem hl
  rw [declarationLines_eq_flatMap] at hmem
  rcases List.mem_flatMap.mp hmem with ⟨x, hx, hlx⟩
  rcases List.mem_append.mp hlx with hline | hempty
  · rcases List.mem_map.mp hline with ⟨line, hxline, rfl⟩
    have hdeclared : line ∈ d.lines := List.mem_flatMap.mpr ⟨x, hx, hxline⟩
    apply Line.unbroken_text
    · intro name hname
      exact hnames name (Declarations.mem_names_of_mem_lines hdeclared hname)
    · intro t ht
      exact htypes t (Declarations.mem_types_of_mem_lines hdeclared ht)
  · cases hblock : x.isBlock with
    | true =>
        rw [hblock] at hempty
        rw [List.mem_singleton.mp hempty]
        decide
    | false =>
        rw [hblock] at hempty
        cases hempty

/-- Where no name or token breaks, the lines of the text are those of the module, and none
of them ends in a blank. -/
theorem exists_lines_of_renderText {h : ModuleHeader} {d : Declarations}
    (hname : Unbroken h.name) (hlinks : ∀ link ∈ h.links, Unbroken link)
    (hsource : ∀ source ∈ h.source, Unbroken source)
    (hnames : ∀ name ∈ d.names, Unbroken name) (htypes : ∀ t ∈ d.types, Unbroken t.token) :
    ∃ lines : List (List Char), (renderText h d).toList.splitOn '\n' = lines ++ [[]] ∧
      (∀ l ∈ lines, ∀ c ∈ l.getLast?, isBlank c = false) ∧ lines.length = lineCount h d := by
  let shown := bannerLines h ++ moduleLine h :: body d
  have hunbroken : ∀ l ∈ shown, Unbroken l := by
    intro l hl
    rcases List.mem_append.mp hl with hbanner | hl
    · exact unbroken_bannerLines hsource l hbanner
    · rcases List.mem_cons.mp hl with rfl | hbody
      · exact unbroken_moduleLine hname hlinks
      · exact unbroken_body hnames htypes l hbody
  refine ⟨shown.map fun l => trimEnd l.toList, ?_, ?_, ?_⟩
  · rw [toList_renderText]
    exact splitOn_flatMap_shownLine hunbroken
  · intro l hl
    rcases List.mem_map.mp hl with ⟨line, _, rfl⟩
    exact getLast?_trimEnd line.toList
  · rw [List.length_map, length_lines]

end BindingModule
end HeaderBinding
