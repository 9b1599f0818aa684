import HeaderBinding.Import
import HeaderBinding.Proofs.BindingModule.Shape
import HeaderBinding.Outcome
import HeaderBinding.Proofs.Spelling.Token

/-!
# The layout of an imported module

The spellings of the types in a header may hold any white space. None of it reaches the
module: its lines are as many as the declarations ask for.
-/

namespace HeaderBinding

open BindingModule Dump Text

namespace Extraction

theorem isTidy_token_of_isMapped {t : ForeignType} (h : IsMapped t) :
    IsTidy t.token.toList := by
  rcases h with ⟨spelling, rfl⟩ | rfl
  · exact ForeignType.isTidy_token_ofSpelling spelling
  · exact isTidy_of_not_blank (by decide) (not_blank_of_any (by decide))

end Extraction

namespace HeaderScope

open Extraction

theorem exists_extract_of_importTree {scope : HeaderScope} {h : ModuleHeader} {root : Node}
    {i : Import} (hi : scope.importTree h root = .ok i) :
    ∃ d, scope.extract root = .ok d ∧ i = ⟨d, .render h d⟩ := by
  rcases map_eq_ok hi with ⟨d, hextract, hd⟩
  exact ⟨d, hextract, hd.symm⟩

/-- An imported module has tidy tokens, a single line feed at its end, no white space at
the end of a line, and as many lines as its declarations ask for, whatever the spellings
of its types. -/
theorem lines_of_importTree {scope : HeaderScope} {h : ModuleHeader} {root : Node} {i : Import}
    (hi : scope.importTree h root = .ok i)
    (hnames : ∀ name ∈ i.declarations.names, Unbroken name) (hname : Unbroken h.name)
    (hlinks : ∀ link ∈ h.links, Unbroken link)
    (hsource : ∀ source ∈ h.source, Unbroken source) :
    (∀ t ∈ i.declarations.types, IsTidy t.token.toList) ∧
      (∃ front c, i.module.text.toList = front ++ [c, '\n'] ∧ c ≠ '\n') ∧
      ∃ lines : List (List Char), i.module.text.toList.splitOn '\n' = lines ++ [[]] ∧
        (∀ l ∈ lines, ∀ c ∈ l.getLast?, isBlank c = false) ∧
        lines.length = lineCount h i.declarations := by
  rcases exists_extract_of_importTree hi with ⟨d, hextract, rfl⟩
  have htidy : ∀ t ∈ d.types, IsTidy t.token.toList := fun t ht =>
    isTidy_token_of_isMapped (isMapped_of_extract hextract ht)
  have htokens : ∀ t ∈ d.types, Unbroken t.token := fun t ht hfeed =>
    absurd ((htidy t ht).blank hfeed (by decide)) (by decide)
  refine ⟨htidy, ?_, exists_lines_of_renderText hname hlinks hsource hnames htokens⟩
  rcases exists_renderText h d with ⟨front, c, htext, hc⟩
  refine ⟨front, c, htext, ?_⟩
  rintro rfl
  exact absurd hc (by decide)

/-- A union whose second field is spelled over two lines, under a banner. -/
theorem lines_of_importTree_union :
    let scope := Sample.scope
    let root := Sample.unit
      [ Sample.record "u" "union" true
          [ Sample.field "a" "char\tconst *", Sample.field "b" " struct\npoint\t* volatile" ] ]
    let h : ModuleHeader := ⟨"lib", ["m"], some "lib.h"⟩
    let d : Declarations :=
      ⟨[], [], [⟨"u", [⟨"a", .constCString⟩, ⟨"b", .ptr (.named "point")⟩], true⟩], [], [], []⟩
    scope.importTree h root = .ok ⟨d, .render h d⟩ ∧
      (∀ name ∈ d.names, Unbroken name) ∧ (∀ link ∈ h.links, Unbroken link) ∧
      (∀ source ∈ h.source, Unbroken source) ∧
      ∃ lines, (BindingModule.render h d).text.toList.splitOn '\n' = lines ++ [[]] ∧
        lines.length = 6 := by
  intro scope root h d
  have hextract : scope.extract root = .ok d := by
    decide +kernel
  have hi : scope.importTree h root = .ok ⟨d, .render h d⟩ := by
    unfold importTree
    rw [hextract]
    rfl
  have hnames : ∀ name ∈ d.names, Unbroken name := by
    decide
  have hlinks : ∀ link ∈ h.links, Unbroken link := by
    decide
  have hsource : ∀ source ∈ h.source, Unbroken source := by
    decide
  rcases lines_of_importTree hi hnames (by decide) hlinks hsource with
    ⟨_, _, lines, hsplit, _, hlength⟩
  exact ⟨hi, hnames, hlinks, hsource, lines, hsplit, hlength⟩

end HeaderScope
end HeaderBinding
