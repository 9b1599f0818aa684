import Mathlib.Data.List.DropRight
import HeaderBinding.BindingModule
import HeaderBinding.Proofs.Text.Blank

/-!
# Lines of a module

Trimming the text of a module as a whole takes away the empty lines at its end, and
nothing else. So the text is made of the lines that are left, each without its trailing
blanks and with a line feed.
-/

namespace HeaderBinding

namespace BindingModule

open Text

/-- A text without a line feed. -/
def Unbroken (s : String) : Prop :=
  '\n' ∉ s.toList

instance (s : String) : Decidable (Unbroken s) :=
  inferInstanceAs (Decidable (¬_))

/-- A line as the text shows it. -/
def shownLine (line : String) : List Char :=
  trimEnd line.toList ++ ['\n']

def isEmptyLine (line : String) : Bool :=
  (trimEnd line.toList).isEmpty

theorem isEmptyLine_of_mem {line : String} {c : Char} (hc : c ∈ line.toList)
    (h : isBlank c = false) : isEmptyLine line = false := by
  rw [isEmptyLine, List.isEmpty_eq_false_iff]
  exact List.ne_nil_of_mem (mem_trimEnd hc h)

/-!
# Joined lines
-/

theorem joinLines_cons_cons (l m : String) (ls : List String) :
    joinLines (l :: m :: ls) = shownLine l ++ joinLines (m :: ls) := by
  unfold joinLines
  rw [List.map_cons, List.map_cons, List.intercalate_cons_cons]
  rfl

theorem joinLines_concat (ls : List String) (l : String) :
    joinLines (ls ++ [l]) = ls.flatMap shownLine ++ trimEnd l.toList := by
  induction ls with
  | nil =>
      rw [List.nil_append, joinLines, List.map_singleton, List.intercalate_singleton]
      rfl
  | cons m ls ih =>
      have hcons : joinLines (m :: (ls ++ [l])) = shownLine m ++ joinLines (ls ++ [l]) := by
        cases ls with
        | nil =>
            exact joinLines_cons_cons m l []
        | cons k ls =>
            exact joinLines_cons_cons m k (ls ++ [l])
      rw [List.cons_append, hcons, ih, List.flatMap_cons, List.append_assoc]

theorem joinLines_append_lineFeed {ls : List String} (h : ls ≠ []) :
    joinLines ls ++ ['\n'] = ls.flatMap shownLine := by
  rcases List.eq_nil_or_concat ls with rfl | ⟨init, l, rfl⟩
  · exact absurd rfl h
  · rw [List.concat_eq_append, joinLines_concat, List.flatMap_append, List.flatMap_singleton,
      List.append_assoc]
    rfl

theorem trimEnd_flatMap_shownLine (ls : List String) :
    trimEnd (ls.flatMap shownLine) = joinLines (ls.rdropWhile isEmptyLine) := by
  have hfeed : ∀ c ∈ ['\n'], isBlank c = true :=
    List.forall_mem_singleton.mpr rfl
  induction ls using List.reverseRecOn with
  | nil =>
      rfl
  | append_singleton ls l ih =>
      rw [List.flatMap_append, List.flatMap_singleton, shownLine, ← List.append_assoc,
        trimEnd_append_of_blank hfeed]
      by_cases hl : isEmptyLine l = true
      · rw [List.rdropWhile_concat_pos _ _ _ hl, List.isEmpty_iff.mp hl, List.append_nil, ih]
      · rw [List.rdropWhile_concat_neg _ _ _ hl, joinLines_concat]
        -- The last line ends in a character, so there is nothing to trim.
        rcases List.eq_nil_or_concat (trimEnd l.toList) with hnil | ⟨front, c, hc⟩
        · exact absurd (List.isEmpty_iff.mpr hnil) hl
        · rw [List.concat_eq_append] at hc
          have hblank : isBlank c = false :=
            getLast?_trimEnd l.toList c (by simp [hc])
          rw [hc, ← List.append_assoc, trimEnd_concat _ hblank]

theorem trimEnd_joinLines (ls : List String) :
    trimEnd (joinLines ls) = joinLines (ls.rdropWhile isEmptyLine) := by
  have hfeed : ∀ c ∈ ['\n'], isBlank c = true :=
    List.forall_mem_singleton.mpr rfl
  by_cases hls : ls = []
  · rw [hls]
    rfl
  · rw [← trimEnd_flatMap_shownLine, ← joinLines_append_lineFeed hls,
      trimEnd_append_of_blank hfeed]

/-!
# The whole text
-/

theorem rdropWhile_append_cons {α : Type} {p : α → Bool} (xs ys : List α) {x : α}
    (hx : p x = false) :
    (xs ++ x :: ys).rdropWhile p = xs ++ x :: ys.rdropWhile p := by
  induction ys using List.reverseRecOn with
  | nil =>
      rw [List.rdropWhile_nil, List.rdropWhile_concat_neg _ _ _ (by simp [hx])]
  | append_singleton ys y ih =>
      rw [← List.cons_append, ← List.append_assoc, List.rdropWhile_concat,
        List.rdropWhile_concat, ih]
      split
      · rfl
      · simp

theorem colon_mem_moduleLine (h : ModuleHeader) : ':' ∈ (moduleLine h).toList := by
  unfold moduleLine
  rw [String.toList_append]
  exact List.mem_append_right _ (by decide)

/-- What a module holds below its first lines. -/
def body (d : Declarations) : List String :=
  (declarationLines d).rdropWhile isEmptyLine

theorem toList_renderText (h : ModuleHeader) (d : Declarations) :
    (renderText h d).toList =
      (bannerLines h ++ moduleLine h :: body d).flatMap shownLine := by
  have hlines : (lines h d).rdropWhile isEmptyLine =
      bannerLines h ++ moduleLine h :: body d :=
    rdropWhile_append_cons _ _ (isEmptyLine_of_mem (colon_mem_moduleLine h) (by decide))
  rw [renderText, String.toList_ofList, trimEnd_joinLines, hlines,
    joinLines_append_lineFeed (by simp)]

/-- The text of a module ends in a single line feed. -/
theorem exists_renderText (h : ModuleHeader) (d : Declarations) :
    ∃ front c, (renderText h d).toList = front ++ [c, '\n'] ∧ isBlank c = false := by
  have hcolon : ':' ∈ (renderText h d).toList := by
    rw [toList_renderText]
    apply List.mem_flatMap_of_mem (a := moduleLine h) (by simp)
    exact List.mem_append_left _ (mem_trimEnd (colon_mem_moduleLine h) (by decide))
  have htext : (renderText h d).toList = trimEnd (joinLines (lines h d)) ++ ['\n'] := by
    rw [renderText, String.toList_ofList]
  rw [htext] at hcolon ⊢
  rcases List.eq_nil_or_concat (trimEnd (joinLines (lines h d))) with hnil | ⟨front, c, hc⟩
  · rw [hnil] at hcolon
    exact absurd hcolon (by decide)
  · rw [List.concat_eq_append] at hc
    refine ⟨front, c, by simp [hc], ?_⟩
    exact getLast?_trimEnd (joinLines (lines h d)) c (by simp [hc])

/-- Where no line feed is inside a line, the lines of a text are found again. -/
theorem splitOn_flatMap_shownLine {ls : List String} (h : ∀ l ∈ ls, Unbroken l) :
    (ls.flatMap shownLine).splitOn '\n' = ls.map (fun l => trimEnd l.toList) ++ [[]] := by
  have hjoin : ls.flatMap shownLine = joinLines (ls ++ [""]) := by
    rw [joinLines_concat]
    exact (List.append_nil _).symm
  have hfree : ∀ l ∈ (ls ++ [""]).map fun l => trimEnd l.toList, '\n' ∉ l := by
    intro l hl
    rcases List.mem_map.mp hl with ⟨line, hline, rfl⟩
    rcases List.mem_append.mp hline with hline | hline
    · intro hmem
      exact h line hline (mem_of_mem_trimEnd hmem)
    · rw [List.mem_singleton.mp hline]
      decide
  rw [hjoin, joinLines, List.splitOn_intercalate '\n' hfree (by simp), List.map_append]
  rfl

end BindingModule
end HeaderBinding
