import Mathlib.Algebra.Ring.Parity
import HeaderBinding.Proofs.BindingModule.Lines

/-!
# The link clause

The links of a module are read back from its text, whatever they are called. The quotes and
backslashes of a link stand behind backslashes of their own, so the first quote that does
not ends the link.
-/

namespace HeaderBinding

namespace BindingModule

open Text

/-!
# Escapes
-/

theorem escapedLinkChar_cases (c : Char) :
    (c = '\\' ∨ c = '"') ∧ escapedLinkChar c = ['\\', c] ∨
      (c ≠ '\\' ∧ c ≠ '"') ∧ escapedLinkChar c = [c] := by
  unfold escapedLinkChar
  split
  · exact .inl ⟨.inl rfl, rfl⟩
  · exact .inl ⟨.inr rfl, rfl⟩
  next hbackslash hquote =>
    exact .inr ⟨⟨hbackslash, hquote⟩, rfl⟩

/-- Puts a backslash in front of every `mark`. -/
def escapeMark (mark : Char) (s : List Char) : List Char :=
  s.flatMap fun c => if c = mark then ['\\', c] else [c]

/-- Backslashes are escaped before quotes, so that no backslash is escaped twice. -/
theorem flatMap_escapedLinkChar (link : List Char) :
    link.flatMap escapedLinkChar = escapeMark '"' (escapeMark '\\' link) := by
  unfold escapeMark
  rw [List.flatMap_assoc]
  refine List.flatMap_congr fun c _ => ?_
  rcases escapedLinkChar_cases c with ⟨rfl | rfl, hc⟩ | ⟨⟨hbackslash, hquote⟩, hc⟩
  · exact hc
  · exact hc
  · rw [hc, if_neg hbackslash, List.flatMap_singleton, if_neg hquote]

/-- Whether the character behind a text is escaped, as it is behind an odd number of
backslashes. -/
def EscapesNext (front : List Char) : Prop :=
  Odd (front.rtakeWhile (· = '\\')).length

theorem escapesNext_concat_backslash (front : List Char) :
    EscapesNext (front ++ ['\\']) ↔ ¬EscapesNext front := by
  unfold EscapesNext
  rw [List.rtakeWhile_concat_pos _ _ _ (by decide), List.length_append, List.length_singleton,
    Nat.odd_add_one]

theorem not_escapesNext_concat {c : Char} (front : List Char) (h : c ≠ '\\') :
    ¬EscapesNext (front ++ [c]) := by
  unfold EscapesNext
  rw [List.rtakeWhile_concat_neg _ _ _ (by simpa using h)]
  decide

/-- A whole link leaves nothing to escape behind it. -/
theorem not_escapesNext_escaped (link : List Char) :
    ¬EscapesNext (link.flatMap escapedLinkChar) := by
  induction link using List.reverseRecOn with
  | nil =>
      unfold EscapesNext
      decide
  | append_singleton link c ih =>
      rw [List.flatMap_append, List.flatMap_singleton]
      rcases escapedLinkChar_cases c with ⟨hc, heq⟩ | ⟨⟨hbackslash, _⟩, heq⟩
      · rw [heq, List.append_cons]
        by_cases hbackslash : c = '\\'
        · rw [hbackslash, escapesNext_concat_backslash, escapesNext_concat_backslash, not_not]
          exact ih
        · exact not_escapesNext_concat _ hbackslash
      · rw [heq]
        exact not_escapesNext_concat _ hbackslash

/-- A quote in the escaped form of a link comes from a quote of the link. -/
theorem exists_of_quote_escaped {link front back : List Char}
    (h : link.flatMap escapedLinkChar = front ++ '"' :: back) :
    ∃ before : List Char, front = before.flatMap escapedLinkChar ++ ['\\'] := by
  induction link generalizing front with
  | nil =>
      simp at h
  | cons c link ih =>
      rw [List.flatMap_cons] at h
      rcases escapedLinkChar_cases c with ⟨_, heq⟩ | ⟨⟨_, hquote⟩, heq⟩
      · rw [heq, List.cons_append, List.singleton_append] at h
        rcases List.cons_eq_append_iff.mp h with ⟨_, hstart⟩ | ⟨tail, rfl, htail⟩
        · exact absurd (List.cons.inj hstart).1 (by decide)
        · rcases List.cons_eq_append_iff.mp htail with ⟨rfl, _⟩ | ⟨front, rfl, hfront⟩
          · exact ⟨[], rfl⟩
          · rcases ih hfront with ⟨before, rfl⟩
            exact ⟨c :: before, by rw [List.flatMap_cons, heq]; rfl⟩
      · rw [heq, List.singleton_append] at h
        rcases List.cons_eq_append_iff.mp h with ⟨_, hstart⟩ | ⟨front, rfl, hfront⟩
        · exact absurd (List.cons.inj hstart).1.symm hquote
        · rcases ih hfront with ⟨before, rfl⟩
          exact ⟨c :: before, by rw [List.flatMap_cons, heq]; rfl⟩

theorem escapesNext_of_quote_escaped {link front back : List Char}
    (h : link.flatMap escapedLinkChar = front ++ '"' :: back) : EscapesNext front := by
  rcases exists_of_quote_escaped h with ⟨before, rfl⟩
  exact (escapesNext_concat_backslash _).mpr (not_escapesNext_escaped before)

/-!
# Reading links
-/

/-- Reads a link behind its opening quote. What is left starts behind the closing one. -/
def readLink? : List Char → Option (List Char × List Char)
  | [] => none
  | '"' :: rest => some ([], rest)
  | '\\' :: '\\' :: rest => (readLink? rest).map fun r => ('\\' :: r.1, r.2)
  | '\\' :: '"' :: rest => (readLink? rest).map fun r => ('"' :: r.1, r.2)
  | '\\' :: _ => none
  | c :: rest => (readLink? rest).map fun r => (c :: r.1, r.2)

theorem length_readLink?_lt {s link rest : List Char} (h : readLink? s = some (link, rest)) :
    rest.length < s.length := by
  fun_induction readLink? s generalizing link with
  | case1 | case5 =>
      cases h
  | case2 =>
      cases h
      exact Nat.lt_succ_self _
  | case3 s ih | case4 s ih =>
      rcases Option.map_eq_some_iff.mp h with ⟨r, hr, heq⟩
      cases heq
      have hlt := ih hr
      simp only [List.length_cons]
      omega
  | case6 c s _ _ _ _ ih =>
      rcases Option.map_eq_some_iff.mp h with ⟨r, hr, heq⟩
      cases heq
      exact Nat.lt_succ_of_lt (ih hr)

/-- Reads quoted links with a comma and a space between them. -/
def readLinks? (s : List Char) : Option (List String × List Char) :=
  match s with
  | '"' :: quoted =>
      match _h : readLink? quoted with
      | none => none
      | some (link, ',' :: ' ' :: rest) =>
          (readLinks? rest).map fun r => (String.ofList link :: r.1, r.2)
      | some (link, rest) => some ([String.ofList link], rest)
  | _ => none
termination_by s.length
decreasing_by
  have hlt := length_readLink?_lt _h
  simp only [List.length_cons] at hlt ⊢
  omega

/-- Reads a link clause, if there is one. -/
def readClause? (s : List Char) : Option (List String × List Char) :=
  match " links ".toList.isPrefixOf? s with
  | some links => readLinks? links
  | none => some ([], s)

/-- The text of a module up to the link clause. -/
def opening (name : String) (source : Option String) : List Char :=
  (bannerLines ⟨name, [], source⟩).flatMap shownLine ++ ("foreign module " ++ name).toList

/-- Reads the links off the text of a module of which the name and the source are known. -/
def linksIn? (name : String) (source : Option String) (text : String) : Option (List String) :=
  ((opening name source).isPrefixOf? text.toList).bind fun clause =>
    (readClause? clause).map Prod.fst

theorem readLink?_escaped (link rest : List Char) :
    readLink? (link.flatMap escapedLinkChar ++ '"' :: rest) = some (link, rest) := by
  induction link with
  | nil =>
      rfl
  | cons c link ih =>
      rw [List.flatMap_cons, List.append_assoc]
      rcases escapedLinkChar_cases c with ⟨rfl | rfl, heq⟩ | ⟨⟨hbackslash, hquote⟩, heq⟩
      · rw [heq, List.cons_append, List.singleton_append, readLink?, ih]
        rfl
      · rw [heq, List.cons_append, List.singleton_append, readLink?, ih]
        rfl
      · rw [heq, List.singleton_append, readLink?, ih]
        · rfl
        · exact hquote
        · exact fun _ hc => absurd hc hbackslash
        · exact fun _ hc => absurd hc hbackslash
        · exact hbackslash

theorem toList_quotedLink (link : String) (rest : List Char) :
    (quotedLink link).toList ++ rest =
      '"' :: (link.toList.flatMap escapedLinkChar ++ '"' :: rest) := by
  unfold quotedLink
  rw [String.toList_ofList, List.append_assoc, List.cons_append, List.singleton_append]

theorem readLinks?_last (link : String) (rest : List Char) :
    readLinks? ((quotedLink link).toList ++ ':' :: rest) = some ([link], ':' :: rest) := by
  have hread := readLink?_escaped link.toList (':' :: rest)
  rw [toList_quotedLink, readLinks?]
  split
  next hnone =>
    cases hread.symm.trans hnone
  next hcomma =>
    cases hread.symm.trans hcomma
  next hlast =>
    cases hread.symm.trans hlast
    rw [String.ofList_toList]

theorem readLinks?_cons (link : String) (rest : List Char) :
    readLinks? ((quotedLink link).toList ++ ',' :: ' ' :: rest) =
      (readLinks? rest).map fun r => (link :: r.1, r.2) := by
  have hread := readLink?_escaped link.toList (',' :: ' ' :: rest)
  rw [toList_quotedLink, readLinks?]
  split
  next hnone =>
    cases hread.symm.trans hnone
  next hcomma =>
    cases hread.symm.trans hcomma
    rw [String.ofList_toList]
  next hother hlast =>
    cases hread.symm.trans hlast
    exact absurd rfl (hother rest)

theorem readLinks?_quotedLinks (link : String) (links : List String) (rest : List Char) :
    readLinks? ((", ".intercalate ((link :: links).map quotedLink)).toList ++ ':' :: rest) =
      some (link :: links, ':' :: rest) := by
  induction links generalizing link with
  | nil =>
      rw [List.map_singleton, String.intercalate_singleton]
      exact readLinks?_last link rest
  | cons next links ih =>
      have hparts : (", ".intercalate ((link :: next :: links).map quotedLink)).toList ++
          ':' :: rest = (quotedLink link).toList ++ ',' :: ' ' ::
            ((", ".intercalate ((next :: links).map quotedLink)).toList ++ ':' :: rest) := by
        rw [List.map_cons, List.map_cons, String.intercalate_cons_cons]
        simp
      rw [hparts, readLinks?_cons, ih, Option.map_some]

theorem readClause?_linkClause (links : List String) (rest : List Char) :
    readClause? ((linkClause links).toList ++ ':' :: rest) = some (links, ':' :: rest) := by
  cases links with
  | nil =>
      rfl
  | cons link links =>
      have hclause : " links ".toList.isPrefixOf?
          ((linkClause (link :: links)).toList ++ ':' :: rest) =
            some ((", ".intercalate ((link :: links).map quotedLink)).toList ++ ':' :: rest) := by
        rw [List.isPrefixOf?_eq_some_iff_append_eq, linkClause, String.toList_append,
          List.append_assoc]
        exact nofun
      rw [readClause?, hclause]
      exact readLinks?_quotedLinks link links rest

/-!
# The whole text
-/

theorem toList_moduleLine (h : ModuleHeader) :
    (moduleLine h).toList =
      ("foreign module " ++ h.name).toList ++ (linkClause h.links).toList ++ [':'] := by
  unfold moduleLine
  rw [String.toList_append, String.toList_append]
  rfl

theorem exists_toList_renderText (h : ModuleHeader) (d : Declarations) :
    ∃ rest, (renderText h d).toList =
      opening h.name h.source ++ ((linkClause h.links).toList ++ ':' :: rest) := by
  have hbanner : bannerLines ⟨h.name, [], h.source⟩ = bannerLines h := rfl
  have hcolon : trimEnd (moduleLine h).toList = (moduleLine h).toList := by
    rw [toList_moduleLine]
    exact trimEnd_concat _ (by decide)
  refine ⟨'\n' :: (body d).flatMap shownLine, ?_⟩
  rw [toList_renderText, List.flatMap_append, List.flatMap_cons, shownLine, hcolon, opening,
    hbanner, toList_moduleLine]
  simp only [List.append_assoc, List.cons_append, List.nil_append]

theorem linksIn?_renderText (h : ModuleHeader) (d : Declarations) :
    linksIn? h.name h.source (renderText h d) = some h.links := by
  rcases exists_toList_renderText h d with ⟨rest, htext⟩
  have hclause := List.isPrefixOf?_eq_some_iff_append_eq.mpr htext.symm
  rw [linksIn?, hclause, Option.bind_some, readClause?_linkClause, Option.map_some]

/-- The links of a module can be read off its text, and each of them ends in the first quote
that is not escaped. So modules of one name and one source with the same text have the same
links. -/
theorem links_of_renderText (h : ModuleHeader) (d : Declarations) :
    linksIn? h.name h.source (renderText h d) = some h.links ∧
      (∀ link ∈ h.links,
        let body := escapeMark '"' (escapeMark '\\' link.toList)
        (quotedLink link).toList = '"' :: body ++ ['"'] ∧
          (∀ front back, body = front ++ '"' :: back → EscapesNext front) ∧
          ¬EscapesNext body) ∧
      ∀ (links : List String) (e : Declarations),
        renderText ⟨h.name, links, h.source⟩ e = renderText h d → links = h.links := by
  have hread := linksIn?_renderText h d
  refine ⟨hread, ?_, ?_⟩
  · intro link _ body
    have hbody : body = link.toList.flatMap escapedLinkChar :=
      (flatMap_escapedLinkChar link.toList).symm
    rw [hbody]
    refine ⟨String.toList_ofList, ?_, not_escapesNext_escaped link.toList⟩
    intro front back hquote
    exact escapesNext_of_quote_escaped hquote
  · intro links e hsame
    have hother := linksIn?_renderText ⟨h.name, links, h.source⟩ e
    rw [hsame, hread] at hother
    exact (Option.some.inj hother).symm

/-- Links that hold quotes, backslashes, commas and line feeds, above a type that is written
like a builtin one. -/
theorem links_of_renderText_quotes :
    let h : ModuleHeader := ⟨"m", ["a\"b", "\\", "", "\", \"\n"], some "m.h"⟩
    let d : Declarations := ⟨[], [], [], [], [⟨"t", .i32⟩], []⟩
    let e : Declarations := ⟨[], [], [], [], [⟨"t", .named "c.i32"⟩], []⟩
    linksIn? "m" (some "m.h") (renderText h d) = some h.links ∧
      "a\"b" ∈ h.links ∧ EscapesNext ['a', '\\'] ∧
      e ≠ d ∧ renderText ⟨h.name, h.links, h.source⟩ e = renderText h d ∧
      ∀ links, links ≠ h.links → renderText ⟨h.name, links, h.source⟩ e ≠ renderText h d := by
  intro h d e
  have hmem : "a\"b" ∈ h.links := by
    decide
  have hsame : renderText ⟨h.name, h.links, h.source⟩ e = renderText h d := by
    decide +kernel
  rcases links_of_renderText h d with ⟨hread, hquoted, hlinks⟩
  rcases hquoted _ hmem with ⟨_, hescaped, _⟩
  exact ⟨hread, hmem, hescaped ['a', '\\'] ['b'] (by decide), by decide, hsame,
    fun links hne htext => hne (hlinks links e htext)⟩

end BindingModule
end HeaderBinding
