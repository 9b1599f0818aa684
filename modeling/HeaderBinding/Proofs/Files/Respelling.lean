import Mathlib.Logic.Relation
import HeaderBinding.HeaderScope
import HeaderBinding.Proofs.Files.Growth

/-!
# Spellings of a path

A dot before a name, a second slash and the current directory in front change how a path is
spelled, but neither where it leads nor its names from the root. So the header is found under
any of its spellings, whether or not there is a file.
-/

namespace HeaderBinding
namespace Files

/-!
# Pieces of joined paths
-/

theorem splitAtEach_append (separator : Char) (s t : List Char) :
    splitAtEach separator (s ++ separator :: t) =
      splitAtEach separator s ++ splitAtEach separator t := by
  induction s with
  | nil =>
      simp [splitAtEach]
  | cons c s ih =>
      by_cases hc : c = separator
      · simp [splitAtEach, hc, ih]
      · cases hs : splitAtEach separator s with
        | nil =>
            exact absurd hs (splitAtEach_ne_nil separator s)
        | cons piece pieces =>
            simp [splitAtEach, hc, ih, hs]

theorem splitAtEach_of_not_mem {separator : Char} {s : List Char} (h : separator ∉ s) :
    splitAtEach separator s = [s] := by
  induction s with
  | nil =>
      rfl
  | cons c s ih =>
      rcases not_or.mp (mt List.mem_cons.mpr h) with ⟨hc, hs⟩
      rw [splitAtEach, if_neg (Ne.symm hc), ih hs]
      rfl

theorem pieces_slash_append (front back : String) :
    pieces (front ++ "/" ++ back) = pieces front ++ pieces back := by
  have htext : (front ++ "/" ++ back).toList = front.toList ++ '/' :: back.toList := by
    simp
  unfold pieces
  rw [htext, splitAtEach_append, List.filter_append, List.map_append]

theorem pieces_slash (path : String) : pieces (path ++ "/") = pieces path := by
  have h := pieces_slash_append path ""
  rwa [String.append_empty, show pieces "" = [] from rfl, List.append_nil] at h

theorem exists_of_endsInSlash {path : String} (h : endsInSlash path = true) :
    ∃ front, path = front ++ "/" := by
  have hlast : path.toList.getLast? = some '/' := beq_iff_eq.mp h
  rcases List.getLast?_eq_some_iff.mp hlast with ⟨front, hfront⟩
  refine ⟨String.ofList front, String.toList_inj.mp ?_⟩
  rw [hfront, String.toList_append, String.toList_ofList]
  rfl

theorem pieces_append {front : String} (h : front = "" ∨ endsInSlash front = true)
    (back : String) : pieces (front ++ back) = pieces front ++ pieces back := by
  rcases h with rfl | hslash
  · rw [String.empty_append]
    rfl
  · rcases exists_of_endsInSlash hslash with ⟨front, rfl⟩
    rw [pieces_slash_append, pieces_slash]

theorem pieces_join (directory path : String) :
    pieces (join directory path) = pieces directory ++ pieces path := by
  unfold join
  split
  next h =>
    exact pieces_append h path
  next =>
    exact pieces_slash_append directory path

theorem isRooted_append {front : String} (h : front ≠ "") (back : String) :
    isRooted (front ++ back) = isRooted front := by
  unfold isRooted
  cases hfront : front.toList with
  | nil =>
      exact absurd (String.toList_inj.mp hfront) h
  | cons c s =>
      simp [hfront]

theorem endsInSlash_append (front : String) {back : String} (h : back ≠ "") :
    endsInSlash (front ++ back) = endsInSlash back := by
  have hback : back.toList ≠ [] := fun hnil => h (String.toList_inj.mp hnil)
  unfold endsInSlash
  rw [String.toList_append, List.getLast?_append, List.getLast?_eq_some_getLast hback,
    Option.some_or]

theorem steps_append {front back : String} (h : front = "" ∨ endsInSlash front = true)
    (hback : back ≠ "") : steps (front ++ back) = pieces front ++ steps back := by
  unfold steps
  rw [pieces_append h, endsInSlash_append front hback, List.append_assoc]

theorem endsInSlash_join (directory : String) {path : String} (h : path ≠ "") :
    endsInSlash (join directory path) = endsInSlash path := by
  unfold join
  split <;>
    exact endsInSlash_append _ h

theorem join_ne_empty (directory : String) {path : String} (h : path ≠ "") :
    join directory path ≠ "" := by
  unfold join
  split <;>
    simp [h]

theorem isRooted_join_pathOf (names : List String) (path : String) :
    isRooted (join (pathOf true names) path) = true := by
  have hroot : isRooted (pathOf true names) = true :=
    (isRooted_append (by decide) _).trans rfl
  have hne : pathOf true names ≠ "" := by
    simp [pathOf]
  unfold join
  split
  · rw [isRooted_append hne, hroot]
  · rw [String.append_assoc, isRooted_append hne, hroot]

/-!
# Names in a directory
-/

/-- Whether an entry may have a text as its name. -/
structure IsName (name : String) : Prop where
  nonempty : name ≠ ""
  one : '/' ∉ name.toList
  not_dot : name ≠ "."
  not_up : name ≠ ".."

theorem pieces_of_isName {name : String} (h : IsName name) : pieces name = [name] := by
  have hne : name.toList ≠ [] := fun hnil => h.nonempty (String.toList_inj.mp hnil)
  unfold pieces
  rw [splitAtEach_of_not_mem h.one]
  simp [hne]

theorem pieces_intercalate {names : List String} (h : ∀ name ∈ names, IsName name) :
    pieces ("/".intercalate names) = names := by
  induction names with
  | nil =>
      rfl
  | cons name names ih =>
      have hname := pieces_of_isName (h name List.mem_cons_self)
      have hnames := ih fun name hmem => h name (List.mem_cons_of_mem _ hmem)
      cases names with
      | nil =>
          rw [String.intercalate_singleton, hname]
      | cons name' names =>
          rw [String.intercalate_cons_cons, pieces_slash_append, hname, hnames]
          rfl

theorem pieces_pathOf {names : List String} (h : ∀ name ∈ names, IsName name) :
    pieces (pathOf true names) = names := by
  have hroot : pieces ("/" ++ "/".intercalate names) = pieces ("/".intercalate names) :=
    pieces_append (Or.inr rfl) _
  exact hroot.trans (pieces_intercalate h)

namespace Store

/-!
# Walks over spellings
-/

section Walks

variable {s : Store} {follow : Place → List String → Except OsError Found}

/-- A walk stays in a directory at a dot, and elsewhere it fails at any step. -/
theorem advance_insert_dot (place : Place) (front : List String) {back : List String}
    (hfollow : ∀ place front,
      follow place (front ++ "." :: back) = follow place (front ++ back)) (hback : back ≠ []) :
    s.advance follow place (front ++ "." :: back) = s.advance follow place (front ++ back) := by
  induction front generalizing place with
  | nil =>
      by_cases hplace : s.isDirectory place = true
      · exact advance_dot hplace
      · rcases List.exists_cons_of_ne_nil hback with ⟨step, rest, rfl⟩
        rw [List.nil_append, List.nil_append, advance, advance, if_pos hplace, if_pos hplace]
  | cons step front ih =>
      -- With or without the dot, this step is not the last one, which alone may be missing.
      have hdotted : front ++ "." :: back ≠ [] := by simp
      have hplain : front ++ back ≠ [] := by simp [hback]
      have hlink : ∀ place target,
          follow place (steps target ++ (front ++ "." :: back)) =
            follow place (steps target ++ (front ++ back)) := by
        intro place target
        rw [← List.append_assoc, hfollow, List.append_assoc]
      simp only [List.cons_append, advance, ih, hlink, if_neg hdotted, if_neg hplain]

theorem walk_insert_dot (links : Nat) (place : Place) (front : List String)
    {back : List String} (hback : back ≠ []) :
    s.walk links place (front ++ "." :: back) = s.walk links place (front ++ back) := by
  induction links generalizing place front with
  | zero =>
      exact advance_insert_dot place front (fun _ _ => rfl) hback
  | succ links ih =>
      exact advance_insert_dot place front ih hback

theorem advance_names (place : Place) {names : List String}
    (hnames : ∀ name ∈ names, IsName name)
    (hplaces : ∀ place', place' <+: place ++ names → s.isDirectory place' = true)
    (rest : List String) :
    s.advance follow place (names ++ rest) = s.advance follow (place ++ names) rest := by
  induction names generalizing place with
  | nil =>
      rw [List.nil_append, List.append_nil]
  | cons name names ih =>
      have hname := hnames name List.mem_cons_self
      have hplace := hplaces place (List.prefix_append _ _)
      rw [List.append_cons] at hplaces
      have hnext := hplaces (place ++ [name]) (List.prefix_append _ _)
      rw [List.cons_append, advance_directory hplace hname.not_dot hname.not_up
        (isDirectory_iff.mp hnext), List.append_cons place name names]
      exact ih _ (fun name hmem => hnames name (List.mem_cons_of_mem _ hmem)) hplaces

/-- Directories are walked through without following links. -/
theorem walk_names (links : Nat) {names : List String} (hnames : ∀ name ∈ names, IsName name)
    (hplaces : ∀ place, place <+: names → s.isDirectory place = true) (rest : List String) :
    s.walk links [] (names ++ rest) = s.walk links names rest := by
  cases links with
  | zero =>
      exact advance_names [] hnames hplaces rest
  | succ links =>
      exact advance_names [] hnames hplaces rest

end Walks

/-!
# Spellings that lead to the same place
-/

/-- The current directory is named by its place: no link leads to it. -/
structure CanonicalCurrent (s : Store) : Prop where
  names : ∀ name ∈ s.current, IsName name
  directories : ∀ place, place <+: s.current → s.isDirectory place = true

/-- Two spellings of a path, of which the second has a dot before a name, a slash doubled or
the current directory in front. -/
inductive Respelled (s : Store) : String → String → Prop where
  | dot (front back : String) (hfront : front = "" ∨ endsInSlash front = true)
      (hback : back ≠ "" ∧ isRooted back = false) :
      Respelled s (front ++ back) (front ++ "./" ++ back)
  | slash (front back : String) : Respelled s (front ++ "/" ++ back) (front ++ "//" ++ back)
  | current (path : String) (hpath : path ≠ "" ∧ isRooted path = false) :
      Respelled s path (join (pathOf true s.current) path)

/-- Paths are alike to the store if walks on them end alike, and so do their names. -/
theorem resolve_of_walk {s : Store} {path path' : String} (hpath : path ≠ "")
    (hpath' : path' ≠ "")
    (hwalk : s.walk linkLimit (s.origin path) (steps path) =
      s.walk linkLimit (s.origin path') (steps path'))
    (hnames : s.absoluteNames path = s.absoluteNames path') :
    s.resolve path = s.resolve path' := by
  rw [resolve, resolve, locate, locate, find, find, if_neg hpath, if_neg hpath', if_neg hpath,
    if_neg hpath', hwalk, hnames]

theorem origin_of_isRooted {s : Store} {path path' : String}
    (h : isRooted path = isRooted path') : s.origin path = s.origin path' := by
  rw [origin, origin, h]

theorem resolve_dot (s : Store) {front back : String}
    (hfront : front = "" ∨ endsInSlash front = true)
    (hback : back ≠ "" ∧ isRooted back = false) :
    s.resolve (front ++ back) = s.resolve (front ++ "./" ++ back) := by
  have hdot : endsInSlash (front ++ "./") = true := endsInSlash_append front (by decide)
  have hpieces : pieces (front ++ "./") = pieces front ++ ["."] := pieces_append hfront "./"
  have horigin : s.origin (front ++ back) = s.origin (front ++ "./" ++ back) := by
    apply origin_of_isRooted
    by_cases hempty : front = ""
    · subst hempty
      rw [String.empty_append, hback.2, String.empty_append, isRooted_append (by decide)]
      rfl
    · rw [isRooted_append hempty, String.append_assoc, isRooted_append hempty]
  apply resolve_of_walk
  · simp [hback.1]
  · simp
  · rw [steps_append hfront hback.1, steps_append (Or.inr hdot) hback.1, hpieces,
      List.append_assoc, List.singleton_append, horigin,
      walk_insert_dot _ _ _ (steps_ne_nil hback.1)]
  · rw [absoluteNames, absoluteNames, names, names, pieces_append hfront,
      pieces_append (Or.inr hdot), hpieces, horigin]
    simp [List.filter_append]

theorem resolve_slash (s : Store) (front back : String) :
    s.resolve (front ++ "/" ++ back) = s.resolve (front ++ "//" ++ back) := by
  have hslashes : front ++ "//" ++ back = front ++ "/" ++ ("/" ++ back) := by
    change front ++ ("/" ++ "/") ++ back = _
    simp only [String.append_assoc]
  have hpieces : pieces (front ++ "/" ++ back) = pieces (front ++ "//" ++ back) := by
    rw [hslashes, pieces_slash_append, pieces_slash_append, pieces_append (Or.inr rfl)]
    rfl
  have horigin : s.origin (front ++ "/" ++ back) = s.origin (front ++ "//" ++ back) := by
    apply origin_of_isRooted
    have hfront : front ++ "/" ≠ "" := by
      simp
    rw [hslashes, isRooted_append hfront, isRooted_append hfront]
  have hend : endsInSlash (front ++ "/" ++ back) = endsInSlash (front ++ "//" ++ back) := by
    by_cases hempty : back = ""
    · subst hempty
      rw [String.append_empty, String.append_empty, endsInSlash_append front (by decide),
        endsInSlash_append front (by decide)]
      rfl
    · rw [endsInSlash_append _ hempty, endsInSlash_append _ hempty]
  apply resolve_of_walk
  · simp
  · simp
  · rw [steps, steps, horigin, hpieces, hend]
  · rw [absoluteNames, absoluteNames, names, names, horigin, hpieces]

theorem resolve_current {s : Store} (hcurrent : s.CanonicalCurrent) {path : String}
    (hpath : path ≠ "" ∧ isRooted path = false) :
    s.resolve path = s.resolve (join (pathOf true s.current) path) := by
  have hpieces : pieces (join (pathOf true s.current) path) = s.current ++ pieces path := by
    rw [pieces_join, pieces_pathOf hcurrent.names]
  have hend : endsInSlash (join (pathOf true s.current) path) = endsInSlash path :=
    endsInSlash_join _ hpath.1
  have hsteps : steps (join (pathOf true s.current) path) = s.current ++ steps path := by
    rw [steps, steps, hpieces, hend, List.append_assoc]
  have horigin : s.origin path = s.current := by
    rw [origin, hpath.2]
    rfl
  have horigin' : s.origin (join (pathOf true s.current) path) = [] := by
    rw [origin, isRooted_join_pathOf]
    rfl
  have hnames : s.current.filter (· ≠ ".") = s.current := by
    apply List.filter_eq_self.mpr
    intro name hname
    exact decide_eq_true (hcurrent.names name hname).not_dot
  apply resolve_of_walk hpath.1
  · exact join_ne_empty _ hpath.1
  · rw [horigin, horigin', hsteps, walk_names linkLimit hcurrent.names hcurrent.directories]
  · rw [absoluteNames, absoluteNames, horigin, horigin', names, names, hpieces,
      List.filter_append, hnames, List.nil_append]

theorem resolve_of_respelled {s : Store} (hcurrent : s.CanonicalCurrent) {path path' : String}
    (h : Relation.EqvGen s.Respelled path path') : s.resolve path = s.resolve path' := by
  induction h with
  | rel path path' hstep =>
      cases hstep with
      | dot front back hfront hback =>
          exact resolve_dot s hfront hback
      | slash front back =>
          exact resolve_slash s front back
      | current path hpath =>
          exact resolve_current hcurrent hpath
  | refl path =>
      rfl
  | symm path path' _ ih =>
      exact ih.symm
  | trans path between path' _ _ ih₁ ih₂ =>
      exact ih₁.trans ih₂

theorem resolve_eq_none_iff {s : Store} {path : String} : s.resolve path = none ↔ path = "" := by
  unfold resolve
  split
  next h =>
    exact iff_of_true rfl h
  next h =>
    refine iff_of_false ?_ h
    split <;>
      exact Option.some_ne_none _

end Store
end Files

namespace HeaderScope

open Files

/-- The header is the same file under all its spellings, and so is what is compared with it. -/
theorem covers_of_respelled {files : Store} (hcurrent : files.CanonicalCurrent)
    {header header' file file' : String} (hfile : file ≠ "")
    (hheaders : Relation.EqvGen files.Respelled header header')
    (hfiles : Relation.EqvGen files.Respelled file file') (includer includer' : Option String) :
    (HeaderScope.mk files header).covers (some file) includer =
      (HeaderScope.mk files header').covers (some file') includer' := by
  have hresolve := Store.resolve_of_respelled hcurrent hfiles
  have hfile' : file' ≠ "" := by
    intro h
    rw [Store.resolve_eq_none_iff.mpr h, Store.resolve_eq_none_iff] at hresolve
    exact hfile hresolve
  have hkept : ∀ f : String, f ≠ "" → (some f).filter (· ≠ "") = some f := by
    intro f hf
    simp [hf]
  unfold covers
  rw [hkept file hfile, hkept file' hfile']
  simp only [isHeader, hresolve, Store.resolve_of_respelled hcurrent hheaders]

/-- The header through a link and under its absolute path, and as a file without the link. -/
theorem covers_of_respelled_link :
    let files : Store :=
      ⟨[(["w"], .directory), (["w", "i"], .directory), (["w", "i", "a.h"], .file ""),
        (["w", "l"], .link "./i")], ["w"]⟩
    (HeaderScope.mk files "l/a.h").covers (some "i/a.h") none =
      (HeaderScope.mk files "/w/l//a.h").covers (some "i/./a.h") (some "b.h") := by
  intro files
  have hcurrent : files.CanonicalCurrent := by
    constructor
    · intro name hname
      rcases List.mem_singleton.mp hname with rfl
      exact ⟨by decide, by decide, by decide, by decide⟩
    · intro place hplace
      rcases List.prefix_cons_iff.mp hplace with rfl | ⟨names, rfl, hnames⟩
      · rfl
      · rw [List.prefix_nil.mp hnames]
        rfl
  have hslash : files.Respelled "l/a.h" "l//a.h" :=
    .slash "l" "a.h"
  have habsolute : files.Respelled "l//a.h" "/w/l//a.h" := by
    have hjoin : join (pathOf true files.current) "l//a.h" = "/w/l//a.h" := by
      decide +kernel
    rw [← hjoin]
    exact .current "l//a.h" ⟨by decide, by decide⟩
  have hdot : files.Respelled "i/a.h" "i/./a.h" :=
    .dot "i/" "a.h" (Or.inr rfl) ⟨by decide, by decide⟩
  exact covers_of_respelled hcurrent (by decide) (.trans _ _ _ (.rel _ _ hslash)
    (.rel _ _ habsolute)) (.rel _ _ hdot) none (some "b.h")

end HeaderScope
end HeaderBinding
