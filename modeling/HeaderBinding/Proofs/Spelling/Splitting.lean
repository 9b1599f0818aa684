import HeaderBinding.Proofs.Spelling.Matching
import HeaderBinding.Proofs.Text.Omission

/-!
# Splitting any text

A text need not spell a type. Whatever it is, splitting it comes to an end and takes no
slice that is not there, and it fails exactly if the text does not end in a group. Otherwise
the own list is a group of the text, and nothing but blanks is lost around it.
-/

namespace HeaderBinding
namespace Spelling

open Text

/-!
# Cuts by byte positions
-/

theorem slice_inside (front : List Char) (g : Group) :
    slice (front ++ g.text) (byteLength front + 1) (byteLength (front ++ g.text) - 1) =
      .ok (inside g.text) := by
  have htext : front ++ g.text = (front ++ ['(']) ++ g.content ++ [')'] := by
    simp [Group.text]
  have hopen : byteLength ['('] = 1 := by
    decide
  have hclose : byteLength [')'] = 1 := by
    decide
  have h := slice_append (front ++ ['(']) g.content [')']
  rw [byteLength_append front, hopen] at h
  rw [g.inside_text, htext, byteLength_append _ [')'], hclose, Nat.add_sub_cancel]
  exact h

theorem declarator?_eq (s : List Char) :
    declarator? s = .ok ((lastGroup? s).map fun r => (byteLength r.1, inside r.2)) := by
  unfold declarator?
  rw [matchingOpen?_eq]
  cases h : lastGroup? s with
  | none =>
      rfl
  | some r =>
      obtain ⟨front, group⟩ := r
      obtain ⟨g, rfl, rfl⟩ := lastGroup?_eq_some_iff.mp h
      simp only [Option.map_some, slice_inside]
      rfl

/-- All slices that a cut takes are there. -/
theorem cut?_eq (s : List Char) :
    cut? s = .ok ((lastGroup? s).map fun r =>
      ⟨r.1, r.2, (lastGroup? (trimEnd r.1)).map fun d => (byteLength d.1, inside d.2)⟩) := by
  unfold cut?
  rw [matchingOpen?_eq]
  cases h : lastGroup? s with
  | none =>
      rfl
  | some r =>
      obtain ⟨head, params⟩ := r
      obtain rfl := append_of_lastGroup? h
      simp only [Option.map_some, slice_front, slice_back, declarator?_eq]
      rfl

theorem groups_of_cut? {s head params : List Char} {declarator : Option (Nat × List Char)}
    (h : cut? s = .ok (some ⟨head, params, declarator⟩)) :
    lastGroup? s = some (head, params) ∧
      declarator = (lastGroup? (trimEnd head)).map fun d => (byteLength d.1, inside d.2) := by
  rw [cut?_eq] at h
  obtain ⟨_, hparams, heq⟩ := Option.map_eq_some_iff.mp (Except.ok.inj h)
  cases heq
  exact ⟨hparams, rfl⟩

theorem group_of_cut? {s head params declarator : List Char} {start : Nat}
    (h : cut? s = .ok (some ⟨head, params, some (start, declarator)⟩)) :
    ∃ front group, lastGroup? (trimEnd head) = some (front, group) ∧ start = byteLength front ∧
      declarator = inside group := by
  obtain ⟨⟨front, group⟩, hgroup, heq⟩ := Option.map_eq_some_iff.mp (groups_of_cut? h).2.symm
  cases heq
  exact ⟨front, group, hgroup, rfl, rfl⟩

/-!
# Splitting by byte positions
-/

/-- Splitting goes on for finitely many times. -/
theorem acc_inner (s : List Char) : Acc Inner s :=
  Subrelation.accessible length_lt_of_inner ((measure List.length).wf.apply s)

theorem splitSlices?_eq (s : List Char) : splitSlices? s = .ok (splitFunction? s) := by
  fun_induction splitSlices? s with
  | case1 s fault hcut =>
      rw [cut?_eq] at hcut
      cases hcut
  | case2 s hcut =>
      rw [cut?_eq] at hcut
      have hnone := Option.map_eq_none_iff.mp (Except.ok.inj hcut)
      rw [splitFunction?_of_none hnone]
  | case3 s head params hcut =>
      obtain ⟨hparams, hnone⟩ := groups_of_cut? hcut
      rw [splitFunction?_of_plain hparams (Option.map_eq_none_iff.mp hnone.symm)]
  | case4 s head params start declarator hcut fault hfault ih =>
      rw [hfault] at ih
      cases ih
  | case5 s head params start declarator hcut hinside ih =>
      obtain ⟨front, group, hgroup, rfl, rfl⟩ := group_of_cut? hcut
      rw [hinside] at ih
      rw [splitFunction?_of_groups (groups_of_cut? hcut).1 hgroup, ← Except.ok.inj ih]
  | case6 s head params start declarator hcut returned own hinside ih =>
      obtain ⟨front, group, hgroup, rfl, rfl⟩ := group_of_cut? hcut
      have hfront : slice head 0 (byteLength front) = .ok front := by
        obtain ⟨gap, hgap⟩ := exists_trimEnd head
        rw [hgap, ← append_of_lastGroup? hgroup, List.append_assoc]
        exact slice_front front (group ++ gap.text)
      rw [hinside] at ih
      rw [splitFunction?_of_groups (groups_of_cut? hcut).1 hgroup, ← Except.ok.inj ih, hfront]
      rfl

/-!
# The parts
-/

theorem splitFunction?_eq_none_iff {s : List Char} :
    splitFunction? s = none ↔ lastGroup? (trimEnd s) = none := by
  fun_cases splitFunction? s with
  | case1 hparams =>
      simp [hparams]
  | case2 head params hparams _ =>
      simp [hparams]
  | case3 head params hparams front group _ _ =>
      simp [hparams]
  | case4 head params hparams front group _ returned own _ =>
      simp [hparams]

/-- `PartsOf s returned own`: `own` is a group in `s`, and `returned` is what stands around
it, without some of the runs of blanks. -/
def PartsOf (s returned own : List Char) : Prop :=
  ∃ (group : Group) (before behind before' behind' : List Char),
    own = group.text ∧ s = before ++ own ++ behind ∧ returned = before' ++ behind' ∧
      OmitsRuns before before' ∧ OmitsRuns behind behind'

/-- The own list is the last group. -/
theorem partsOf_last {s head params : List Char}
    (hparams : lastGroup? (trimEnd s) = some (head, params)) :
    PartsOf s (trimEnd head) params := by
  obtain ⟨group, rfl, htrimmed⟩ := lastGroup?_eq_some_iff.mp hparams
  obtain ⟨back, hback⟩ := exists_trimEnd s
  have hs : s = head ++ group.text ++ back.text := by
    rw [← htrimmed]
    exact hback
  exact ⟨group, head, back.text, trimEnd head, [], rfl, hs, (List.append_nil _).symm,
    omitsRuns_trimEnd head, omitsRuns_blanks back⟩

/-- The own list is inside of the group before the last one. -/
theorem partsOf_declarator {s head params front group returned own : List Char}
    (hparams : lastGroup? (trimEnd s) = some (head, params))
    (hgroup : lastGroup? (trimEnd head) = some (front, group))
    (h : PartsOf (inside group) returned own) :
    PartsOf s (front ++ '(' :: returned ++ ')' :: params) own := by
  obtain ⟨outer, rfl, htrimmed⟩ := lastGroup?_eq_some_iff.mp hparams
  obtain ⟨declarator, rfl, hhead⟩ := lastGroup?_eq_some_iff.mp hgroup
  obtain ⟨own, before, behind, before', behind', rfl, hinside, rfl, hbefore, hbehind⟩ := h
  obtain ⟨gap, hgap⟩ := exists_trimEnd head
  obtain ⟨back, hback⟩ := exists_trimEnd s
  have hopen : isBlank '(' = false := by
    decide
  have hclose : isBlank ')' = false := by
    decide
  have hs : s = front ++ '(' :: before ++ own.text ++
      (behind ++ ')' :: (gap.text ++ (outer.text ++ back.text))) := by
    rw [declarator.inside_text] at hinside
    rw [hback, htrimmed, hgap, hhead, Group.text, hinside]
    simp [List.append_assoc]
  -- Blanks go in two places behind the declarator: before and behind the outer list.
  have houter : OmitsRuns (outer.text ++ back.text) outer.text := by
    have h := omitsRuns_trimEnd (outer.text ++ back.text)
    rwa [trimEnd_append_of_blank back.blank, ← List.nil_append outer.text,
      Group.trimEnd_append_text] at h
  have hlist : OmitsRuns (gap.text ++ (outer.text ++ back.text)) outer.text := by
    apply houter.lost gap
    intro c hc
    cases hc
    exact hopen
  have hreturned : front ++ '(' :: (before' ++ behind') ++ ')' :: outer.text =
      front ++ '(' :: before' ++ (behind' ++ ')' :: outer.text) := by
    simp [List.append_assoc]
  exact ⟨own, front ++ '(' :: before, behind ++ ')' :: (gap.text ++ (outer.text ++ back.text)),
    front ++ '(' :: before', behind' ++ ')' :: outer.text, rfl, hs, hreturned,
    (OmitsRuns.refl front).append_cons hopen hbefore, hbehind.append_cons hclose hlist⟩

theorem partsOf_splitFunction? {s returned own : List Char}
    (h : splitFunction? s = some (returned, own)) : PartsOf s returned own := by
  fun_induction splitFunction? s generalizing returned own with
  | case1 s hnone =>
      cases h
  | case2 s head params hparams hnone =>
      cases h
      exact partsOf_last hparams
  | case3 s head params hparams front group hgroup hinside ih =>
      cases h
      exact partsOf_last hparams
  | case4 s head params hparams front group hgroup returned own hinside ih =>
      cases h
      exact partsOf_declarator hparams hgroup (ih hinside)

/-- Splitting comes to an end on any text, and all slices that it takes are there. There are
no parts exactly if the text does not end in a parenthesis, or in one that none matches. -/
theorem splitSlices?_total (s : List Char) :
    Acc Inner s ∧
      splitSlices? s = .ok (splitFunction? s) ∧
      (splitFunction? s = none ↔
        (trimEnd s).getLast? ≠ some ')' ∨
          ¬∃ (front : List Char) (group : Group), trimEnd s = front ++ group.text) ∧
      ∀ returned own, splitFunction? s = some (returned, own) → PartsOf s returned own := by
  refine ⟨acc_inner s, splitSlices?_eq s, ?_, fun returned own => partsOf_splitFunction?⟩
  rw [splitFunction?_eq_none_iff]
  constructor
  · intro hnone
    exact Or.inr (lastGroup?_eq_none_iff.mp hnone)
  · rintro (hlast | hgroup)
    · exact lastGroup?_eq_none hlast
    · exact lastGroup?_eq_none_iff.mpr hgroup

/-- A text with a parenthesis that none matches, characters of two bytes, and blanks in four
places around the own list. -/
theorem splitSlices?_total_unbalanced :
    let s := "ä( (*  (ß(x)) ) \t(int, ...)  ".toList
    let returned := "ä( (*)(int, ...)".toList
    let own := "(ß(x))".toList
    splitFunction? s = some (returned, own) ∧ splitSlices? s = .ok (some (returned, own)) ∧
      PartsOf s returned own := by
  intro s returned own
  have hsplit : splitFunction? s = some (returned, own) := by
    decide +kernel
  obtain ⟨-, hslices, -, hparts⟩ := splitSlices?_total s
  exact ⟨hsplit, hslices.trans (congrArg Except.ok hsplit), hparts returned own hsplit⟩

end Spelling
end HeaderBinding
