import HeaderBinding.Text.Order

/-!
# Lists in the order of names

The order of names by their bytes is a strict total order. Sorting by it is stable, and so
what is left of the reversed entries of a name is the last one of them.
-/

namespace HeaderBinding
namespace Text

/-!
# The order of names
-/

theorem utf8_injective {a b : String} (h : utf8 a = utf8 b) : a = b := by
  unfold utf8 at h
  rw [String.toUTF8_eq_toByteArray, String.toUTF8_eq_toByteArray] at h
  apply String.toByteArray_inj.mp
  exact ByteArray.ext (Array.toList_inj.mp h)

theorem bytes_lt_or_gt {a b : List UInt8} (h : a ≠ b) : a < b ∨ b < a := by
  induction a generalizing b with
  | nil =>
      cases b with
      | nil =>
          exact absurd rfl h
      | cons y b =>
          exact Or.inl (List.nil_lt_cons y b)
  | cons x a ih =>
      cases b with
      | nil =>
          exact Or.inr (List.nil_lt_cons x a)
      | cons y b =>
          rw [List.cons_lt_cons_iff, List.cons_lt_cons_iff]
          by_cases hxy : x = y
          · subst hxy
            have hab : a ≠ b := by
              intro hab
              exact h (by rw [hab])
            rcases ih hab with hlt | hgt
            · exact Or.inl (Or.inr ⟨rfl, hlt⟩)
            · exact Or.inr (Or.inr ⟨rfl, hgt⟩)
          · rcases UInt8.lt_or_lt_of_ne hxy with hlt | hgt
            · exact Or.inl (Or.inl hlt)
            · exact Or.inr (Or.inl hgt)

theorem bytesBefore_iff {a b : String} : bytesBefore a b = true ↔ utf8 a < utf8 b := by
  unfold bytesBefore
  exact decide_eq_true_iff

theorem utf8_lt_trans {a b c : String} (hab : utf8 a < utf8 b) (hbc : utf8 b < utf8 c) :
    utf8 a < utf8 c :=
  List.lt_trans hab hbc

theorem ne_of_utf8_lt {a b : String} (h : utf8 a < utf8 b) : a ≠ b := by
  rintro rfl
  exact List.lt_irrefl _ h

theorem utf8_lt_of_not {a b : String} (hne : a ≠ b) (h : ¬utf8 a < utf8 b) :
    utf8 b < utf8 a := by
  have hbytes : utf8 a ≠ utf8 b := fun heq => hne (utf8_injective heq)
  rcases bytes_lt_or_gt hbytes with hlt | hgt
  · exact absurd hlt h
  · exact hgt

/-!
# Sorting by name
-/

/-- A list whose names strictly ascend. -/
def Ascending (name : α → String) (xs : List α) : Prop :=
  xs.Pairwise fun x y => utf8 (name x) < utf8 (name y)

/-- A list whose names ascend, some of them several times. -/
def Ordered (name : α → String) (xs : List α) : Prop :=
  xs.Pairwise fun x y => utf8 (name x) ≤ utf8 (name y)

theorem insertByName_append {name : α → String} {x : α} {front back : List α}
    (hfront : ∀ y ∈ front, utf8 (name y) < utf8 (name x))
    (hback : ∀ y ∈ back, utf8 (name x) ≤ utf8 (name y)) :
    insertByName name x (front ++ back) = front ++ x :: back := by
  induction front with
  | nil =>
      cases back with
      | nil =>
          rfl
      | cons y back =>
          have hy : ¬bytesBefore (name y) (name x) = true := by
            rw [bytesBefore_iff]
            exact hback y List.mem_cons_self
          exact if_neg hy
  | cons y front ih =>
      rcases List.forall_mem_cons.mp hfront with ⟨hy, hfront⟩
      rw [List.cons_append, insertByName, if_pos (bytesBefore_iff.mpr hy), ih hfront,
        List.cons_append]

/-- Whether an entry may stand in front of another one. -/
def notBehind (name : α → String) (x y : α) : Bool :=
  utf8 (name x) ≤ utf8 (name y)

theorem notBehind_trans {name : α → String} {x y z : α} (hxy : notBehind name x y = true)
    (hyz : notBehind name y z = true) : notBehind name x z = true :=
  decide_eq_true (List.le_trans (of_decide_eq_true hxy) (of_decide_eq_true hyz))

theorem notBehind_total (name : α → String) (x y : α) :
    (notBehind name x y || notBehind name y x) = true := by
  unfold notBehind
  rw [Bool.or_eq_true, decide_eq_true_iff, decide_eq_true_iff]
  exact List.le_total _ _

theorem ordered_mergeSort (name : α → String) (xs : List α) :
    Ordered name (xs.mergeSort (notBehind name)) := by
  apply List.Pairwise.imp of_decide_eq_true
  exact List.pairwise_mergeSort (fun _ _ _ => notBehind_trans) (notBehind_total name) xs

/-- Sorting by name is the stable sort of the library. -/
theorem sortByName_eq_mergeSort (name : α → String) (xs : List α) :
    sortByName name xs = xs.mergeSort (notBehind name) := by
  induction xs with
  | nil =>
      rw [List.mergeSort_nil]
      rfl
  | cons x xs ih =>
      rcases List.mergeSort_cons (fun _ _ _ => notBehind_trans) (notBehind_total name) x xs with
        ⟨front, back, hsorted, hrest, hfront⟩
      have hordered := ordered_mergeSort name (x :: xs)
      rw [hsorted] at hordered ⊢
      change insertByName name x (sortByName name xs) = _
      rw [ih, hrest]
      apply insertByName_append
      · intro y hy
        have hnot := hfront y hy
        rw [Bool.not_eq_true', notBehind, decide_eq_false_iff_not] at hnot
        exact List.not_le.mp hnot
      · intro y hy
        have hbehind := (List.pairwise_append.mp hordered).2.1
        exact (List.pairwise_cons.mp hbehind).1 y hy

theorem ordered_sortByName (name : α → String) (xs : List α) :
    Ordered name (sortByName name xs) := by
  rw [sortByName_eq_mergeSort]
  exact ordered_mergeSort name xs

theorem perm_sortByName (name : α → String) (xs : List α) : (sortByName name xs).Perm xs := by
  rw [sortByName_eq_mergeSort]
  exact List.mergeSort_perm xs (notBehind name)

theorem ascending_sortByName_of_nodup {name : α → String} {xs : List α}
    (h : (xs.map name).Nodup) : Ascending name (sortByName name xs) := by
  have hnodup := (((perm_sortByName name xs).map name).nodup_iff).mpr h
  have hdistinct : (sortByName name xs).Pairwise fun x y => name x ≠ name y :=
    List.pairwise_map.mp hnodup
  apply List.Pairwise.imp₂ _ hdistinct (ordered_sortByName name xs)
  intro x y hne hle
  exact utf8_lt_of_not hne.symm hle

theorem filter_insertByName (name : α → String) (s : String) (x : α) (xs : List α) :
    (insertByName name x xs).filter (name · = s) = (x :: xs).filter (name · = s) := by
  induction xs with
  | nil =>
      rfl
  | cons y xs ih =>
      unfold insertByName
      split
      next hbefore =>
        have hne : name y ≠ name x := ne_of_utf8_lt (bytesBefore_iff.mp hbefore)
        by_cases hy : name y = s
        · have hx : name x ≠ s := fun hx => hne (hy.trans hx.symm)
          rw [List.filter_cons_of_pos (by simpa using hy), ih]
          rw [List.filter_cons_of_neg (by simpa using hx),
            List.filter_cons_of_neg (by simpa using hx),
            List.filter_cons_of_pos (by simpa using hy)]
        · rw [List.filter_cons_of_neg (by simpa using hy), ih, List.filter_cons, List.filter_cons,
            List.filter_cons_of_neg (by simpa using hy)]
      next =>
        rfl

/-- Entries of one name stay in their order. -/
theorem filter_sortByName (name : α → String) (s : String) (xs : List α) :
    (sortByName name xs).filter (name · = s) = xs.filter (name · = s) := by
  induction xs with
  | nil =>
      rfl
  | cons x xs ih =>
      change (insertByName name x (sortByName name xs)).filter _ = _
      rw [filter_insertByName, List.filter_cons, List.filter_cons, ih]

/-!
# Leaving out repeated names
-/

theorem dedupFrom_subset {name : α → String} {x y : α} {xs : List α}
    (h : y ∈ dedupFrom name x xs) : y ∈ x :: xs := by
  induction xs generalizing x with
  | nil =>
      exact h
  | cons z xs ih =>
      unfold dedupFrom at h
      split at h
      · rcases List.mem_cons.mp (ih h) with hyx | hys
        · exact List.mem_cons.mpr (Or.inl hyx)
        · exact List.mem_cons_of_mem x (List.mem_cons_of_mem z hys)
      · rcases List.mem_cons.mp h with hyx | hys
        · exact List.mem_cons.mpr (Or.inl hyx)
        · exact List.mem_cons_of_mem x (ih hys)

/-- In an ordered list, what is behind an entry of another name is behind the first one. -/
theorem Ordered.lt_of_ne {name : α → String} {x y z : α} {xs : List α}
    (h : Ordered name (x :: y :: xs)) (hne : name y ≠ name x) (hz : z ∈ y :: xs) :
    utf8 (name x) < utf8 (name z) := by
  rcases List.pairwise_cons.mp h with ⟨hx, hrest⟩
  have hxy : utf8 (name x) < utf8 (name y) :=
    utf8_lt_of_not hne (hx y List.mem_cons_self)
  rcases List.mem_cons.mp hz with hzy | hzs
  · rw [hzy]
    exact hxy
  · have hyz := (List.pairwise_cons.mp hrest).1 z hzs
    exact Decidable.byContradiction fun hnot => List.le_trans hyz (List.not_lt.mp hnot) hxy

theorem ascending_dedupFrom {name : α → String} {x : α} {xs : List α}
    (h : Ordered name (x :: xs)) : Ascending name (dedupFrom name x xs) := by
  induction xs generalizing x with
  | nil =>
      exact List.pairwise_singleton _ x
  | cons y xs ih =>
      unfold dedupFrom
      split
      · exact ih (h.sublist ((List.sublist_cons_self y xs).cons_cons x))
      next hne =>
        apply List.pairwise_cons.mpr
        refine ⟨?_, ih (List.pairwise_cons.mp h).2⟩
        intro z hz
        exact h.lt_of_ne hne (dedupFrom_subset hz)

/-- Of the entries of a name the first one stays. -/
theorem mem_dedupFrom {name : α → String} {x z : α} {xs : List α} (h : Ordered name (x :: xs)) :
    z ∈ dedupFrom name x xs ↔ ((x :: xs).filter (name · = name z)).head? = some z := by
  induction xs generalizing x with
  | nil =>
      by_cases hx : name x = name z
      · rw [List.filter_cons_of_pos (by simpa using hx)]
        simp [dedupFrom, eq_comm]
      · rw [List.filter_cons_of_neg (by simpa using hx)]
        simp only [dedupFrom, List.mem_singleton, List.filter_nil, List.head?_nil]
        constructor
        · rintro rfl
          exact absurd rfl hx
        · rintro ⟨⟩
  | cons y xs ih =>
      unfold dedupFrom
      split
      next hsame =>
        rw [ih (h.sublist ((List.sublist_cons_self y xs).cons_cons x))]
        by_cases hx : name x = name z
        · rw [List.filter_cons_of_pos (by simpa using hx),
            List.filter_cons_of_pos (by simpa using hx)]
          rfl
        · have hy : name y ≠ name z := fun hy => hx (hsame.symm.trans hy)
          rw [List.filter_cons_of_neg (by simpa using hx),
            List.filter_cons_of_neg (by simpa using hx),
            List.filter_cons_of_neg (by simpa using hy)]
      next hne =>
        rw [List.mem_cons, ih (List.pairwise_cons.mp h).2]
        by_cases hx : name x = name z
        · have hfirst : ((x :: y :: xs).filter (name · = name z)).head? = some x := by
            rw [List.filter_cons_of_pos (by simpa using hx), List.head?_cons]
          rw [hfirst, Option.some_inj]
          constructor
          · rintro (hzx | hz)
            · exact hzx.symm
            · have hmem := List.mem_of_mem_head? hz
              have hlt := h.lt_of_ne hne (List.mem_filter.mp hmem).1
              exact absurd hx (ne_of_utf8_lt hlt)
          · intro hxz
            exact Or.inl hxz.symm
        · have hothers : (x :: y :: xs).filter (name · = name z) =
              (y :: xs).filter (name · = name z) :=
            List.filter_cons_of_neg (by simpa using hx)
          rw [hothers]
          constructor
          · rintro (rfl | hz)
            · exact absurd rfl hx
            · exact hz
          · exact Or.inr

theorem ascending_dedupByName {name : α → String} {xs : List α} (h : Ordered name xs) :
    Ascending name (dedupByName name xs) := by
  cases xs with
  | nil =>
      exact List.Pairwise.nil
  | cons x xs =>
      exact ascending_dedupFrom h

theorem mem_dedupByName {name : α → String} {x : α} {xs : List α} (h : Ordered name xs) :
    x ∈ dedupByName name xs ↔ (xs.filter (name · = name x)).head? = some x := by
  cases xs with
  | nil =>
      simp [dedupByName]
  | cons y xs =>
      exact mem_dedupFrom h

/-!
# The last entry of each name
-/

/-- `x` is the last entry of its name in `xs`. -/
def IsLastNamed (name : α → String) (x : α) (xs : List α) : Prop :=
  ∃ front back, xs = front ++ x :: back ∧ ∀ y ∈ back, name y ≠ name x

theorem isLastNamed_cons {name : α → String} {x y : α} {xs : List α} :
    IsLastNamed name x (y :: xs) ↔
      IsLastNamed name x xs ∨ x = y ∧ ∀ z ∈ xs, name z ≠ name x := by
  constructor
  · rintro ⟨front, back, hsplit, hback⟩
    cases front with
    | nil =>
        cases hsplit
        exact Or.inr ⟨rfl, hback⟩
    | cons z front =>
        cases hsplit
        exact Or.inl ⟨front, back, rfl, hback⟩
  · rintro (⟨front, back, rfl, hback⟩ | ⟨rfl, hback⟩)
    · exact ⟨y :: front, back, rfl, hback⟩
    · exact ⟨[], xs, rfl, hback⟩

/-- The last entry of a name is the last one that is left of those with the name. -/
theorem isLastNamed_iff {name : α → String} {x : α} {xs : List α} :
    IsLastNamed name x xs ↔ (xs.filter (name · = name x)).getLast? = some x := by
  induction xs with
  | nil =>
      simp [IsLastNamed]
  | cons y xs ih =>
      have hnone : (∀ z ∈ xs, name z ≠ name x) ↔ xs.filter (name · = name x) = [] := by
        simp
      rw [isLastNamed_cons, ih, hnone]
      by_cases hyx : name y = name x
      · rw [List.filter_cons_of_pos (by simpa using hyx), List.getLast?_cons]
        cases hlast : (xs.filter (name · = name x)).getLast? with
        | none =>
            rw [List.getLast?_eq_none_iff.mp hlast, Option.getD_none, Option.some_inj]
            constructor
            · rintro (hnone | ⟨rfl, _⟩)
              · cases hnone
              · rfl
            · rintro rfl
              exact Or.inr ⟨rfl, rfl⟩
        | some z =>
            have hfull : xs.filter (name · = name x) ≠ [] :=
              List.ne_nil_of_mem (List.mem_of_getLast? hlast)
            rw [Option.getD_some]
            constructor
            · rintro (hz | ⟨_, hempty⟩)
              · exact hz
              · exact absurd hempty hfull
            · exact Or.inl
      · rw [List.filter_cons_of_neg (by simpa using hyx)]
        constructor
        · rintro (hlast | ⟨rfl, _⟩)
          · exact hlast
          · exact absurd rfl hyx
        · exact Or.inl

theorem ascending_sortNamed (name : α → String) (xs : List α) :
    Ascending name (sortNamed name xs) :=
  ascending_dedupByName (ordered_sortByName name xs.reverse)

theorem mem_sortNamed {name : α → String} {xs : List α} {y : α} :
    y ∈ sortNamed name xs ↔ IsLastNamed name y xs := by
  unfold sortNamed
  rw [mem_dedupByName (ordered_sortByName name xs.reverse), filter_sortByName,
    List.filter_reverse, List.head?_reverse, isLastNamed_iff]

/-- Every name has a last entry. -/
theorem exists_isLastNamed {name : α → String} {xs : List α} {x : α} (h : x ∈ xs) :
    ∃ y, IsLastNamed name y xs ∧ name y = name x := by
  induction xs generalizing x with
  | nil =>
      cases h
  | cons z xs ih =>
      by_cases hlater : ∃ w ∈ xs, name w = name x
      · rcases hlater with ⟨w, hw, hwx⟩
        rcases ih hw with ⟨y, hlast, hyw⟩
        exact ⟨y, isLastNamed_cons.mpr (Or.inl hlast), hyw.trans hwx⟩
      · have hnone : ∀ w ∈ xs, name w ≠ name x := fun w hw hwx => hlater ⟨w, hw, hwx⟩
        rcases List.mem_cons.mp h with hxz | hxs
        · exact ⟨x, isLastNamed_cons.mpr (Or.inr ⟨hxz, hnone⟩), rfl⟩
        · exact absurd rfl (hnone x hxs)

/-- An ascending list has one entry of each name. -/
theorem eq_of_name_eq {name : α → String} {xs : List α} {x y : α} (h : Ascending name xs)
    (hx : x ∈ xs) (hy : y ∈ xs) (hname : name x = name y) : x = y := by
  induction xs with
  | nil =>
      cases hx
  | cons z xs ih =>
      rcases List.pairwise_cons.mp h with ⟨hz, hxs⟩
      rcases List.mem_cons.mp hx with hxz | hxs'
      · rcases List.mem_cons.mp hy with hyz | hys
        · exact hxz.trans hyz.symm
        · rw [hxz] at hname
          exact absurd hname (ne_of_utf8_lt (hz y hys))
      · rcases List.mem_cons.mp hy with hyz | hys
        · rw [hyz] at hname
          exact absurd hname.symm (ne_of_utf8_lt (hz x hxs'))
        · exact ih hxs hxs' hys

theorem least_of_find? {name : α → String} {p : α → Bool} {xs : List α} {x : α}
    (h : Ascending name xs) (hfind : xs.find? p = some x) :
    ∀ y ∈ xs, p y = true → name y = name x ∨ utf8 (name x) < utf8 (name y) := by
  rcases List.find?_eq_some_iff_append.mp hfind with ⟨_, front, back, hsplit, hfront⟩
  subst hsplit
  intro y hy hpy
  rcases List.mem_append.mp hy with hbefore | hafter
  · have hnot := hfront y hbefore
    rw [hpy] at hnot
    cases hnot
  · rcases List.mem_cons.mp hafter with hyx | hback
    · exact Or.inl (congrArg name hyx)
    · have hlater := (List.pairwise_append.mp h).2.1
      exact Or.inr ((List.pairwise_cons.mp hlater).1 y hback)

/-- The first entry with a property is the least one. -/
theorem find?_eq_some_iff_of_ascending {name : α → String} {p : α → Bool} {xs : List α} {x : α}
    (h : Ascending name xs) :
    xs.find? p = some x ↔ x ∈ xs ∧ p x = true ∧
      ∀ y ∈ xs, p y = true → name y = name x ∨ utf8 (name x) < utf8 (name y) := by
  constructor
  · intro hfind
    exact ⟨List.mem_of_find?_eq_some hfind, List.find?_some hfind, least_of_find? h hfind⟩
  · intro hleast
    rcases hleast with ⟨hx, hpx, hothers⟩
    rcases Option.isSome_iff_exists.mp (List.find?_isSome.mpr ⟨x, hx, hpx⟩) with ⟨y, hfind⟩
    have hy := List.mem_of_find?_eq_some hfind
    have hname : name y = name x := by
      rcases hothers y hy (List.find?_some hfind) with heq | hlt
      · exact heq
      · rcases least_of_find? h hfind x hx hpx with heq | hgt
        · exact heq.symm
        · exact absurd rfl (ne_of_utf8_lt (utf8_lt_trans hlt hgt))
    rw [hfind, eq_of_name_eq h hy hx hname]

/-- Ascending lists with the same entries are the same. -/
theorem eq_of_ascending {name : α → String} {xs ys : List α} (hxs : Ascending name xs)
    (hys : Ascending name ys) (h : ∀ x, x ∈ xs ↔ x ∈ ys) : xs = ys := by
  have hnodup : ∀ {zs : List α}, Ascending name zs → zs.Nodup := by
    intro zs hzs
    apply List.Pairwise.imp _ hzs
    rintro x y hxy rfl
    exact ne_of_utf8_lt hxy rfl
  apply List.Perm.eq_of_pairwise _ hxs hys
  · exact (List.perm_ext_iff_of_nodup (hnodup hxs) (hnodup hys)).mpr h
  · intro x y _ _ hxy hyx
    exact absurd rfl (ne_of_utf8_lt (utf8_lt_trans hxy hyx))

/-- Sorting sees of a list only which entries each name has, and in which order. -/
theorem sortNamed_congr {name : α → String} {xs ys : List α}
    (h : ∀ s, xs.filter (name · = s) = ys.filter (name · = s)) :
    sortNamed name xs = sortNamed name ys := by
  apply eq_of_ascending (ascending_sortNamed name xs) (ascending_sortNamed name ys)
  intro x
  rw [mem_sortNamed, mem_sortNamed, isLastNamed_iff, isLastNamed_iff, h]

end Text
end HeaderBinding
