import HeaderBinding.Text.Blank

/-!
# Texts divided by a mark

Where one text is written in two ways around a mark, the parts agree if the mark is the
first or the last of its kind in both.
-/

namespace HeaderBinding
namespace Text

theorem append_cons_inj_of_forall {p : Char → Bool} {front front' back back' : List Char}
    {c c' : Char} (hfront : ∀ d ∈ front, p d = true) (hfront' : ∀ d ∈ front', p d = true)
    (hc : p c = false) (hc' : p c' = false)
    (h : front ++ c :: back = front' ++ c' :: back') :
    front = front' ∧ c :: back = c' :: back' := by
  have hstop : ∀ {xs ys : List Char} {d : Char}, (∀ e ∈ xs, p e = true) → p d = false →
      (xs ++ d :: ys).takeWhile p = xs ∧ (xs ++ d :: ys).dropWhile p = d :: ys := by
    intro xs ys d hxs hd
    rw [List.takeWhile_append_of_pos hxs, List.dropWhile_append_of_pos hxs]
    simp [hd]
  have htake := congrArg (List.takeWhile p) h
  have hdrop := congrArg (List.dropWhile p) h
  rw [(hstop hfront hc).1, (hstop hfront' hc').1] at htake
  rw [(hstop hfront hc).2, (hstop hfront' hc').2] at hdrop
  exact ⟨htake, hdrop⟩

theorem firstMark_inj {front front' back back' : List Char} {mark : Char}
    (hfront : mark ∉ front) (hfront' : mark ∉ front')
    (h : front ++ mark :: back = front' ++ mark :: back') : front = front' ∧ back = back' := by
  have hother : ∀ {xs : List Char}, mark ∉ xs → ∀ d ∈ xs, (d != mark) = true := by
    intro xs hxs d hd
    apply bne_iff_ne.mpr
    rintro rfl
    exact hxs hd
  rcases append_cons_inj_of_forall (p := (· != mark)) (hother hfront) (hother hfront')
    (by simp) (by simp) h with ⟨heq, hback⟩
  exact ⟨heq, (List.cons.inj hback).2⟩

theorem lastMark_inj {front front' back back' : List Char} {mark : Char}
    (hback : mark ∉ back) (hback' : mark ∉ back')
    (h : front ++ mark :: back = front' ++ mark :: back') : front = front' ∧ back = back' := by
  have hreverse := congrArg List.reverse h
  rw [List.reverse_append, List.reverse_append, List.reverse_cons, List.reverse_cons,
    List.append_assoc, List.append_assoc] at hreverse
  rcases firstMark_inj (mt List.mem_reverse.mp hback) (mt List.mem_reverse.mp hback') hreverse
    with ⟨hb, hf⟩
  exact ⟨List.reverse_inj.mp hf, List.reverse_inj.mp hb⟩

end Text
end HeaderBinding
