/-!
# Division of a text

A text is taken apart into maximal runs of characters of one kind and the single
characters of the other kind between them.
-/

namespace HeaderBinding
namespace Text

@[elab_as_elim]
theorem spanInduction (p : Char → Bool) {motive : List Char → Prop} (nil : motive [])
    (other : ∀ c s, p c = false → motive s → motive (c :: s))
    (span : ∀ w s, w ≠ [] → (∀ c ∈ w, p c = true) → (∀ c ∈ s.head?, p c = false) →
      motive s → motive (w ++ s))
    (s : List Char) : motive s := by
  generalize hn : s.length = n
  induction n using Nat.strongRecOn generalizing s with
  | ind n ih =>
      cases s with
      | nil =>
          exact nil
      | cons c s =>
          by_cases hc : p c = true
          · have hsplit := List.takeWhile_append_dropWhile (p := p) (l := c :: s)
            rw [← hsplit]
            apply span
            · simp [hc]
            · intro d hd
              exact List.all_eq_true.mp List.all_takeWhile d hd
            · intro d hd
              have hhead := List.head?_dropWhile_not p (c :: s)
              rw [Option.mem_def] at hd
              rw [hd] at hhead
              simpa using hhead
            · have hlt : ((c :: s).dropWhile p).length < n := by
                have hle := (List.dropWhile_sublist p (l := s)).length_le
                rw [List.dropWhile_cons_of_pos hc, ← hn, List.length_cons]
                omega
              exact ih _ hlt _ rfl
          · rw [Bool.not_eq_true] at hc
            have hlt : s.length < n := by
              rw [← hn, List.length_cons]
              omega
            exact other c s hc (ih _ hlt s rfl)

end Text
end HeaderBinding
