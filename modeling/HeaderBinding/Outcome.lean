/-!
# Outcomes

A computation that came to a result did so in each of its parts.
-/

namespace HeaderBinding

theorem bind_eq_ok {x : Except ε α} {f : α → Except ε β} {b : β} (h : x >>= f = .ok b) :
    ∃ a, x = .ok a ∧ f a = .ok b := by
  cases x with
  | error e =>
      cases h
  | ok a =>
      exact ⟨a, rfl, h⟩

theorem map_eq_ok {x : Except ε α} {f : α → β} {b : β} (h : x.map f = .ok b) :
    ∃ a, x = .ok a ∧ f a = b := by
  cases x with
  | error e =>
      cases h
  | ok a =>
      exact ⟨a, rfl, Except.ok.inj h⟩

theorem mapError_eq_ok {x : Except ε α} {f : ε → ε'} {a : α} (h : x.mapError f = .ok a) :
    x = .ok a := by
  cases x with
  | error e =>
      cases h
  | ok b =>
      exact congrArg Except.ok (Except.ok.inj h)

theorem eq_ok_of_toOption {x : Except ε α} {a : α} (h : x.toOption = some a) : x = .ok a := by
  cases x with
  | error e =>
      cases h
  | ok b =>
      exact congrArg Except.ok (Option.some.inj h)

theorem exists_ok_of_toOption {x : Except ε α} (h : x.toOption.isSome = true) :
    ∃ a, x = .ok a := by
  cases x with
  | error e =>
      cases h
  | ok a =>
      exact ⟨a, rfl⟩

theorem exists_mapM_ok {f : α → Except ε β} (items : List α)
    (hf : ∀ a ∈ items, ∃ b, f a = .ok b) : ∃ results, items.mapM f = .ok results := by
  induction items with
  | nil =>
      exact ⟨[], rfl⟩
  | cons a items ih =>
      rcases List.forall_mem_cons.mp hf with ⟨⟨b, hb⟩, hrest⟩
      rcases ih hrest with ⟨results, hresults⟩
      refine ⟨b :: results, ?_⟩
      rw [List.mapM_cons, hb, hresults]
      rfl

/-- Where it is known what each item results in, the list of results is known. -/
theorem eq_map_of_mapM {f : α → Except ε β} {g : α → β} (items : List α) {results : List β}
    (hf : ∀ a ∈ items, ∀ b, f a = .ok b → b = g a) (h : items.mapM f = .ok results) :
    results = items.map g := by
  induction items generalizing results with
  | nil =>
      cases h
      rfl
  | cons a items ih =>
      rw [List.mapM_cons] at h
      rcases bind_eq_ok h with ⟨b, hb, h⟩
      rcases bind_eq_ok h with ⟨rest, hrest, h⟩
      cases h
      rw [hf a List.mem_cons_self b hb,
        ih (fun a ha => hf a (List.mem_cons_of_mem _ ha)) hrest, List.map_cons]

end HeaderBinding
