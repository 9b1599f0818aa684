import HeaderBinding.Event

/-!
# Reporting on the way

A step comes to a value and may report something on the way. Where one step follows another,
so do their reports.
-/

namespace HeaderBinding

structure Logged (α : Type) where
  events : List Event
  value : α

namespace Logged

instance : Monad Logged where
  pure a := ⟨[], a⟩
  bind x f := ⟨x.events ++ (f x.value).events, (f x.value).value⟩

def report (e : Event) : Logged Unit :=
  ⟨[e], ()⟩

/-- Takes steps one after the other. -/
def all (steps : List (Logged α)) : Logged (List α) :=
  ⟨steps.flatMap events, steps.map value⟩

@[simp]
theorem value_pure (a : α) : (pure a : Logged α).value = a :=
  rfl

@[simp]
theorem events_pure (a : α) : (pure a : Logged α).events = [] :=
  rfl

@[simp]
theorem value_bind (x : Logged α) (f : α → Logged β) : (x >>= f).value = (f x.value).value :=
  rfl

@[simp]
theorem events_bind (x : Logged α) (f : α → Logged β) :
    (x >>= f).events = x.events ++ (f x.value).events :=
  rfl

@[simp]
theorem value_all (steps : List (Logged α)) : (all steps).value = steps.map value :=
  rfl

@[simp]
theorem events_all (steps : List (Logged α)) : (all steps).events = steps.flatMap events :=
  rfl

@[simp]
theorem events_report (e : Event) : (report e).events = [e] :=
  rfl

end Logged
end HeaderBinding
