import Mathlib.Logic.Basic

/-!
# Outcomes

When a computation that can fail returns a value.
-/

namespace Scenery

variable {ε ε' α β : Type} {x : Except ε α}

theorem bind_eq_ok {f : α → Except ε β} {b : β} :
    (x >>= f) = .ok b ↔ ∃ a, x = .ok a ∧ f a = .ok b := by
  cases x <;> simp [bind, Except.bind]

theorem map_eq_ok {f : α → β} {b : β} : x.map f = .ok b ↔ ∃ a, x = .ok a ∧ f a = b := by
  cases x <;> simp [Except.map]

theorem mapError_eq_ok {f : ε → ε'} {a : α} : x.mapError f = .ok a ↔ x = .ok a := by
  constructor
  · intro h
    cases x <;> cases h
    rfl
  · rintro rfl
    rfl

end Scenery
