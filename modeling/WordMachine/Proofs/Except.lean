/-!
# Computations that may fail

Two computations one after the other succeed exactly if both do, and fail where the first of them
to fail does. The lemmas take such a computation apart and put it together.
-/

namespace WordMachine

section Bind

variable {ε α β : Type} {first : Except ε α} {second : α → Except ε β} {value : α} {error : ε}

/-- A computation of two parts succeeds only if both parts do. -/
theorem exists_of_bind_eq_ok {result : β} (h : first >>= second = .ok result) :
    ∃ value, first = .ok value ∧ second value = .ok result := by
  cases first with
  | error error => cases h
  | ok value => exact ⟨value, rfl, h⟩

/-- A computation of two parts fails in the first part or in the second. -/
theorem exists_of_bind_eq_error (h : first >>= second = .error error) :
    first = .error error ∨ ∃ value, first = .ok value ∧ second value = .error error := by
  cases first with
  | error found =>
    obtain rfl := Except.error.inj h
    exact .inl rfl
  | ok value => exact .inr ⟨value, rfl, h⟩

/-- A computation whose first part succeeds goes on with the second. -/
theorem bind_of_eq_ok (h : first = .ok value) : first >>= second = second value := by
  rw [h]
  rfl

/-- A computation whose first part fails fails. -/
theorem bind_of_eq_error (h : first = .error error) : first >>= second = .error error := by
  rw [h]
  rfl

end Bind

end WordMachine
