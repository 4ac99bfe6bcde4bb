-- SUMMARY: Taking apart computations that can fail.

/-!
# Computations that can fail

What a step must have given if the steps behind it gave a result, and which error
several steps end with.
-/

namespace JsonText.Except

variable {ε α β : Type}

theorem exists_of_bind_eq_ok {x : Except ε α} {f : α → Except ε β} {b : β}
    (h : x >>= f = .ok b) : ∃ a, x = .ok a ∧ f a = .ok b := by
  cases x with
  | error e => cases h
  | ok a => exact ⟨a, rfl, h⟩

theorem exists_of_map_eq_ok {x : Except ε α} {f : α → β} {b : β} (h : f <$> x = .ok b) :
    ∃ a, x = .ok a ∧ f a = b := by
  cases x with
  | error e => cases h
  | ok a => exact ⟨a, rfl, Except.ok.inj h⟩

/-! ## Errors -/

/-- The error, if there is no result. -/
def error? : Except ε α → Option ε
  | .ok _ => none
  | .error e => some e

theorem error?_eq_some_iff {x : Except ε α} {e : ε} : error? x = some e ↔ x = .error e := by
  cases x <;> simp [error?]

/-- The first step that fails gives the error. -/
theorem error?_bind {x : Except ε α} {f : α → Except ε β} {o : Option ε}
    (h : ∀ a, error? (f a) = o) : error? (x >>= f) = (error? x).or o := by
  cases x with
  | ok a => exact h a
  | error e => rfl

theorem error?_return {x : Except ε α} {f : α → β} : error? (do return f (← x)) = error? x := by
  cases x <;> rfl

theorem error?_map (f : α → β) (x : Except ε α) : error? (f <$> x) = error? x := by
  cases x <;> rfl

end JsonText.Except
