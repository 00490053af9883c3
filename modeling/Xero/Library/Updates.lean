import Mathlib.Logic.Function.Basic

/-! Reading a partial map after a key has been set or cleared. -/
namespace Xero.Library
variable {K A : Type*} [DecidableEq K] {f : K → Option A} {k k' : K} {x : A} {b : Option A}

lemma update_eq_some : Function.update f k b k'=some x ↔ k'=k ∧ b=some x ∨ k'≠k ∧ f k'=some x := by
  by_cases h : k'=k
  · simp [h]
  · simp [h]

/-- Where the key was free, what the others have stays. -/
lemma update_of_free (hf : f k=none) (h : f k'=some x) : Function.update f k b k'=some x := by
  refine update_eq_some.mpr (.inr ⟨?_,h⟩)
  rintro rfl
  rw [hf] at h
  cases h
end Xero.Library
