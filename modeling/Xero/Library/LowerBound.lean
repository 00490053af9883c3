import Mathlib.Order.Basic

/-! std::lower_bound over positions: the first one that is not below what is sought, when those
below come first. -/
namespace Xero.Library
def lowerBound (below : Nat → Bool) (first len : Nat) : Nat :=
  if len=0 then first
  else if below (first+len/2) then lowerBound below (first+len/2+1) (len-len/2-1)
  else lowerBound below first (len/2)
termination_by len

lemma lowerBound_spec {b : Nat → Bool} {f len : Nat} (hp : ∀ i j, i≤j → j<f+len → b j → b i) :
    f≤lowerBound b f len ∧ lowerBound b f len≤f+len ∧ (∀ i, f ≤ i → i<lowerBound b f len → b i) ∧
    (∀ i, lowerBound b f len ≤ i → i<f+len → b i=false) := by
  fun_induction lowerBound b f len with
  | case1 f =>
      exact ⟨Nat.le_refl _,Nat.le_add_right _ _,fun _ _ _ => by omega,fun _ _ _ => by omega⟩
  | case2 f len hln hm ih =>
    obtain ⟨hl,hh,hb,ha⟩ := ih fun i j hij hj => hp i j hij (by omega)
    refine ⟨by omega,by omega,fun i hi hlt => ?_,fun i hi hlt => ha i hi (by omega)⟩
    by_cases hle : i≤f+len/2
    · exact hp i _ hle (by omega) hm
    · exact hb i (by omega) hlt
  | case3 f len hln hm ih =>
    obtain ⟨hl,hh,hb,ha⟩ := ih fun i j hij hj => hp i j hij (by omega)
    refine ⟨hl,by omega,hb,fun i hi hlt => ?_⟩
    by_cases hle : i<f+len/2
    · exact ha i hi hle
    · cases hi' : b i with
      | false => rfl
      | true => exact absurd (hp _ i (by omega) hlt hi') hm
end Xero.Library
