import Mathlib.Data.Set.Basic

/-! Transformers of maps that force the values of some keys and keep the others. Runs from different
maps can only differ at keys never forced. -/
namespace Xero.Library
variable {K V : Type*} {S T : Set K} {W W' : K → V} {f g : (K → V) → K → V}

/-- `f` gives the keys of `T` their values in `W` and keeps the other keys. -/
structure Overwrites (T : Set K) (W : K → V) (f : (K → V) → K → V) : Prop where
  forced : ∀ M k, k∈T → f M k=W k
  kept : ∀ M k, k∉T → f M k=M k

namespace Overwrites
lemma refl (W : K → V) : Overwrites ∅ W id := ⟨fun _ _ hk => hk.elim,fun _ _ _ => rfl⟩

lemma comp (hf : Overwrites S W f) (hg : Overwrites T W' g) (hW : ∀ k, k∉T → W k=W' k) :
    Overwrites (S ∪ T) W' (fun M => g (f M)) := by
  refine ⟨fun M k hk => ?_,fun M k hk => ?_⟩
  · by_cases hT : k∈T
    · exact hg.forced (f M) k hT
    · rw [hg.kept (f M) k hT,hf.forced M k (hk.resolve_right hT),hW k hT]
  · rw [hg.kept (f M) k (fun h => hk (.inr h)),hf.kept M k (fun h => hk (.inl h))]

/-- From a map that is already right outside `T` the result is all of `W`. -/
lemma eq_of_agree (hf : Overwrites T W f) {M : K → V} (hM : ∀ k, k∉T → M k=W k) : f M=W := by
  funext k
  by_cases hk : k∈T
  · exact hf.forced M k hk
  · rw [hf.kept M k hk,hM k hk]
end Overwrites
end Xero.Library
