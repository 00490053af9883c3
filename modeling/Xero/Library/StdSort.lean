import Mathlib.Data.List.Sort

/-! Sorting by a comparator: what the standard library needs of it, and what is known of the result.
-/
namespace Xero.Library
variable {α β : Type}

/-- A strict weak order, as std::sort demands. -/
structure StrictWeak (lt : α → α → Bool) : Prop where
  irrefl : ∀ a, lt a a=false
  trans : ∀ a b c, lt a b → lt b c → lt a c
  incomp : ∀ a b c, lt a b=false → lt b c=false → lt a c=false

namespace StrictWeak
variable {lt nx : α → α → Bool}

lemma of_key [LinearOrder β] (key : α → β) (hl : ∀ a b, lt a b=decide (key a<key b)) :
    StrictWeak lt := by
  refine ⟨fun a => by simp [hl],fun a b c ha hb => ?_,fun a b c ha hb => ?_⟩
  · simp only [hl,decide_eq_true_eq] at ha hb ⊢
    exact ha.trans hb
  · simp only [hl,decide_eq_false_iff_not,not_lt] at ha hb ⊢
    exact hb.trans ha

lemma byKey [LinearOrder β] (key : α → β) (h : StrictWeak nx)
    (hl : ∀ a b, lt a b=if key a≠key b then decide (key a<key b) else nx a b) : StrictWeak lt := by
  refine ⟨fun a => by simpa [hl] using h.irrefl a,fun a b c ha hb => ?_,fun a b c ha hb => ?_⟩
  · rw [hl] at ha hb ⊢
    by_cases h1 : key a=key b <;> by_cases h2 : key b=key c
    · simp only [h1,h2,ne_eq,not_true_eq_false,if_false] at ha hb ⊢
      exact h.trans a b c ha hb
    · simpa [h1,h2] using hb
    · simpa [h1,← h2] using ha
    · simp only [h1,h2,ne_eq,not_false_eq_true,if_true,decide_eq_true_eq] at ha hb
      have hac := ha.trans hb
      simpa [hac.ne] using hac
  · rw [hl] at ha hb ⊢
    by_cases h1 : key a=key b <;> by_cases h2 : key b=key c
    · simp only [h1,h2,ne_eq,not_true_eq_false,if_false] at ha hb ⊢
      exact h.incomp a b c ha hb
    · simpa [h1,h2] using hb
    · simpa [h1,← h2] using ha
    · simp only [h1,h2,ne_eq,not_false_eq_true,if_true,decide_eq_false_iff_not,not_lt] at ha hb
      have hc := (lt_of_le_of_ne hb (Ne.symm h2)).trans (lt_of_le_of_ne ha (Ne.symm h1))
      simp [hc.ne',hc.le]
end StrictWeak

structure StdSort (α : Type) where
  sort : (α → α → Bool) → List α → List α
  perm : ∀ {lt}, StrictWeak lt → ∀ l, (sort lt l).Perm l
  sorted : ∀ {lt}, StrictWeak lt → ∀ l, (sort lt l).Pairwise fun a b => lt b a=false

def StdSort.merge : StdSort α where
  sort := fun lt l => l.mergeSort fun a b => !lt b a
  perm := fun _ l => List.mergeSort_perm l _
  sorted := fun {lt} h l => by
    have hle : ∀ a b, (!lt b a) ↔ lt b a=false := by simp
    refine (List.pairwise_mergeSort (fun a b c hab hbc => ?_) (fun a b => ?_) l).imp fun hab =>
      (hle _ _).mp hab
    · rw [hle] at hab hbc ⊢
      exact h.incomp c b a hbc hab
    · cases hba : lt b a with
      | false => simp
      | true =>
        cases hab : lt a b with
        | false => simp
        | true =>
          have hself := h.trans a b a hab hba
          rw [h.irrefl] at hself
          cases hself
end Xero.Library
