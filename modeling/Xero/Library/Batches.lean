import Mathlib.Data.List.Basic

/-! A list of items written out in batches. A batch is closed as soon as it is found too
large, and the last one also carries a closing part. -/
namespace Xero.Library
open List
variable {E W : Type*}

/-- The batches, when `cur` is what the open batch holds already. -/
def splitBatches (full : List W → Bool) (writes : E → List W) (last : List W) :
    List W → List E → List (List W)
  | cur, [] => [cur++last]
  | cur, e::es =>
    if full (cur++writes e) then (cur++writes e)::splitBatches full writes last [] es
    else splitBatches full writes last (cur++writes e) es

variable (fu : List W → Bool) (wr : E → List W) (la : List W)

lemma splitBatches_ne_nil (cur : List W) (es : List E) : splitBatches fu wr la cur es≠[] := by
  induction es generalizing cur with
  | nil => simp [splitBatches]
  | cons e es ih =>
    unfold splitBatches
    split
    · simp
    · exact ih (cur++wr e)

lemma flatten_splitBatches (cur : List W) (es : List E) :
    (splitBatches fu wr la cur es).flatten=cur++es.flatMap wr++la := by
  induction es generalizing cur with
  | nil => simp [splitBatches]
  | cons e es ih =>
    unfold splitBatches
    split
    · rw [flatten_cons,ih]
      simp
    · rw [ih]
      simp

lemma flatten_take_splitBatches (cur : List W) (es : List E) (k : Nat) (hk : k≠0)
    (hl : k<(splitBatches fu wr la cur es).length) :
    ∃ es', es' <+: es ∧
      ((splitBatches fu wr la cur es).take k).flatten=cur++es'.flatMap wr := by
  induction es generalizing cur k with
  | nil =>
    simp only [splitBatches,length_singleton] at hl
    omega
  | cons e es ih =>
    unfold splitBatches at hl ⊢
    split
    · rename_i hf
      rw [if_pos hf,length_cons] at hl
      obtain ⟨j,rfl⟩ := Nat.exists_eq_succ_of_ne_zero hk
      rw [take_succ_cons,flatten_cons]
      by_cases hj : j=0
      · subst hj
        exact ⟨[e],by simp,by simp⟩
      · obtain ⟨es',hp,he⟩ := ih [] j hj (by omega)
        refine ⟨e::es',cons_prefix_cons.mpr ⟨rfl,hp⟩,?_⟩
        rw [he]
        simp
    · rename_i hf
      rw [if_neg hf] at hl
      obtain ⟨es',hp,he⟩ := ih (cur++wr e) k hk hl
      refine ⟨e::es',cons_prefix_cons.mpr ⟨rfl,hp⟩,?_⟩
      rw [he,flatMap_cons,append_assoc]
end Xero.Library
