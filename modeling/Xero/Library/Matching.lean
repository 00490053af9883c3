import Mathlib.Data.List.NodupEquivFin

/-! Matching the elements of a list, in their order, with elements of another one. -/
namespace Xero.Library
open List
variable {α β : Type} {R : α → β → Prop} {a : α} {b : β} {as : List α} {bs : List β}

lemma sublistForall₂_length_le (h : SublistForall₂ R as bs) : as.length≤bs.length := by
  obtain ⟨l,hf,hs⟩ := sublistForall₂_iff.1 h
  exact hf.length_eq.trans_le hs.length_le

lemma sublistForall₂_of_cons (h : SublistForall₂ R (a::as) bs) : SublistForall₂ R as bs := by
  obtain ⟨l,hf,hs⟩ := sublistForall₂_iff.1 h
  cases hf with
  | cons _ hf => exact sublistForall₂_iff.2 ⟨_,hf,(sublist_cons_self _ _).trans hs⟩

/-- Taking the first element that fits loses nothing: the rest can use what comes after it. -/
lemma sublistForall₂_cons_iff [DecidablePred fun x => R x b] : SublistForall₂ R (a::as) (b::bs) ↔
    SublistForall₂ R (if R a b then as else a::as) bs := by
  constructor
  · intro h
    cases h with
    | cons ha h => rwa [if_pos ha]
    | cons_right h =>
      split
      · exact sublistForall₂_of_cons h
      · exact h
  · split
    · rename_i ha
      exact .cons ha
    · exact .cons_right

lemma sublistForall₂_iff_strictMono : SublistForall₂ R as bs ↔
    ∃ pos : Fin as.length → Fin bs.length, StrictMono pos ∧ ∀ i, R (as.get i) (bs.get (pos i)) := by
  rw [sublistForall₂_iff]
  constructor
  · rintro ⟨l,hfo,hs⟩
    obtain ⟨f,hf⟩ := sublist_iff_exists_fin_orderEmbedding_get_eq.1 hs
    obtain ⟨hl,hg⟩ := forall₂_iff_get.1 hfo
    refine ⟨fun i => f (i.cast hl),fun i j hij => f.lt_iff_lt.2 hij,fun i => ?_⟩
    rw [← hf]
    exact hg i i.2 (hl ▸ i.2)
  · rintro ⟨pos,hm,hp⟩
    refine ⟨ofFn fun i => bs.get (pos i),forall₂_iff_get.2 ⟨by simp,fun i hi _ => ?_⟩,?_⟩
    · simpa using hp ⟨i,hi⟩
    · refine sublist_iff_exists_fin_orderEmbedding_get_eq.2
        ⟨.ofStrictMono (fun i => pos (i.cast (by simp))) fun i j hij => hm hij,fun i => ?_⟩
      simp
      rfl
end Xero.Library
