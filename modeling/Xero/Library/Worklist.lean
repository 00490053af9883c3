import Mathlib.Data.Finset.Max

/-! A search along the successors of a finite graph, with a set that waits and a set that has been
seen. It finds what is reachable. -/
namespace Xero.Library
open Relation Finset
variable {α : Type*} [LinearOrder α]

/-- The search: the least waiting element is marked as seen and its unseen successors wait. -/
def explore (next : α → Finset α) : Nat → Finset α → Finset α → Finset α
  | 0, _, seen => seen
  | n+1, stage, seen =>
    if h : stage.Nonempty then
      let it := stage.min' h
      explore next n (stage.erase it ∪ (next it \ insert it seen)) (insert it seen)
    else seen

def Reaches (next : α → Finset α) : α → α → Prop := ReflTransGen fun x y => y∈next x

variable {next : α → Finset α} {stage seen U : Finset α}

/- What is reachable from a seen element has been seen or is reachable from a waiting one. -/
lemma Reaches.seen_or_waiting (hc : ∀ x∈seen, next x⊆seen ∪ stage) {x a : α}
    (hr : Reaches next x a) (hx : x∈seen) : a∈seen ∨ ∃ b∈stage, Reaches next b a := by
  induction hr using ReflTransGen.head_induction_on with
  | refl => exact .inl hx
  | head hxy hy ih =>
    cases mem_union.mp (hc _ hx hxy) with
    | inl hs => exact ih hs
    | inr hst => exact .inr ⟨_,hst,hy⟩

lemma covered_step (it : α) (hc : ∀ x∈seen, next x⊆seen ∪ stage) : ∀ x∈insert it seen,
      next x⊆insert it seen ∪ (stage.erase it ∪ (next it \ insert it seen)) := by
  intro x hx y hy
  by_cases hys : y∈insert it seen
  · exact mem_union_left _ hys
  apply mem_union_right
  cases mem_insert.mp hx with
  | inl he => exact mem_union_right _ (mem_sdiff.mpr ⟨he ▸ hy,hys⟩)
  | inr hs =>
    have hne : y≠it := fun he => hys (he ▸ mem_insert_self ..)
    have hn : y∉seen := fun h => hys (mem_insert_of_mem h)
    have hst := (mem_union.mp (hc x hs hy)).resolve_left hn
    exact mem_union_left _ (mem_erase.mpr ⟨hne,hst⟩)

/-- With enough rounds the search ends with what it had seen and what the waiting elements reach. -/
lemma mem_explore (hn : ∀ x∈U, next x⊆U) (n : Nat) (hs : stage⊆U) (hd : Disjoint stage seen)
    (hc : ∀ x∈seen, next x⊆seen ∪ stage) (hf : (U \ seen).card≤n) (a : α) :
    a∈explore next n stage seen ↔ a∈seen ∨ ∃ b∈stage, Reaches next b a := by
  induction n generalizing stage seen with
  | zero =>
    have he : stage=∅ := by
      have hno : U \ seen=∅ := card_eq_zero.mp (Nat.le_zero.mp hf)
      rw [← subset_empty,← hno]
      intro x hx
      exact mem_sdiff.mpr ⟨hs hx,disjoint_left.mp hd hx⟩
    simp [explore,he]
  | succ n ih =>
    by_cases h : stage.Nonempty
    case neg => simp [explore,not_nonempty_iff_eq_empty.mp h]
    generalize hi : stage.min' h=it
    have hm : it∈stage := hi ▸ stage.min'_mem h
    have hne : it∉seen := disjoint_left.mp hd hm
    have hst : explore next (n+1) stage seen=
        explore next n (stage.erase it ∪ (next it \ insert it seen)) (insert it seen) := by
      simp only [explore,dif_pos h,hi]
    have hfe : (U \ insert it seen).card≤n := by
      have hl : (U \ insert it seen).card<(U \ seen).card := by
        apply card_lt_card
        refine ⟨sdiff_subset_sdiff subset_rfl (subset_insert ..),fun hsb => ?_⟩
        have hin := hsb (mem_sdiff.mpr ⟨hs hm,hne⟩)
        exact (mem_sdiff.mp hin).2 (mem_insert_self ..)
      omega
    have hs' : stage.erase it ∪ (next it \ insert it seen)⊆U :=
      union_subset ((erase_subset ..).trans hs) (sdiff_subset.trans (hn it (hs hm)))
    have hd' : Disjoint (stage.erase it ∪ (next it \ insert it seen)) (insert it seen) := by
      rw [disjoint_union_left,disjoint_insert_right]
      refine ⟨⟨notMem_erase it stage,?_⟩,sdiff_disjoint⟩
      exact disjoint_of_subset_left (erase_subset ..) hd
    have hc' := covered_step it hc
    rw [hst,ih hs' hd' hc' hfe]
    constructor
    · rintro (ha | ⟨b,hb,hr⟩)
      · cases mem_insert.mp ha with
        | inl heq => exact .inr ⟨it,hm,heq ▸ .refl⟩
        | inr hse => exact .inl hse
      · cases mem_union.mp hb with
        | inl ho => exact .inr ⟨b,mem_of_mem_erase ho,hr⟩
        | inr hsu => exact .inr ⟨it,hm,.head (mem_sdiff.mp hsu).1 hr⟩
    · rintro (ha | ⟨b,hb,hr⟩)
      · exact .inl (mem_insert_of_mem ha)
      · by_cases heq : b=it
        · exact Reaches.seen_or_waiting hc' hr (heq ▸ mem_insert_self ..)
        · exact .inr ⟨b,mem_union_left _ (mem_erase.mpr ⟨heq,hb⟩),hr⟩
end Xero.Library
