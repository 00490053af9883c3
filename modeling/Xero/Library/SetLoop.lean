import Xero.Library.Ensures
import Mathlib.Data.Finset.Sort

/-! Loops over the elements of a finite set in increasing order, and the invariant rule for them. -/
namespace Xero.Library
open List Finset
variable {α σ ε : Type} [LinearOrder α]

def forEach (S : Finset α) (body : α → σ → Except ε σ) (s : σ) : Except ε σ :=
  (S.sort).foldlM (fun s x => body x s) s

variable {alw : ε → Prop} {body : α → σ → Except ε σ} {s : σ}

lemma Ensures.foldlM {Inv : Finset α → σ → Prop} (todo : List α) (done : Finset α)
    (hst : Inv done s) (hnd : todo.Nodup) (hn : ∀ x∈todo, x∉done)
    (hs : ∀ (done' : Finset α) (x : α) (t : σ), x∈todo → x∉done' →
      done'⊆done ∪ todo.toFinset → Inv done' t → Ensures alw (Inv (insert x done')) (body x t)) :
    Ensures alw (Inv (done ∪ todo.toFinset)) (todo.foldlM (fun s x => body x s) s) := by
  induction todo generalizing done s with
  | nil => simpa using hst
  | cons x todo ih =>
    obtain ⟨hx,hnd⟩ := nodup_cons.mp hnd
    have hu : insert x done ∪ todo.toFinset=done ∪ (x::todo).toFinset := by
      ext y
      simp only [mem_union,mem_insert,toFinset_cons]
      tauto
    rw [← hu]
    refine Ensures.bind (hs done x s (by simp) (hn x (by simp)) subset_union_left hst) ?_
    intro t ht
    refine ih (insert x done) ht hnd ?_ ?_
    · intro y hy
      have hne : y≠x := fun he => hx (he ▸ hy)
      simp [hne,hn y (mem_cons_of_mem x hy)]
    · intro done' y t' hy hyd hsu
      exact hs done' y t' (mem_cons_of_mem x hy) hyd (hu ▸ hsu)

/-- The rule for a loop over a set: the invariant speaks of the elements done so far. -/
lemma Ensures.forEach (Inv : Finset α → σ → Prop) {S : Finset α} (hst : Inv ∅ s)
    (hs : ∀ (done : Finset α) (x : α) (t : σ), x∈S → x∉done → done⊆S → Inv done t →
      Ensures alw (Inv (insert x done)) (body x t)) :
    Ensures alw (Inv S) (forEach S body s) := by
  have h : Ensures alw (Inv (∅ ∪ S.sort.toFinset)) (S.sort.foldlM (fun s x => body x s) s) := by
    refine Ensures.foldlM S.sort ∅ hst (S.sort_nodup _) (by simp) ?_
    simpa using hs
  rw [empty_union,sort_toFinset] at h
  exact h
end Xero.Library
