import Mathlib.Algebra.BigOperators.Ring.Finset
import Mathlib.Algebra.Order.BigOperators.Group.Finset
import Mathlib.Algebra.Order.Ring.Int
import Mathlib.Data.Finmap

/-! Weighted counts over the entries of a finite map, and how often a value occurs in a table. Each
changes by what a changed entry contributes. -/
namespace Xero.Library
open Function Finset Finmap
section
variable {K V : Type} [DecidableEq K] {S : Finset K} {m : K → Option V} {f : V → Int} {k : K}

def tally (S : Finset K) (m : K → Option V) (f : V → Int) : Int := ∑ k∈S, (m k).elim 0 f

omit [DecidableEq K] in
lemma tally_congr {m' : K → Option V} (h : ∀ k∈S, (m k).elim 0 f=(m' k).elim 0 f) :
    tally S m f=tally S m' f := sum_congr rfl h

lemma tally_erase_key (hk : k∈S) : tally S m f=(m k).elim 0 f+tally (S.erase k) m f :=
  (add_sum_erase S (fun k => (m k).elim 0 f) hk).symm

lemma tally_update_of_notMem (hk : k∉S) (b : Option V) : tally S (update m k b) f=tally S m f := by
  refine tally_congr fun j hj => ?_
  have hn : j≠k := fun he => hk (he ▸ hj)
  rw [update_of_ne hn]

lemma tally_update (hk : k∈S) (b : Option V) :
    tally S (update m k b) f=tally S m f-(m k).elim 0 f+b.elim 0 f := by
  rw [tally_erase_key hk,tally_update_of_notMem (notMem_erase k S),update_self,
    tally_erase_key (m := m) hk]
  omega

lemma tally_insert (hk : k∉S) (b : V) : tally (insert k S) (update m k (some b)) f=tally
    S m f+f b := by
  rw [tally_erase_key (mem_insert_self k S),erase_insert hk,tally_update_of_notMem hk,update_self]
  exact add_comm ..

omit [DecidableEq K] in
lemma tally_eq_card (p : V → Bool) :
    tally S m (fun v => if p v then 1 else 0)=(S.filter fun k => (m k).elim false p).card := by
  rw [card_filter,Nat.cast_sum]
  refine sum_congr rfl fun k _ => ?_
  cases m k with
  | none => rfl
  | some v => cases hv : p v <;> simp [hv]

def total (m : Finmap fun _ : K => V) (f : V → Int) : Int := tally m.keys (fun k => m.lookup k) f

variable {m : Finmap fun _ : K => V}

lemma total_erase (k : K) : total (m.erase k) f=total m f-(m.lookup k).elim 0 f := by
  have hl : tally (m.keys.erase k) (fun j => (m.erase k).lookup j) f=
      tally (m.keys.erase k) (fun j => m.lookup j) f := by
    refine tally_congr fun j hj => ?_
    rw [lookup_erase_ne (ne_of_mem_erase hj)]
  rw [total,keys_erase,hl]
  by_cases hk : k∈m
  · have hs := tally_erase_key (m := fun j => m.lookup j) (f := f) (mem_keys.mpr hk)
    rw [total]
    omega
  · rw [erase_eq_of_notMem (fun hi => hk (mem_keys.mp hi)),lookup_eq_none.mpr hk]
    exact (sub_zero _).symm

lemma total_insert (k : K) (b : V) : total (m.insert k b) f=total m
    f-(m.lookup k).elim 0 f+f b := by
  have he : total ((m.insert k b).erase k) f=total (m.erase k) f := by
    refine congrArg (fun m' => total m' f) (ext_lookup fun j => ?_)
    by_cases heq : j=k
    · subst heq
      rw [lookup_erase,lookup_erase]
    · rw [lookup_erase_ne heq,lookup_erase_ne heq,lookup_insert_of_ne _ heq]
  rw [total_erase,total_erase,lookup_insert] at he
  simp only [Option.elim_some] at he
  omega

lemma total_nonneg (hf : ∀ b, 0≤f b) : 0≤total m f := by
  refine sum_nonneg fun k _ => ?_
  show 0≤(m.lookup k).elim 0 f
  cases m.lookup k with
  | none => exact le_refl (0 : Int)
  | some b => exact hf b
end
section
variable {I A : Type} [Fintype I] [DecidableEq I] [DecidableEq A] {t : I → A} {i : I} {a b : A}

def occurrences (t : I → A) (a : A) : Nat := (univ.filter fun i => t i=a).card

omit [DecidableEq I] in
lemma occurrences_pos (h : t i=a) : 0<occurrences t a :=
  card_pos.mpr ⟨i,mem_filter.mpr ⟨mem_univ i,h⟩⟩

omit [DecidableEq I] in
lemma occurrences_eq_zero : occurrences t a=0 ↔ ∀ i, t i≠a := by
  simp [occurrences,card_eq_zero,filter_eq_empty_iff]

lemma occurrences_update (a b : A) : (occurrences (update t i b) a : Int)=
    occurrences t a-(if t i=a then 1 else 0)+(if b=a then 1 else 0) := by
  have hs : ∀ t', (occurrences t' a : Int)=
      (if t' i=a then 1 else 0)+∑ j∈univ.erase i, if t' j=a then (1 : Int) else 0 := by
    intro t'
    rw [add_sum_erase _ (fun j => if t' j=a then (1 : Int) else 0) (mem_univ i),
        occurrences,card_filter]
    push_cast
    rfl
  have hr : (∑ j∈univ.erase i, if update t i b j=a then (1 : Int) else 0)=
      ∑ j∈univ.erase i, if t j=a then (1 : Int) else 0 := by
    refine sum_congr rfl fun j hj => ?_
    rw [update_of_ne (ne_of_mem_erase hj)]
  rw [hs (update t i b),hs t,hr,update_self]
  omega

omit [DecidableEq I] in
lemma countP_eq_occurrences {p : List I} (hn : p.Nodup) (ha : ∀ i, i∈p)
    (a : A) : p.countP (fun i => decide (t i=a))=occurrences t a := by
  classical
  rw [List.countP_eq_length_filter,← List.toFinset_card_of_nodup (hn.filter _)]
  refine congrArg card ?_
  ext i
  simp [ha i]
end
end Xero.Library
