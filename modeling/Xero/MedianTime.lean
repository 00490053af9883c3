import Xero.ProofOfWork

/-! The median time past never goes backwards along a chain whose blocks are each later than the
median time past of their parent: the window gains an entry above the median and loses at most
one. -/
namespace Xero
open List HeaderChain
variable {chain : HeaderChain}

/- In a sorted list an entry is at least `m` when enough entries are. -/
lemma le_sorted_iff {s : List Int} (hs : s.Pairwise (·≤·)) {k : Nat} (hk : k < s.length) (m : Int) :
    m ≤ s[k] ↔ s.length-k ≤ s.countP (m≤·) := by
  constructor
  · intro hm
    have ha : (s.drop k).countP (m≤·)=(s.drop k).length := by
      rw [countP_eq_length]
      intro x hx
      obtain ⟨j,hj,rfl⟩ := mem_drop_iff_getElem.1 hx
      exact decide_eq_true (hm.trans (hs.rel_get_of_le (a := ⟨k,hk⟩) (b :=
          ⟨k+j,by omega⟩) (by simp)))
    rw [length_drop] at ha
    rw [← ha]
    exact (drop_sublist k s).countP_le
  · intro hc
    by_contra hm
    have hn : (s.take (k+1)).countP (m≤·)=0 := by
      rw [countP_eq_zero]
      intro x hx
      obtain ⟨j,hj,rfl⟩ := mem_take_iff_getElem.1 hx
      have := hs.rel_get_of_le (a := ⟨j,by omega⟩) (b := ⟨k,hk⟩) (by simp; omega)
      simp at this ⊢
      omega
    have hr := countP_le_length (p := (m≤·)) (l := s.drop (k+1))
    rw [← take_append_drop (k+1) s,countP_append,hn,take_append_drop] at hc
    rw [length_drop] at hr
    omega

/- The times of the last `n` blocks, newest first. -/
def HeaderChain.times (n : Nat) (chain : HeaderChain) : List Int :=
  (chain.take n).map BlockHeader.getBlockTime

lemma length_times (n : Nat) (chain : HeaderChain) : (chain.times n).length=min n chain.length := by
  simp [times]

lemma le_median_iff (hn : chain≠[]) (m : Int) : m ≤ chain.getMedianTimePast ↔
      min 11 chain.length-min 11 chain.length/2≤(chain.times 11).countP (m≤·) := by
  have hp := length_pos_iff.2 hn
  have hl : ((chain.times 11).insertionSort (·≤·)).length=min 11 chain.length := by
    rw [length_insertionSort,length_times]
  have hk : min 11 chain.length/2<((chain.times 11).insertionSort (·≤·)).length := by omega
  have hm : chain.getMedianTimePast =
      ((chain.times 11).insertionSort (·≤·))[min 11 chain.length/2] := by
    rw [getElem_eq_getD 0,← length_times]
    rfl
  rw [hm,le_sorted_iff (pairwise_insertionSort _ _) hk,hl,(perm_insertionSort _ _).countP_eq]

/- The window keeps ten of its entries; an eleventh counts at most once. -/
lemma countP_times (chain : HeaderChain) (p : Int → Bool) :
    (chain.times 11).countP p≤(chain.times 10).countP
    p+(min 11 chain.length-min 10 chain.length) := by
  have hs : chain.times 11=chain.times 10++((chain.drop 10).take 1).map
      BlockHeader.getBlockTime := by
    rw [times,take_add (i := 10) (j := 1),map_append]
    rfl
  have hl := countP_le_length (p := p) (l := ((chain.drop 10).take 1).map BlockHeader.getBlockTime)
  rw [hs,countP_append]
  simp only [length_map,length_take,length_drop] at hl
  omega

lemma median_step {blk : BlockHeader} (hne : chain≠[])
    (hl : chain.getMedianTimePast<blk.getBlockTime) :
    chain.getMedianTimePast≤getMedianTimePast (blk::chain) := by
  have ho := (le_median_iff hne _).1 (le_refl chain.getMedianTimePast)
  have hk := countP_times chain (chain.getMedianTimePast≤·)
  have hn : times 11 (blk::chain)=blk.getBlockTime::chain.times 10 := rfl
  rw [le_median_iff (cons_ne_nil _ _),hn]
  simp only [countP_cons,decide_eq_true hl.le,if_true,length_cons]
  omega

/-- Each block above the first is later than the median time past of its parent. -/
def HeaderChain.MedianRule (chain : HeaderChain) : Prop :=
  ∀ block pprev, block::pprev <:+ chain → pprev≠[] →
    HeaderChain.getMedianTimePast pprev<block.getBlockTime

theorem medianTimePast_mono (h : chain.MedianRule) :
    ∀ block pprev, block::pprev <:+ chain → pprev≠[] →
      HeaderChain.getMedianTimePast pprev≤HeaderChain.getMedianTimePast (block::pprev) :=
  fun block pprev hs hn => median_step hn (h block pprev hs hn)

theorem medianTimePast_mono_late : HeaderChain.getMedianTimePast [⟨4,30,0⟩,⟨4,20,0⟩] ≤
    HeaderChain.getMedianTimePast [⟨4,41,0⟩,⟨4,30,0⟩,⟨4,20,0⟩] := by
  refine medianTimePast_mono ?_ _ _ (suffix_refl _) (by decide)
  intro _ _ hs hn
  simp only [suffix_cons_iff,cons.injEq,suffix_nil,reduceCtorEq,or_false] at hs
  obtain ⟨rfl,rfl⟩ | ⟨rfl,rfl⟩ | ⟨rfl,rfl⟩ := hs
  · decide
  · decide
  · exact absurd rfl hn
end Xero
