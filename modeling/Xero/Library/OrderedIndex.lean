import Mathlib.Data.List.Sort
import Mathlib.Data.List.TakeWhile

/-! The ordered view of a container: its elements sorted by a key. Elements with equal keys may
stand in any order. -/
namespace Xero.Library
open List
variable {α β : Type*} [LinearOrder β] {view : α → β}

/-- A way of listing any collection in the order of its keys. -/
structure OrderedIndex (view : α → β) where
  list : List α → List α
  perm : ∀ L, (list L).Perm L
  sorted : ∀ L, (list L).Pairwise fun a b => view a≤view b

/-- Elements with equal keys keep their order. -/
def OrderedIndex.stable (view : α → β) : OrderedIndex view where
  list := insertionSort fun a b => view a≤view b
  perm := perm_insertionSort _
  sorted := fun L => by
    have : Std.Total fun a b : α => view a≤view b := ⟨fun a b => le_total (view a) (view b)⟩
    have : IsTrans α fun a b => view a≤view b := ⟨fun _ _ _ => le_trans⟩
    exact pairwise_insertionSort _ L

def following (it : α → Bool) (L : List α) : List α := (L.dropWhile fun a => !it a).tail
def preceding (it : α → Bool) (L : List α) : List α := L.takeWhile fun a => !it a

variable {a : α}

lemma split_at (it : α → Bool) {L : List α} (ha : a∈L) (hit : it a) :
    ∃ b, it b ∧ L=preceding it L++b::following it L := by
  induction L with
  | nil => cases ha
  | cons x L ih =>
    by_cases hx : it x
    · exact ⟨x,hx,by simp [preceding,following,hx]⟩
    · have ha' : a∈L := by
        cases ha with
        | head => exact absurd hit hx
        | tail _ h => exact h
      obtain ⟨b,hb,hL⟩ := ih ha'
      refine ⟨b,hb,?_⟩
      have hx' : it x=false := by simpa using hx
      simpa [preceding,following,hx'] using hL

lemma takeWhile_eq_filter (s : α → Bool) {M : List α} (hM : M.Pairwise fun a b => s b → s a) :
    M.takeWhile s=M.filter s := by
  induction M with
  | nil => rfl
  | cons x M ih =>
    obtain ⟨hx,h'⟩ := pairwise_cons.mp hM
    by_cases hs : s x
    · rw [takeWhile_cons_of_pos hs,filter_cons_of_pos hs,ih h']
    · have hn : M.filter s=[] := filter_eq_nil_iff.mpr fun b hb hb' => hs (hx b hb hb')
      rw [takeWhile_cons_of_neg hs,filter_cons_of_neg hs,hn]

namespace OrderedIndex
variable (I : OrderedIndex view) {L : List α} {k : β} {st : α → Bool}

@[simp] lemma mem_list : a∈I.list L ↔ a∈L := (I.perm L).mem_iff

lemma head_le {b : α} (h : (I.list L).head?=some a) (hb : b∈L) : view a≤view b := by
  obtain ⟨M,hM⟩ := head?_eq_some_iff.mp h
  have hs := I.sorted L
  rw [← I.mem_list,hM] at hb
  rw [hM] at hs
  cases hb with
  | head => exact le_rfl
  | tail _ h => exact (pairwise_cons.mp hs).1 b h

lemma le_getLast {b : α} (h : (I.list L).getLast?=some a) (hb : b∈L) : view b≤view a := by
  obtain ⟨M,hM⟩ := getLast?_eq_some_iff.mp h
  have hs := I.sorted L
  rw [← I.mem_list,hM,mem_append] at hb
  rw [hM,pairwise_append] at hs
  cases hb with
  | inl h => exact hs.2.2 b h a mem_cons_self
  | inr h => exact (mem_singleton.mp h) ▸ le_rfl

/-- The elements from the first one on whose key is not below `k`. -/
def lowerBound (L : List α) (k : β) : List α := (I.list L).dropWhile fun a => view a<k

lemma takeWhile_append_lowerBound (L : List α) (k : β) :
    (I.list L).takeWhile (fun a => view a<k)++I.lowerBound L k=I.list L :=
  takeWhile_append_dropWhile

lemma lowerBound_sorted (L : List α) (k : β) : (I.lowerBound L k).Pairwise fun a b =>
    view a≤view b :=
  (I.sorted L).sublist (dropWhile_sublist _)

lemma mem_lowerBound : a∈I.lowerBound L k ↔ a∈L ∧ k≤view a := by
  constructor
  · intro ha
    have hL : a∈L := I.mem_list.mp ((dropWhile_sublist _).mem ha)
    refine ⟨hL,?_⟩
    have hh := head?_dropWhile_not (fun a => decide (view a<k)) (I.list L)
    have hs := I.lowerBound_sorted L k
    rw [lowerBound] at ha hs
    cases hd : (I.list L).dropWhile (fun a => decide (view a<k)) with
    | nil =>
      rw [hd] at ha
      cases ha
    | cons b M =>
      rw [hd] at ha hs hh
      have hb : k≤view b := by simpa using hh
      cases ha with
      | head => exact hb
      | tail _ h => exact hb.trans ((pairwise_cons.mp hs).1 a h)
  · intro ⟨ha,hk⟩
    rw [← I.mem_list,← I.takeWhile_append_lowerBound L k,mem_append] at ha
    refine ha.resolve_left fun h => ?_
    have hbl := mem_takeWhile_imp h
    exact absurd (of_decide_eq_true hbl) (not_lt.mpr hk)

/-- A loop from the lower bound on finds all it looks for when those elements stand together. -/
lemma takeWhile_lowerBound (hl : ∀ a, st a → k≤view a)
    (hc : ∀ a b, k≤view a → view a≤view b → st b → st a) :
    ((I.lowerBound L k).takeWhile st).Perm (L.filter st) := by
  have hf : (I.lowerBound L k).Pairwise fun a b => st b → st a :=
    (I.lowerBound_sorted L k).imp_of_mem fun ha _ hle =>
      hc _ _ (I.mem_lowerBound.mp ha).2 hle
  have hb : ((I.list L).takeWhile fun a => view a<k).filter st=[] :=
    filter_eq_nil_iff.mpr fun a ha hs => by
      have hlt := mem_takeWhile_imp ha
      exact absurd (of_decide_eq_true hlt) (not_lt.mpr (hl a hs))
  have hal : (I.lowerBound L k).filter st=(I.list L).filter st := by
    rw [← I.takeWhile_append_lowerBound L k,filter_append,hb,nil_append]
  rw [takeWhile_eq_filter st hf,hal]
  exact (I.perm L).filter st

/-- The lower bound is the least element not below the key. -/
lemma lowerBound_head?_eq_some {b : α} (h : (I.lowerBound L k).head?=some b) :
    b∈L ∧ k≤view b ∧ ∀ a∈L, k≤view a → view b≤view a := by
  obtain ⟨M,hM⟩ := head?_eq_some_iff.mp h
  have hb := I.mem_lowerBound (L := L) (k := k) (a := b)
  have hs := I.lowerBound_sorted L k
  rw [hM] at hb hs
  refine ⟨(hb.mp mem_cons_self).1,(hb.mp mem_cons_self).2,fun a ha hk => ?_⟩
  have haM := I.mem_lowerBound.mpr ⟨ha,hk⟩
  rw [hM] at haM
  cases haM with
  | head => exact le_rfl
  | tail _ h => exact (pairwise_cons.mp hs).1 a h

lemma lowerBound_head?_eq_none (h : (I.lowerBound L k).head?=none) : ∀ a∈L, view a<k := by
  intro a ha
  by_contra hk
  have hm := I.mem_lowerBound.mpr ⟨ha,not_lt.mp hk⟩
  rw [head?_eq_none_iff.mp h] at hm
  cases hm

section
variable {it : α → Bool} {a b n p : α} (ha : a∈L) (hit : ∀ b∈L, it b ↔ b=a)
include ha hit

lemma around : I.list L=preceding it (I.list L)++a::following it (I.list L) := by
  obtain ⟨c,hc,hL⟩ := split_at it ((I.mem_list).mpr ha) ((hit a ha).mpr rfl)
  have hcL : c∈L := by
    rw [← I.mem_list,hL]
    simp
  rw [(hit c hcL).mp hc] at hL
  exact hL

lemma mem_around : b∈L ↔ b∈preceding it (I.list L) ∨ b=a ∨ b∈following it (I.list L) := by
  have hL := I.mem_list (L := L) (a := b)
  rw [I.around ha hit,mem_append,mem_cons] at hL
  exact hL.symm

lemma sorted_around : (preceding it (I.list L)).Pairwise (fun a b => view a≤view b) ∧
    (a::following it (I.list L)).Pairwise (fun a b => view a≤view b) ∧
    ∀ b∈preceding it (I.list L), view b≤view a := by
  have hs := I.sorted L
  rw [I.around ha hit,pairwise_append] at hs
  exact ⟨hs.1,hs.2.1,fun b hb => hs.2.2 b hb a mem_cons_self⟩

lemma of_next (hnd : L.Nodup) (h : (following it (I.list L)).head?=some n) :
    n∈L ∧ n≠a ∧ view a≤view n := by
  have hn : n∈following it (I.list L) := mem_of_head? h
  have hl := (I.perm L).nodup_iff.mpr hnd
  rw [I.around ha hit,nodup_append,nodup_cons] at hl
  refine ⟨(I.mem_around ha hit).mpr (Or.inr (Or.inr hn)),?_,?_⟩
  · exact fun he => hl.2.1.1 (he ▸ hn)
  · exact (pairwise_cons.mp (I.sorted_around ha hit).2.1).1 n hn

lemma next_le (hb : b∈following it (I.list L)) :
    ∃ n, (following it (I.list L)).head?=some n ∧ view n≤view b := by
  have hs := (pairwise_cons.mp (I.sorted_around ha hit).2.1).2
  cases hf : following it (I.list L) with
  | nil =>
    rw [hf] at hb
    cases hb
  | cons n M =>
    rw [hf] at hb hs
    refine ⟨n,rfl,?_⟩
    cases hb with
    | head => exact le_rfl
    | tail _ h => exact (pairwise_cons.mp hs).1 b h

lemma of_prev (h : (preceding it (I.list L)).getLast?=some p) : p∈L ∧ p≠a ∧ view p≤view a := by
  have hp : p∈preceding it (I.list L) := mem_of_getLast? h
  have hpL := (I.mem_around ha hit).mpr (Or.inl hp)
  refine ⟨hpL,fun he => ?_,(I.sorted_around ha hit).2.2 p hp⟩
  have hn := mem_takeWhile_imp (p := fun b => !it b) hp
  simp [(hit p hpL).mpr he] at hn

lemma le_prev (hb : b∈preceding it (I.list L)) :
    ∃ p, (preceding it (I.list L)).getLast?=some p ∧ view b≤view p := by
  have hs := (I.sorted_around ha hit).1
  obtain ⟨p,hp⟩ := Option.isSome_iff_exists.mp (getLast?_isSome.mpr (ne_nil_of_mem hb))
  obtain ⟨M,hM⟩ := getLast?_eq_some_iff.mp hp
  refine ⟨p,hp,?_⟩
  rw [hM,pairwise_append] at hs
  rw [hM,mem_append] at hb
  cases hb with
  | inl h => exact hs.2.2 b h p mem_cons_self
  | inr h => exact (mem_singleton.mp h) ▸ le_rfl
end
end OrderedIndex
end Xero.Library
