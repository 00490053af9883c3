import Mathlib.Data.List.Nodup
import Mathlib.Logic.Function.Iterate
/-! The levels of a binary tree over a list: neighbours are combined two by two, and a last element
without a neighbour is combined with itself. -/
namespace Xero.Library
open List
variable {α : Type*} (f : α → α → α)

def pairUp : List α → List α
  | [] => []
  | [a] => [f a a]
  | a::b::L => f a b::pairUp L

/-- Some element at an even position equals the one after it. -/
def hasTwins [BEq α] : List α → Bool
  | a::b::L => a==b || hasTwins L
  | _ => false

@[simp] lemma length_pairUp (L : List α) : (pairUp f L).length=(L.length+1)/2 := by
  induction L using pairUp.induct with
  | case1 => simp [pairUp]
  | case2 a => simp [pairUp]
  | case3 a b L ih =>
    simp only [pairUp,length_cons,ih]
    omega

variable {L : List α}

lemma exists_of_mem_pairUp {x : α} (hx : x∈pairUp f L) : ∃ a b, x=f a b ∧ a∈L ∧ b∈L := by
  induction L using pairUp.induct with
  | case1 => cases hx
  | case2 a => exact ⟨a,a,mem_singleton.mp hx,mem_singleton_self a,mem_singleton_self a⟩
  | case3 a b L ih =>
    cases hx with
    | head => exact ⟨a,b,rfl,by simp,by simp⟩
    | tail _ h =>
      obtain ⟨c,d,hx,hc,hd⟩ := ih h
      exact ⟨c,d,hx,by simp [hc],by simp [hd]⟩

lemma getElem?_pairUp (L : List α) (i : Nat) :
    (pairUp f L)[i]?=(L[2*i]?).map fun a => f a ((L[2*i+1]?).getD a) := by
  induction L using pairUp.induct generalizing i with
  | case1 => rfl
  | case2 a =>
    cases i with
    | zero => rfl
    | succ i => simp [pairUp,Nat.mul_succ]
  | case3 a b L ih =>
    cases i with
    | zero => rfl
    | succ i => simpa [pairUp,Nat.mul_succ] using ih i

section
variable {f} [DecidableEq α] (hf : Function.Injective2 f)
include hf

/-- A level without twins is determined by the next one. -/
lemma pairUp_injective {M : List α} (h : pairUp f L=pairUp f M) (hL : hasTwins L=false)
    (hM : hasTwins M=false) : L=M := by
  induction L using pairUp.induct generalizing M with
  | case1 =>
    match M with
    | [] => rfl
    | [b] => simp [pairUp] at h
    | b::c::M => simp [pairUp] at h
  | case2 a =>
    match M with
    | [] => simp [pairUp] at h
    | [b] =>
      simp only [pairUp,cons.injEq,and_true] at h
      rw [(hf h).1]
    | b::c::M =>
      -- a pair on one side and a single element on the other make twins
      simp only [pairUp,cons.injEq] at h
      obtain ⟨hb,hc⟩ := hf h.1
      simp [hasTwins,← hb,← hc] at hM
  | case3 a b L ih =>
    match M with
    | [] => simp [pairUp] at h
    | [c] =>
      simp only [pairUp,cons.injEq] at h
      obtain ⟨hb,hc⟩ := hf h.1
      simp [hasTwins,hb,hc] at hL
    | c::d::M =>
      simp only [pairUp,cons.injEq] at h
      simp only [hasTwins,Bool.or_eq_false_iff] at hL hM
      obtain ⟨hc,hd⟩ := hf h.1
      rw [hc,hd,ih h.2 hL.2 hM.2]

omit [DecidableEq α] in
lemma nodup_pairUp (hL : L.Nodup) : (pairUp f L).Nodup := by
  induction L using pairUp.induct with
  | case1 => exact nodup_nil
  | case2 a => exact nodup_singleton _
  | case3 a b L ih =>
    rw [nodup_cons] at hL
    rw [pairUp,nodup_cons]
    refine ⟨fun hm => ?_,ih (nodup_cons.mp hL.2).2⟩
    obtain ⟨c,d,he,hc,-⟩ := exists_of_mem_pairUp f hm
    rw [(hf he).1] at hL
    exact hL.1 (mem_cons_of_mem b hc)
end

lemma hasTwins_of_nodup [DecidableEq α] (hL : L.Nodup) : hasTwins L=false := by
  induction L using pairUp.induct with
  | case1 => rfl
  | case2 a => rfl
  | case3 a b L ih =>
    rw [nodup_cons,nodup_cons] at hL
    have hn : a≠b := fun h => hL.1 (by simp [h])
    simp [hasTwins,hn,ih hL.2.2]
end Xero.Library
