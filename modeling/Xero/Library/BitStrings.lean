import Mathlib.Data.Nat.Bitwise

/-! The bits of numbers as lists, the most significant bit first. -/
namespace Xero.Library
open List Nat

def toBits : Nat → Nat → List Bool
  | 0, _ => []
  | w+1, n => n.testBit w::toBits w n

@[simp] lemma length_toBits (w n : Nat) : (toBits w n).length=w := by
  induction w with
  | zero => rfl
  | succ w ih => rw [toBits,length_cons,ih]

lemma toBits_add (a b n : Nat) : toBits (a+b) n=toBits a (n/2^b)++toBits b n := by
  induction a with
  | zero => rw [zero_add,toBits,nil_append]
  | succ a ih => rw [succ_add,toBits,toBits,ih,testBit_div_two_pow,cons_append]

lemma toBits_congr {w n m : Nat} (h : n%2^w=m%2^w) : toBits w n=toBits w m := by
  induction w with
  | zero => rfl
  | succ w ih =>
    have hb := congrArg (Nat.testBit · w) h
    simp only [Nat.testBit_mod_two_pow,Nat.lt_succ_self,decide_true,Bool.true_and] at hb
    have hl : n%2^w=m%2^w := by
      have hm := congrArg (· % 2^w) h
      rwa [mod_mod_of_dvd _ (pow_dvd_pow 2 w.le_succ),
        Nat.mod_mod_of_dvd _ (Nat.pow_dvd_pow 2 w.le_succ)] at hm
    rw [toBits,toBits,hb,ih hl]

lemma toBits_ones {w n : Nat} (h : w≤n) : toBits w (2^n-1)=replicate w true := by
  induction w with
  | zero => rfl
  | succ w ih =>
    rw [toBits,ih (by omega),testBit_two_pow_sub_one,decide_eq_true (by omega),replicate_succ]

lemma mod_eq_of_toBits {w n m : Nat} (h : toBits w n=toBits w m) : n%2^w=m%2^w := by
  apply eq_of_testBit_eq
  intro i
  rw [testBit_mod_two_pow,testBit_mod_two_pow]
  by_cases hi : i<w
  · rw [decide_eq_true hi,Bool.true_and]
    induction w with
    | zero => omega
    | succ w ih =>
      obtain ⟨hh,ht⟩ := cons.inj h
      obtain hl | rfl := Nat.lt_succ_iff_lt_or_eq.mp hi
      · exact ih ht hl
      · exact hh
  · rw [decide_eq_false hi,Bool.false_and,Bool.false_and]
end Xero.Library
