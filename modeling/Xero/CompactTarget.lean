import Mathlib.Data.Nat.Bitwise
import Xero.Library.LeadingBytes

/-! The compact encoding of a 256-bit target in 32 bits: `SetCompact` and `GetCompact` of
`arith_uint256`, and what a round trip through the two keeps. -/
namespace Xero
open Library Nat

/-- What `SetCompact` reads: the target and two flags. -/
structure CompactTarget where
  value : Nat
  fNegative : Bool
  fOverflow : Bool
deriving Repr, DecidableEq

def setCompact (nCompact : Nat) : CompactTarget :=
  let nSize := nCompact >>> 24
  let nWord := if nSize≤3 then (nCompact &&& 0x007fffff) >>> (8*(3-nSize))
      else nCompact &&& 0x007fffff
  { value := if nSize≤3 then nWord else (nWord <<< (8*(nSize-3)))%2^256
    fNegative := decide (nWord≠0 ∧ nCompact &&& 0x00800000≠0)
    fOverflow := decide (nWord≠0 ∧ (nSize>34 ∨ (nWord>0xff ∧ nSize>33) ∨
        (nWord>0xffff ∧ nSize>32))) }

variable (x : Nat)

/- `GetLow64`, narrowed to the 32 bits it is assigned to. -/
def low32 : Nat := x%2^64%2^32

/-- `GetCompact` of a non-negative number (`fNegative` keeps its default). -/
def getCompact : Nat :=
  let nSize := (x.size+7)/8
  let nCompact := if nSize≤3 then low32 (x <<< (8*(3-nSize))) else low32 (x >>> (8*(nSize-3)))
  -- The sign bit of the mantissa stays free: one more byte goes to the exponent.
  if nCompact &&& 0x00800000≠0 then nCompact >>> 8 ||| (nSize+1) <<< 24
  else nCompact ||| nSize <<< 24

def topWord (s : Nat) : Nat := x*256^(3-s)/256^(s-3)

/- The exponent byte `GetCompact` writes for a positive number. -/
def compactSize : Nat := x.size/8+1

lemma and_sign_ne_zero {w : Nat} (hw : w<2^24) : w &&& 0x00800000≠0 ↔ 2^23≤w := by
  have ha : w &&& 0x00800000=(w.testBit 23).toNat*2^23 := and_two_pow w 23
  rw [ha,testBit_eq_decide_div_mod_eq]
  by_cases h : w/2^23%2=1
  · simp only [h,decide_true,Bool.toNat_true]
    omega
  · simp only [h,decide_false,Bool.toNat_false]
    omega

lemma or_shiftLeft {w : Nat} (hw : w<2^24) (s : Nat) : w ||| s <<< 24=s*2^24+w := by
  rw [Nat.or_comm,← Nat.shiftLeft_add_eq_or_of_lt hw,Nat.shiftLeft_eq]

variable {x : Nat}

lemma low32_of_lt (h : x<2^32) : low32 x=x := by
  unfold low32
  omega

lemma topWord_lt {s : Nat} (h : x<2^(8*s)) : topWord x s<2^24 := by
  unfold topWord
  rw [div_lt_iff_lt_mul (by positivity)]
  calc x*256^(3-s)<2^(8*s)*256^(3-s) := mul_lt_mul_of_pos_right h (by positivity)
    _=2^24*256^(s-3) := by
      rw [pow_256,pow_256,← pow_add,← pow_add]
      congr 1
      omega

lemma le_topWord {s : Nat} (hs : 0 < s) : 2^23≤topWord x s ↔ 2^(8*s-1)≤x := by
  unfold topWord
  rw [le_div_iff_mul_le (by positivity)]
  have hsp : 2^23*256^(s-3)=2^(8*s-1)*256^(3-s) := by
    rw [pow_256,pow_256,← pow_add,← pow_add]
    congr 1
    omega
  rw [hsp]
  exact Nat.mul_le_mul_right_iff (by positivity)

lemma topWord_succ (s : Nat) : topWord x s/256=topWord x (s+1) := by
  unfold topWord
  rw [Nat.div_div_eq_div_mul]
  obtain h | h := Nat.lt_or_ge s 3
  · have hs : 3-s=(3-(s+1))+1 := by omega
    have h0 : s-3=0 := by omega
    have h1 : s+1-3=0 := by omega
    rw [hs,h0,h1,pow_succ,← mul_assoc,pow_zero,one_mul,Nat.mul_div_cancel _ (by decide),Nat.div_one]
  · have h0 : 3-s=0 := by omega
    have h1 : 3-(s+1)=0 := by omega
    have hs : s+1-3=(s-3)+1 := by omega
    rw [h0,h1,hs,pow_succ]

lemma getCompact_word : (if (x.size+7)/8≤3 then low32 (x <<< (8*(3-(x.size+7)/8)))
      else low32 (x >>> (8*((x.size+7)/8-3))))=topWord x ((x.size+7)/8) := by
  have hl : topWord x ((x.size+7)/8)<2^24 := by
    apply topWord_lt
    apply Nat.lt_of_lt_of_le (Nat.lt_size_self x)
    exact Nat.pow_le_pow_right (by decide) (by omega)
  split
  · rename_i hs
    have h0 : (x.size+7)/8-3=0 := by omega
    have he : x <<< (8*(3-(x.size+7)/8))=topWord x ((x.size+7)/8) := by
      rw [topWord,h0,Nat.shiftLeft_eq,pow_256,pow_zero,Nat.div_one]
    rw [he]
    exact low32_of_lt (by omega)
  · rename_i hs
    have h0 : 3-(x.size+7)/8=0 := by omega
    have he : x >>> (8*((x.size+7)/8-3))=topWord x ((x.size+7)/8) := by
      rw [topWord,h0,shiftRight_eq_div_pow,pow_zero,mul_one,pow_256]
    rw [he]
    exact low32_of_lt (by omega)

lemma getCompact_eq (hp : 0<x) :
    getCompact x=compactSize x*2^24+topWord x (compactSize x) ∧ topWord x (compactSize x)<2^23 := by
  have hsz : 0<x.size := size_pos.2 hp
  have hse : ∀ k, x.size≤k → x<2^k := fun k => size_le.1
  have hm : topWord x (compactSize x)<2^23 := by
    rw [← not_le,le_topWord (by unfold compactSize; omega),not_le]
    apply hse
    unfold compactSize
    omega
  refine ⟨?_,hm⟩
  have hw : topWord x ((x.size+7)/8)<2^24 := topWord_lt (hse _ (by omega))
  have hsi : topWord x ((x.size+7)/8) &&& 0x00800000≠0 ↔ x.size%8=0 := by
    rw [and_sign_ne_zero hw,le_topWord (by omega),← lt_size]
    omega
  unfold getCompact
  simp only [getCompact_word]
  by_cases h : x.size%8=0
  · have hs : (x.size+7)/8+1=compactSize x := by
      unfold compactSize
      omega
    rw [if_pos (hsi.2 h),shiftRight_eq_div_pow,topWord_succ,hs,or_shiftLeft (by omega)]
  · have hs : (x.size+7)/8=compactSize x := by
      unfold compactSize
      omega
    rw [if_neg (mt hsi.1 h),hs,or_shiftLeft (by omega)]

lemma setCompact_parts (s : Nat) {m : Nat} (hm : m<2^23) : setCompact (s*2^24+m) =
      let nWord := if s≤3 then m/256^(3-s) else m
      { value := if s≤3 then nWord else nWord*256^(s-3)%2^256
        fNegative := false
        fOverflow := decide (nWord≠0 ∧ (s>34 ∨ (nWord>0xff ∧ s>33) ∨ (nWord>0xffff ∧ s>32))) } := by
  have hs : (s*2^24+m) >>> 24=s := by
    omega
  have hw : (s*2^24+m) &&& 0x007fffff=m := by
    have ha := and_two_pow_sub_one_eq_mod (s*2^24+m) 23
    norm_num at ha ⊢
    omega
  have hsi : (s*2^24+m) &&& 0x00800000=0 := by
    have ha : (s*2^24+m) &&& 0x00800000=((s*2^24+m).testBit 23).toNat*2^23 := and_two_pow _ 23
    have hb : (s*2^24+m)/2^23%2=0 := by omega
    rw [ha,testBit_eq_decide_div_mod_eq,hb]
    rfl
  simp only [setCompact,hs,hw,hsi,shiftRight_eq_div_pow _ (8*_),shiftLeft_eq,pow_256,
    ne_eq,not_true_eq_false,and_false,decide_false]

/-- A 256-bit number read back from its own compact form keeps its three leading bytes and
raises neither flag. -/
lemma setCompact_getCompact (hx : x<2^256) :
    setCompact (getCompact x)=⟨keepBytes 3 x,false,false⟩ := by
  obtain rfl | hp := Nat.eq_zero_or_pos x
  · decide
  obtain ⟨he,hm⟩ := getCompact_eq hp
  have hsi : x.size≤256 := size_le.2 hx
  rw [he,setCompact_parts _ hm]
  have hd : droppedBytes 3 x=compactSize x-3 := rfl
  by_cases hs : compactSize x≤3
  · have h₀ : compactSize x-3=0 := by omega
    have hb : topWord x (compactSize x)/256^(3-compactSize x)=x := by
      rw [topWord,h₀,pow_zero,Nat.div_one,Nat.mul_div_cancel _ (by positivity)]
    simp only [if_pos hs,hb,keepBytes,hd,h₀,pow_zero,Nat.div_one,mul_one,CompactTarget.mk.injEq,
      true_and,decide_eq_false_iff_not]
    omega
  · have h₀ : 3-compactSize x=0 := by omega
    have hw : topWord x (compactSize x)=x/256^(compactSize x-3) := by
      rw [topWord,h₀,pow_zero,mul_one]
    have hv : x/256^(compactSize x-3)*256^(compactSize x-3)%2^256 =
        x/256^(compactSize x-3)*256^(compactSize x-3) :=
      mod_eq_of_lt (lt_of_le_of_lt (div_mul_le_self _ _) hx)
    have h33 : compactSize x≤33 := by
      unfold compactSize
      omega
    -- Only a number that uses all 256 bits takes 33 bytes, and then two of them stay.
    have ht : compactSize x=33 → x/256^(compactSize x-3)<2^16 := by
      intro h
      rw [h]
      exact Nat.div_lt_of_lt_mul (by norm_num at hx ⊢; omega)
    simp only [if_neg hs,hw,hv,keepBytes,hd,CompactTarget.mk.injEq,true_and,decide_eq_false_iff_not]
    omega

lemma and_word_lt (c : Nat) : c &&& 0x007fffff<2^23 := lt_succ_of_le and_le_right

lemma setCompact_fOverflow (c : Nat) :
    (setCompact c).fOverflow=true ↔ 2^256≤(c &&& 0x007fffff)*256^(c >>> 24)/256^3 := by
  have hm := and_word_lt c
  simp only [setCompact,decide_eq_true_eq]
  generalize c &&& 0x007fffff=m at hm ⊢
  generalize c >>> 24=s
  by_cases hs : s≤3
  · have hle : m*256^s/256^3 ≤ m := by
      rw [mul_comm]
      exact Nat.div_le_of_le_mul (Nat.mul_le_mul_right m (Nat.pow_le_pow_right (by decide) hs))
    exact iff_of_false (by omega) (by omega)
  obtain ⟨r,rfl⟩ := Nat.exists_eq_add_of_lt (not_le.1 hs)
  have hsh : m*256^(3+r+1)/256^3=m*2^(8*(r+1)) := by
    rw [Nat.add_assoc,pow_add,mul_left_comm,Nat.mul_div_cancel_left _ (by positivity),pow_256]
  rw [if_neg hs,hsh]
  by_cases hl : 31 ≤ r
  · have hp : 2^256≤2^(8*(r+1)) := Nat.pow_le_pow_right (by decide) (by omega)
    constructor
    · intro h
      exact hp.trans (Nat.le_mul_of_pos_left _ (Nat.pos_of_ne_zero h.1))
    · intro h
      refine ⟨?_,by omega⟩
      rintro rfl
      omega
  · have hsp : 2^256=2^(256-8*(r+1))*2^(8*(r+1)) := by
      rw [← pow_add,Nat.sub_add_cancel (by omega)]
    rw [hsp,Nat.mul_le_mul_right_iff (by positivity)]
    obtain h | rfl | rfl : r<29 ∨ r=29 ∨ r=30 := by omega
    · have hp : 2^24≤2^(256-8*(r+1)) := Nat.pow_le_pow_right (by decide) (by omega)
      exact iff_of_false (by omega) (by omega)
    · omega
    · omega

lemma setCompact_value {c : Nat} (h : (setCompact c).fOverflow=false) :
    (setCompact c).value<2^256 ∧ ∃ m e, m<2^23 ∧ (setCompact c).value=m*256^e := by
  have hm := and_word_lt c
  have hf := mt (setCompact_fOverflow c).mpr (Bool.eq_false_iff.mp h)
  simp only [setCompact]
  split_ifs with hs
  · have hl : (c &&& 0x007fffff) >>> (8*(3-c >>> 24)) ≤ c &&& 0x007fffff := shiftRight_le _ _
    exact ⟨by omega,_,0,hl.trans_lt hm,(Nat.mul_one _).symm⟩
  · obtain ⟨r,hr⟩ := Nat.exists_eq_add_of_lt (not_le.1 hs)
    rw [hr,Nat.add_assoc,pow_add,mul_left_comm,Nat.mul_div_cancel_left _ (by positivity)] at hf
    rw [hr,Nat.shiftLeft_eq,Nat.add_assoc,Nat.add_sub_cancel_left,← pow_256,
        Nat.mod_eq_of_lt (not_le.1 hf)]
    exact ⟨not_le.1 hf,_,_,hm,rfl⟩

/- The two bytes that stay of the largest number with three bytes are neither 23 nor 24 bits. -/
theorem compact_keeps_fewer_bits : ¬∀ v<2^256, ∃ b, (b=23 ∨ b=24) ∧
    IsGreatest {y | y≤v ∧ ∃ m e, m<2^b ∧ y=m*2^e} (setCompact (getCompact v)).value := by
  intro ha
  obtain ⟨b,hb,-,hg⟩ := ha 0xffffff (by decide)
  have hl := @hg 0xfffffe ⟨by decide,0x7fffff,1,by obtain rfl | rfl := hb <;> decide,rfl⟩
  revert hl
  decide

/-- The compact form rounds down to a mantissa below 2^23 times a power of 256. It keeps the order
and what can be decoded; the overflow flag tells whether the shifted mantissa fits. -/
theorem compact_rounds_down :
    (∀ v<2^256, IsGreatest {y | y≤v ∧ ∃ m e, m<2^23 ∧ y=m*256^e}
    (setCompact (getCompact v)).value) ∧
    (∀ v w, v≤w → w<2^256 → (setCompact (getCompact v)).value≤(setCompact (getCompact w)).value) ∧
    (∀ c, (setCompact c).fOverflow=false →
      (setCompact (getCompact (setCompact c).value)).value=(setCompact c).value) ∧
    ∀ c, (setCompact c).fOverflow ↔ 2^256≤(c &&& 0x007fffff)*256^(c >>> 24)/256^3 := by
  refine ⟨fun v hv => ?_,fun v w hl hw => ?_,fun c hc => ?_,setCompact_fOverflow⟩
  · rw [setCompact_getCompact hv]
    refine ⟨⟨keepBytes_le 3 v,_,_,div_droppedBytes_lt (by decide) v,rfl⟩,?_⟩
    rintro y ⟨hl,m,e,hm,rfl⟩
    exact le_keepBytes (by decide) hm hl
  · rw [setCompact_getCompact (hl.trans_lt hw),setCompact_getCompact hw]
    exact keepBytes_mono (by decide) hl
  · obtain ⟨hlt,m,e,hm,he⟩ := setCompact_value hc
    rw [setCompact_getCompact hlt]
    refine (keepBytes_le 3 _).antisymm ?_
    rw [he]
    exact le_keepBytes (by decide) hm le_rfl
end Xero
