import Xero.InterpreterEffects

/-! CScriptNum: numbers of up to eight bytes, their shortest encodings, and the strings that are
accepted where minimal encodings are required. -/
namespace Xero
open Library List Nat
variable (vch : Bytes) (neg : Bool) (ba : UInt8)

/- The sign bit and the seven bits below it. -/
lemma signBit (b : UInt8) : (b &&& 0x7f) &&& 0x80=0 ∧
    (b &&& 0x80≠0 → (b &&& 0x7f) ||| 0x80=b ∧ b.toNat=(b &&& 0x7f).toNat+128) ∧
    (b &&& 0x80=0 → b &&& 0x7f=b ∧ b.toNat<128 ∧ (b ||| 0x80) &&& 0x7f=b ∧
    (b ||| 0x80) &&& 0x80≠0) := by
  obtain ⟨v⟩ := b
  revert v
  decide +kernel

lemma readLE_concat : readLE (vch++[ba])=readLE vch+256^vch.length*ba.toNat := by
  induction vch with
  | nil => simp [readLE]
  | cons b vch ih =>
    rw [cons_append,readLE,ih,readLE,length_cons]
    ring

lemma bytesLE_spec (n : Nat) : (bytesLE n).getLast?≠some 0 ∧ readLE (bytesLE n)=n := by
  fun_induction bytesLE n with
  | case1 => exact ⟨nofun,rfl⟩
  | case2 n hn ih =>
    have hb : (UInt8.ofNat (n%256)).toNat=n%256 := by simp
    refine ⟨?_,by rw [readLE,ih.2]; omega⟩
    cases hr : bytesLE (n/256) with
    | nil =>
      have hz := ih.2
      rw [hr,readLE] at hz
      intro he
      rw [getLast?_singleton,Option.some.injEq] at he
      rw [he] at hb
      simp at hb
      omega
    | cons b r =>
      rw [getLast?_cons_cons,← hr]
      exact ih.1

lemma bytesLE_readLE {bytes : Bytes} (h : bytes.getLast?≠some 0) :
    bytesLE (readLE bytes)=bytes := by
  induction bytes with
  | nil => rw [readLE,bytesLE,if_pos rfl]
  | cons b bytes ih =>
    have ht : bytes.getLast?≠some 0 := by
      cases bytes with
      | nil => simp
      | cons c bytes => rwa [getLast?_cons_cons] at h
    have hb := b.toNat_lt
    have hn : readLE (b::bytes)≠0 := by
      rw [readLE]
      intro _
      have hr := ih ht
      rw [show readLE bytes=0 by omega,bytesLE,if_pos rfl] at hr
      rw [← hr] at h
      exact h (congrArg some (UInt8.toNat_inj.1 (show b.toNat=0 by omega)))
    rw [bytesLE,if_neg hn,readLE,show (b.toNat+256*readLE bytes)/256=readLE bytes by omega,ih ht,
      show (b.toNat+256*readLE bytes)%256=b.toNat by omega,UInt8.ofNat_toNat]

lemma addSign_concat (bytes : Bytes) (ba : UInt8) :
    addSign neg (bytes++[ba])=bytes++addSign neg [ba] := by
  induction bytes with
  | nil => rfl
  | cons b bytes ih =>
    rw [cons_append,addSign.eq_3 _ _ _ (by simp),ih,cons_append]

def withSign (neg : Bool) (n : Nat) : Int := if neg then -n else n

lemma setVch_concat :
    setVch (vch++[ba])=withSign (ba &&& 0x80 != 0) (readLE (vch++[ba &&& 0x7f])) := by
  have hl : (vch++[ba]).length-1=vch.length := by simp
  rw [setVch,getLast?_concat,withSign]
  dsimp only
  rw [hl,readLE_concat,readLE_concat]
  by_cases hn : ba &&& 0x80≠0
  · rw [if_pos hn,if_pos (bne_iff_ne.2 hn),((signBit ba).2.1 hn).2]
    push_cast
    ring
  · rw [if_neg hn,if_neg (by simpa using hn),((signBit ba).2.2 (not_not.1 hn)).1]

lemma isMinimalNum_concat : isMinimalNum (vch++[ba]) =
    (ba &&& 0x7f != 0 || vch.getLast?.any fun second => second &&& 0x80 != 0) := by
  rw [isMinimalNum]
  obtain rfl | ⟨vch,second,rfl⟩ := vch.eq_nil_or_concat' <;> simp

/- A zero on top does not count. -/
lemma readLE_zero : readLE (vch++[0])=readLE vch := by
  rw [readLE_concat]
  simp

lemma addSign_spec (bytes : Bytes) {ba : UInt8} (h : ba≠0) :
    setVch (addSign neg (bytes++[ba]))=withSign neg (readLE (bytes++[ba])) ∧
    isMinimalNum (addSign neg (bytes++[ba])) := by
  rw [addSign_concat,addSign]
  by_cases hh : ba &&& 0x80≠0
  · have hs sign : bytes++[ba,sign]=(bytes++[ba])++[sign] := by simp
    rw [if_pos hh,hs,setVch_concat,isMinimalNum_concat]
    refine ⟨?_,by simp [hh]⟩
    cases neg with
    | false => exact congrArg _ (readLE_zero _)
    | true => exact congrArg _ (readLE_zero _)
  · have hb := (signBit ba).2.2 (not_not.1 hh)
    rw [if_neg hh]
    cases neg with
    | false => simp [setVch_concat,isMinimalNum_concat,hb.1,h,not_not.1 hh]
    | true => simp [setVch_concat,isMinimalNum_concat,hb.2.2.1,h,bne_iff_ne.2 hb.2.2.2]

lemma serializeNum_spec (n : Int) : setVch (serializeNum n)=n ∧ isMinimalNum (serializeNum n) := by
  obtain ⟨hl,hr⟩ := bytesLE_spec n.natAbs
  rw [serializeNum]
  obtain hn | ⟨b,ba,he⟩ := (bytesLE n.natAbs).eq_nil_or_concat'
  · rw [hn,readLE] at hr
    obtain rfl : n=0 := by omega
    rw [hn]
    exact ⟨rfl,rfl⟩
  · rw [he,getLast?_concat] at hl
    obtain ⟨hs,hm⟩ := addSign_spec (decide (n<0)) b (fun hz => hl (congrArg some hz))
    rw [he] at hr ⊢
    refine ⟨?_,hm⟩
    rw [hs,hr,withSign]
    split <;> rename_i hne <;> simp at hne <;> omega

lemma natAbs_withSign (n : Nat) : (withSign neg n).natAbs=n := by
  cases neg <;> simp [withSign]

/- The bytes of the magnitude, however they are split between the last byte and those before. -/
lemma serializeNum_withSign {neg : Bool} {bytes : Bytes} {ba : UInt8} (h : ba≠0) :
    serializeNum (withSign neg (readLE (bytes++[ba])))=bytes++addSign neg [ba] := by
  have ht : (bytes++[ba]).getLast?≠some 0 := by
    rw [getLast?_concat]
    exact fun he => h (Option.some.inj he)
  have hp : 0 < readLE (bytes++[ba]) := by
    rw [readLE_concat]
    have hb : 0<ba.toNat := pos_of_ne_zero fun hz => h (UInt8.toNat_inj.1 hz)
    have hm := mul_pos (pow_pos (n := bytes.length) (show 0<256 by decide)) hb
    omega
  have hn : decide (withSign neg (readLE (bytes++[ba]))<0)=neg := by
    cases neg <;> simp [withSign]
    omega
  rw [serializeNum,hn,natAbs_withSign,bytesLE_readLE ht,addSign_concat]

lemma serializeNum_zero : serializeNum 0=[] := by
  rw [serializeNum,Int.natAbs_zero,bytesLE]
  rfl

lemma serializeNum_setVch {vch : Bytes} (h : isMinimalNum vch) : serializeNum (setVch vch)=vch := by
  obtain rfl | ⟨i,ba,rfl⟩ := vch.eq_nil_or_concat'
  · exact serializeNum_zero
  rw [isMinimalNum_concat,Bool.or_eq_true] at h
  rw [setVch_concat]
  obtain ⟨hl,hn,hp⟩ := signBit ba
  by_cases ht : ba &&& 0x7f=0
  · obtain rfl | ⟨i,s,rfl⟩ := i.eq_nil_or_concat'
    · exact absurd h (by simp [ht])
    have hh : s &&& 0x80≠0 := by simpa [ht] using h
    have hne : s≠0 := by
      rintro rfl
      exact hh rfl
    rw [ht,readLE_zero,serializeNum_withSign hne,addSign,if_pos hh,append_assoc]
    by_cases hs : ba &&& 0x80=0
    · rw [show ba=0 from (hp hs).1.symm.trans ht]
      rfl
    · rw [show ba=0x80 by rw [← (hn hs).1,ht]; rfl]
      rfl
  · rw [serializeNum_withSign ht,addSign,if_neg (not_not.2 hl)]
    by_cases hh : ba &&& 0x80=0
    · simp [hh,(hp hh).1]
    · simp [hh,(hn hh).1]

lemma natAbs_of_isMinimalNum {vch : Bytes} {k : Nat} (h : isMinimalNum vch)
    (hl : vch.length=k+2) : 128*256^k≤(setVch vch).natAbs := by
  obtain rfl | ⟨i,ba,rfl⟩ := vch.eq_nil_or_concat'
  · cases hl
  obtain rfl | ⟨i,s,rfl⟩ := i.eq_nil_or_concat'
  · cases hl
  simp only [length_append,length_singleton,add_right_cancel_iff] at hl
  rw [setVch_concat,natAbs_withSign,readLE_concat,readLE_concat,length_append,
      length_singleton,hl,pow_succ]
  rw [isMinimalNum_concat,getLast?_concat,Bool.or_eq_true,bne_iff_ne] at h
  obtain h | h := h
  · have hb : 1≤(ba &&& 0x7f).toNat := pos_of_ne_zero fun hz => h (UInt8.toNat_inj.1 hz)
    have hm := mul_le_mul_left (256^k*256) hb
    omega
  · have hs : 128 ≤ s.toNat := by
      rw [((signBit s).2.1 (by simpa using h)).2]
      omega
    have hm := mul_le_mul_left (256^k) hs
    omega

lemma serializeNum_length_le {n : Int} {k : Nat} (h : n.natAbs<128*256^k) :
    (serializeNum n).length≤k+1 := by
  obtain ⟨_,hm⟩ := serializeNum_spec n
  by_contra hl
  obtain ⟨j,_⟩ := Nat.exists_eq_add_of_le (show k+2≤(serializeNum n).length by omega)
  have hg := natAbs_of_isMinimalNum hm (show _=k+j+2 by omega)
  have hp : 256^k≤256^(k+j) := Nat.pow_le_pow_right (by decide) (by omega)
  omega

/- What is not minimal ends in a byte that only holds the sign, with room for it in the one before. -/
lemma serializeNum_shortest :
    vch=serializeNum (setVch vch) ∨ (serializeNum (setVch vch)).length<vch.length := by
  by_cases hm : isMinimalNum vch
  · exact .inl (serializeNum_setVch hm).symm
  obtain rfl | ⟨i,ba,rfl⟩ := vch.eq_nil_or_concat'
  · exact absurd rfl hm
  rw [isMinimalNum_concat,Bool.or_eq_true,not_or,bne_iff_ne,not_not] at hm
  obtain ⟨hb,hi⟩ := hm
  rw [setVch_concat,hb,readLE_zero]
  obtain rfl | ⟨i,s,rfl⟩ := i.eq_nil_or_concat'
  · have hz : withSign (ba &&& 0x80 != 0) (readLE [])=0 := by
      cases ba &&& 0x80 != 0 <;> rfl
    rw [hz,serializeNum_zero]
    exact .inr one_pos
  · have hr : s &&& 0x80=0 := by simpa using hi
    have hmu := mul_le_mul_left (256^i.length) (le_of_lt_succ ((signBit s).2.2 hr).2.1)
    have hl := readLE_lt i
    refine .inr (lt_of_le_of_lt (serializeNum_length_le (k := i.length) ?_) (by simp))
    rw [natAbs_withSign,readLE_concat]
    omega

/-- The value of a little-endian string whose top bit is the sign. -/
def signMagnitude (vch : Bytes) : Int :=
  if 2*readLE vch<256^vch.length then readLE vch else (256^vch.length/2 : Nat)-readLE vch

lemma setVch_eq_signMagnitude : setVch vch=signMagnitude vch := by
  obtain rfl | ⟨i,ba,rfl⟩ := vch.eq_nil_or_concat'
  · rfl
  have hlt := readLE_lt i
  rw [setVch_concat,signMagnitude,readLE_concat,readLE_concat,length_append,length_singleton]
  by_cases hh : ba &&& 0x80=0
  · obtain ⟨hl,hb,-⟩ := (signBit ba).2.2 hh
    have hm := mul_le_mul_left (256^i.length) (le_of_lt_succ hb)
    rw [hl,if_pos (by omega)]
    simp [withSign,hh]
  · have hb := ((signBit ba).2.1 hh).2
    have hm : 256^i.length*ba.toNat=256^i.length*(ba &&& 0x7f).toNat+256^i.length*128 := by
      rw [hb,mul_add]
    rw [withSign,if_pos (bne_iff_ne.2 hh)]
    omega

lemma scriptNum_eq_ok {minimal : Bool} {maxSize : Nat} {vch : Bytes} {n : Int}
    (hs : vch.length ≤ maxSize) : scriptNum minimal maxSize vch=.ok n ↔
      (minimal → isMinimalNum vch) ∧ signMagnitude vch=n := by
  rw [scriptNum,setErrorIf,setErrorIf,decide_eq_false (not_lt.2 hs),← setVch_eq_signMagnitude]
  cases minimal <;> cases isMinimalNum vch <;> simp [rejectIf,ok_bind,pure_ok]

/-- Script numbers and their encodings: the shortest string is the only minimal one. -/
theorem scriptNum_encodings : (∀ n : Int, -2^63<n → n<2^63 → signMagnitude (serializeNum n)=n ∧
      (∀ vch, signMagnitude vch=n → vch=serializeNum n ∨ (serializeNum n).length<vch.length) ∧
      (serializeNum n).length≤8 ∧ ∀ nMaxNumSize, (serializeNum n).length≤nMaxNumSize →
      nMaxNumSize≤8 →
        scriptNum true nMaxNumSize (serializeNum n)=.ok n) ∧
    (∀ nMaxNumSize≤8, ∀ vch : Bytes, vch.length≤nMaxNumSize →
      ((∃ n, scriptNum true nMaxNumSize vch=.ok n) ↔ vch=serializeNum (signMagnitude vch)) ∧
      scriptNum false nMaxNumSize vch=.ok (signMagnitude vch)) := by
  refine ⟨fun n hl hh => ?_,fun nMaxNumSize _ vch hs => ⟨?_,?_⟩⟩
  · obtain ⟨hse,hm⟩ := serializeNum_spec n
    rw [setVch_eq_signMagnitude] at hse
    refine ⟨hse,?_,serializeNum_length_le (k := 7) (by omega),fun _ hs _ => ?_⟩
    · rintro vch rfl
      rw [← setVch_eq_signMagnitude]
      exact serializeNum_shortest vch
    · exact (scriptNum_eq_ok hs).2 ⟨fun _ => hm,hse⟩
  · simp only [scriptNum_eq_ok hs,← setVch_eq_signMagnitude]
    constructor
    · rintro ⟨_,hm,-⟩
      exact (serializeNum_setVch (hm trivial)).symm
    · intro he
      refine ⟨_,fun _ => ?_,rfl⟩
      rw [he]
      exact (serializeNum_spec _).2
  · exact (scriptNum_eq_ok hs).2 ⟨nofun,rfl⟩
end Xero
