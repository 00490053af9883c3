import Xero.Serialize

/-! The compact format of coins in the database and of undo records: variable-length integers,
compressed amounts and short forms of common scripts. -/
namespace Xero
open Library List Nat
variable {max n : Nat}
section
/- The digits of a variable-length integer, in front of those there. All but the last one written
have the high bit. -/
def writeVarIntFrom (n : Nat) (more : Bool) (tmp : Bytes) : Bytes :=
  let tmp := UInt8.ofNat (n%128+if more then 128 else 0)::tmp
  if n≤0x7f then tmp else writeVarIntFrom (n/128-1) true tmp
termination_by n
decreasing_by omega

def writeVarInt (n : Nat) : Bytes := writeVarIntFrom n false []

def readVarIntFrom (max : Nat) (n : Nat) : DataStream Nat
  | [] => .error END_OF_DATA
  | chData::bytes =>
    if max/128<n then .error "ReadVarInt(): size too large"
    else
      let n := n*128+chData.toNat%128
      if 128 ≤ chData.toNat then
        if n=max then .error "ReadVarInt(): size too large" else readVarIntFrom max (n+1) bytes
      else .ok (n,bytes)

def readVarInt (max : Nat) : DataStream Nat := readVarIntFrom max 0

lemma readVarIntFrom_cons (max n : Nat) (cd : UInt8) (bytes : Bytes) :
    readVarIntFrom max n (cd::bytes)=
      if max/128<n then .error "ReadVarInt(): size too large"
      else if 128 ≤ cd.toNat then
        if n*128+cd.toNat%128=max then .error "ReadVarInt(): size too large"
        else readVarIntFrom max (n*128+cd.toNat%128+1) bytes
      else .ok (n*128+cd.toNat%128,bytes) := rfl

lemma readVarIntFrom_digit (hn : n ≤ max) (tmp : Bytes) (m : Bool) (hm : m → n < max) :
    readVarIntFrom max (n/128) (UInt8.ofNat (n%128+if m then 128 else 0)::tmp)=
      if m then readVarIntFrom max (n+1) tmp else .ok (n,tmp) := by
  have hf : ¬max/128<n/128 := not_lt.mpr (Nat.div_le_div_right hn)
  rw [readVarIntFrom_cons,if_neg hf]
  cases m with
  | false =>
    have hb : (UInt8.ofNat (n%128+0)).toNat=n%128 := by
      rw [UInt8.toNat_ofNat']
      omega
    simp only [Bool.false_eq_true,if_false,hb]
    rw [if_neg (by omega)]
    have hs : n/128*128+n%128%128=n := by omega
    rw [hs]
  | true =>
    have hb : (UInt8.ofNat (n%128+128)).toNat=n%128+128 := by
      rw [UInt8.toNat_ofNat']
      omega
    have hs : n/128*128+(n%128+128)%128=n := by omega
    simp only [if_true,hb,hs]
    rw [if_pos (by omega),if_neg (Nat.ne_of_lt (hm rfl))]

lemma readVarIntFrom_writeVarIntFrom (n : Nat) (m : Bool) (tmp : Bytes) (hn : n ≤ max)
    (hm : m → n < max) :
    readVarIntFrom max 0 (writeVarIntFrom n m tmp)=
      if m then readVarIntFrom max (n+1) tmp else .ok (n,tmp) := by
  fun_induction writeVarIntFrom n m tmp with
  | case1 n m tmp t' h =>
    have hz : n/128=0 := by omega
    have hd := readVarIntFrom_digit hn tmp m hm
    rw [hz] at hd
    exact hd
  | case2 n m tmp t' h ih =>
    have hp : n/128-1+1=n/128 := by omega
    rw [ih (by omega) (fun _ => by omega),if_pos rfl,hp]
    exact readVarIntFrom_digit hn tmp m hm

lemma writeVarIntFrom_append (n : Nat) (m : Bool) (tmp r : Bytes) :
    writeVarIntFrom n m tmp++r=writeVarIntFrom n m (tmp++r) := by
  fun_induction writeVarIntFrom n m tmp with
  | case1 n m tmp t' h =>
    rw [writeVarIntFrom]
    simp only [h,if_true]
    rfl
  | case2 n m tmp t' h ih =>
    rw [ih]
    conv_rhs => rw [writeVarIntFrom]
    simp only [h,if_false]
    rfl

lemma writeVarInt_of_le (h : n≤0x7f) : writeVarInt n=[UInt8.ofNat n] := by
  unfold writeVarInt
  rw [writeVarIntFrom,if_pos h,mod_eq_of_lt (by omega)]
  rfl

lemma readsBack_readVarInt (max : Nat) : ReadsBack (readVarInt max) writeVarInt (fun n =>
    n ≤ max) := by
  intro n _ hn
  unfold readVarInt writeVarInt
  rw [writeVarIntFrom_append,readVarIntFrom_writeVarIntFrom n false _ hn Bool.noConfusion]
  rfl

lemma varInt_inj {m : Nat} {x y : Bytes} (h : writeVarInt n++x=writeVarInt m++y) : n=m ∧ x=y := by
  have hr := readsBack_readVarInt (max n m)
  have hn := hr n x (le_max_left n m)
  rw [h,hr m y (le_max_right n m)] at hn
  cases hn
  exact ⟨rfl,rfl⟩

def getSizeOfVarInt (n : Nat) : Nat :=
  if n≤0x7f then 1 else getSizeOfVarInt (n/128-1)+1
termination_by n
decreasing_by omega

lemma writeVarIntFrom_length (n : Nat) (m : Bool) (tmp : Bytes) :
    (writeVarIntFrom n m tmp).length=getSizeOfVarInt n+tmp.length := by
  fun_induction writeVarIntFrom n m tmp with
  | case1 n m tmp t' h =>
    rw [getSizeOfVarInt,if_pos h,length_cons,add_comm]
  | case2 n m tmp t' h ih =>
    rw [ih,length_cons]
    conv_rhs => rw [getSizeOfVarInt,if_neg h]
    omega

lemma getSizeOfVarInt_le {m : Nat} (h : n<128^(m+1)) : getSizeOfVarInt n ≤ m+1 := by
  induction m generalizing n with
  | zero => rw [getSizeOfVarInt,if_pos (by omega)]
  | succ m ih =>
    rw [getSizeOfVarInt]
    split
    · omega
    · have hl := @ih (n/128-1) (by omega)
      omega

/- One more byte of an encoding, behind those that have led to `n`. -/
lemma writeVarIntFrom_cons (n : Nat) (cd : UInt8) (tmp : Bytes) :
    writeVarIntFrom (n*128+cd.toNat%128) (decide (128 ≤ cd.toNat)) tmp=
      if n=0 then cd::tmp else writeVarIntFrom (n-1) true (cd::tmp) := by
  have hb : UInt8.ofNat ((n*128+cd.toNat%128)%128+ if decide (128 ≤ cd.toNat) then 128
      else 0)=cd := by
    have hl := cd.toNat_lt
    rw [← UInt8.toNat_inj,UInt8.toNat_ofNat']
    split <;> simp only [decide_eq_true_eq] at * <;> omega
  rw [writeVarIntFrom,hb]
  by_cases hn : n=0
  · rw [if_pos hn,if_pos (by omega)]
  · rw [if_neg hn,if_neg (by omega),show (n*128+cd.toNat%128)/128-1=n-1 by omega]

/- The number that some bytes end, behind those that have led to `n`: it is read if it fits. -/
lemma readVarIntFrom_cases (hma : max%128=127) (n : Nat) (bytes : Bytes) :
    (∃ m rest, (∃ b∈bytes, ¬128≤b.toNat) ∧ n ≤ m ∧
    (if n=0 then bytes else writeVarIntFrom (n-1) true bytes)=
        writeVarIntFrom m false rest ∧ readVarIntFrom max n bytes=
          if m ≤ max then .ok (m,rest) else .error "ReadVarInt(): size too large") ∨
      (∀ b∈bytes, 128≤b.toNat) ∧ ∃ e, readVarIntFrom max n bytes=.error e := by
  induction bytes generalizing n with
  | nil => exact .inr ⟨by simp,_,rfl⟩
  | cons c bytes ih =>
    rw [readVarIntFrom_cons,← writeVarIntFrom_cons]
    by_cases hm : 128 ≤ c.toNat
    · rw [if_pos hm,decide_eq_true hm]
      obtain ⟨m,rest,⟨b,hb,hl⟩,_,hw,hr⟩ | ⟨ha,e,hr⟩ := ih (n*128+c.toNat%128+1)
      · refine .inl ⟨m,rest,⟨b,mem_cons_of_mem _ hb,hl⟩,by omega,hw,?_⟩
        -- a refusal is never too early, as the number can only grow
        rw [hr]
        split_ifs <;> first | rfl | omega
      · refine .inr ⟨forall_mem_cons.mpr ⟨hm,ha⟩,?_⟩
        split_ifs
        · exact ⟨_,rfl⟩
        · exact ⟨_,rfl⟩
        · exact ⟨e,hr⟩
    · rw [if_neg hm,decide_eq_false hm]
      refine .inl ⟨_,bytes,⟨c,mem_cons_self,hm⟩,by omega,rfl,?_⟩
      split_ifs <;> first | rfl | omega

/-- The variable-length integers of an unsigned type of `k` bytes are a bijection. -/
theorem varInt_bijection (k : Nat) (hk : 0<k) :
    (∀ n rest, n<2^(8*k) → readVarInt (2^(8*k)-1) (writeVarInt n++rest)=.ok (n,rest) ∧
      (writeVarInt n).length=getSizeOfVarInt n ∧ (writeVarInt n).length≤(8*k+6)/7) ∧
    (∀ bytes n rest, readVarInt (2^(8*k)-1) bytes=.ok (n,rest) →
      n<2^(8*k) ∧ bytes=writeVarInt n++rest) ∧
    ∀ bytes, (∃ e, readVarInt (2^(8*k)-1) bytes=.error e) ↔
      (∀ b∈bytes, 128≤b.toNat) ∨ ∃ n rest, bytes=writeVarInt n++rest ∧ 2^(8*k)≤n := by
  have hp : 2^(8*k)=2^7*2^(8*k-7) := by rw [← pow_add,Nat.add_sub_of_le (by omega)]
  have hpo : 0<2^(8*k-7) := Nat.two_pow_pos _
  have hc := @readVarIntFrom_cases (2^(8*k)-1) (by omega) 0
  have ha (n : Nat) (rest : Bytes) : writeVarIntFrom n false rest=writeVarInt n++rest := by
    rw [writeVarInt,writeVarIntFrom_append,nil_append]
  refine ⟨fun n rest hn => ⟨?_,?_,?_⟩,fun bytes n rest hr => ?_,fun bytes => ⟨?_,?_⟩⟩
  · exact readsBack_readVarInt _ n rest (Nat.le_sub_one_of_lt hn)
  · rw [writeVarInt,writeVarIntFrom_length,length_nil,Nat.add_zero]
  · rw [writeVarInt,writeVarIntFrom_length,length_nil,Nat.add_zero]
    obtain ⟨m,hm⟩ : ∃ m, (8*k+6)/7=m+1 := ⟨(8*k+6)/7-1,by omega⟩
    rw [hm]
    refine getSizeOfVarInt_le (hn.trans_le ?_)
    rw [show 128=2^7 from rfl,← pow_mul]
    exact Nat.pow_le_pow_right (by decide) (by omega)
  · obtain ⟨m,r',-,-,hw,ho⟩ | ⟨-,e,he⟩ := hc bytes
    · rw [readVarInt,ho] at hr
      split_ifs at hr with hle
      cases hr
      exact ⟨by omega,hw.trans (ha _ _)⟩
    · cases he.symm.trans hr
  · rintro ⟨e,hr⟩
    obtain ⟨m,rest,-,-,hw,ho⟩ | ⟨hal,-⟩ := hc bytes
    · refine .inr ⟨m,rest,hw.trans (ha _ _),?_⟩
      by_contra hlt
      rw [readVarInt,ho,if_pos (by omega)] at hr
      cases hr
    · exact .inl hal
  · intro h
    obtain ⟨m,rest,⟨b,hb,hl⟩,-,hw,ho⟩ | ⟨-,hr⟩ := hc bytes
    · obtain hal | ⟨n,r',heq,hle⟩ := h
      · exact absurd (hal b hb) hl
      · obtain ⟨rfl,-⟩ := varInt_inj (heq.symm.trans (hw.trans (ha m rest)))
        exact ⟨_,ho.trans (if_neg (by omega))⟩
    · exact hr

/- The type with one byte. -/
theorem varInt_bijection_byte : readVarInt (2^8-1) (writeVarInt 200++[])=.ok (200,[]) :=
  (varInt_bijection 1 (by decide)).1 200 [] (by decide) |>.1
end
section
/- The loop that divides by ten: what is left and the exponent. -/
def divideTens : Nat → Nat → Nat → Nat×Nat
  | 0, n, e => (n,e)
  | k+1, n, e => if n%10=0 then divideTens k (n/10) (e+1) else (n,e)

def compressAmount (n : Nat) : Nat :=
  if n=0 then 0
  else
    let (n,e) := divideTens 9 n 0
    if e<9 then (1+(n/10*9+n%10-1)*10+e)%2^64 else (1+(n-1)*10+9)%2^64
def multiplyTens : Nat → Nat → Nat
  | 0, n => n
  | e+1, n => multiplyTens e (n*10%2^64)

def decompressAmount (x : Nat) : Nat :=
  if x=0 then 0
  else
    let x := x-1
    let e := x%10
    let x := x/10
    let n := if e<9 then x/9*10+(x%9+1) else x+1
    multiplyTens e n

lemma divideTens_spec (k n e : Nat) (hn : n≠0) :
    ∃ j≤k, (divideTens k n e).2=e+j ∧ (divideTens k n e).1*10^j=n ∧
      (j<k → (divideTens k n e).1%10≠0) := by
  induction k generalizing n e with
  | zero => exact ⟨0,le_rfl,rfl,mul_one n,fun h => absurd h (lt_irrefl 0)⟩
  | succ k ih =>
    unfold divideTens
    by_cases ht : n%10=0
    · rw [if_pos ht]
      obtain ⟨j,_,_,hp,hl⟩ := ih (n/10) (e+1) (by omega)
      refine ⟨j+1,by omega,by omega,?_,fun h => hl (by omega)⟩
      rw [pow_succ,← mul_assoc,hp]
      omega
    · rw [if_neg ht]
      exact ⟨0,zero_le _,rfl,mul_one n,fun _ => ht⟩

lemma multiplyTens_eq (e n : Nat) (h : n*10^e<2^64) : multiplyTens e n=n*10^e := by
  induction e generalizing n with
  | zero => exact (mul_one n).symm
  | succ e ih =>
    have hp : n*10^(e+1)=n*10*10^e := by rw [pow_succ']; exact (mul_assoc ..).symm
    have hl : n*10<2^64 := by
      rw [hp] at h
      exact (Nat.le_mul_of_pos_right _ (Nat.pow_pos (by decide))).trans_lt h
    unfold multiplyTens
    rw [mod_eq_of_lt hl,hp]
    exact ih (n*10) (hp ▸ h)

lemma decompressAmount_compressAmount (h : n≤10^13) :
    compressAmount n<2^64 ∧ decompressAmount (compressAmount n)=n := by
  by_cases hz : n=0
  · rw [hz]
    decide
  · obtain ⟨e,_,he,hp,hl⟩ := divideTens_spec 9 n 0 hz
    unfold compressAmount
    rw [if_neg hz]
    dsimp only
    rw [he,zero_add]
    generalize (divideTens 9 n 0).1=m at hp hl
    have hm : m≤10^13 := by
      refine le_trans ?_ h
      rw [← hp]
      exact Nat.le_mul_of_pos_right _ (Nat.pow_pos (by decide))
    have hpo : m≠0 := by
      intro hm
      rw [hm,zero_mul] at hp
      exact hz hp.symm
    have hb : multiplyTens e m=n := by
      rw [multiplyTens_eq e m (by rw [hp]; omega),hp]
    by_cases hfe : e<9
    · have hf : 1+(m/10*9+m%10-1)*10+e<2^64 := by omega
      rw [if_pos hfe,mod_eq_of_lt hf]
      refine ⟨hf,?_⟩
      unfold decompressAmount
      rw [if_neg (by omega)]
      have he : (1+(m/10*9+m%10-1)*10+e-1)%10=e := by omega
      have hr : (1+(m/10*9+m%10-1)*10+e-1)/10=m/10*9+m%10-1 := by omega
      have hnu : (m/10*9+m%10-1)/9*10+((m/10*9+m%10-1)%9+1)=m := by omega
      dsimp only
      rw [he,hr,if_pos hfe,hnu,hb]
    · have hn : e=9 := by omega
      have hf : 1+(m-1)*10+9<2^64 := by omega
      rw [if_neg hfe,mod_eq_of_lt hf]
      refine ⟨hf,?_⟩
      unfold decompressAmount
      rw [if_neg (by omega)]
      have he : (1+(m-1)*10+9-1)%10=9 := by omega
      have hr : (1+(m-1)*10+9-1)/10+1=m := by omega
      dsimp only
      rw [he,if_neg (by decide),hr,← hn,hb]
end
section
def opDup : UInt8 := 0x76
def opHash160 : UInt8 := 0xa9
def opEqual : UInt8 := 0x87
def opEqualVerify : UInt8 := 0x88
def opCheckSig : UInt8 := 0xac

/-- What the curve library does with public keys. -/
structure PubKeyOps where
  isFullyValid : Bytes → Bool
  decompress : Bytes → Option Bytes

variable (ops : PubKeyOps)

/-- Decompression inverts compression for fully valid keys. -/
def PubKeyOps.Inverts : Prop :=
  ∀ x y : Bytes, x.length=32 → y.length=32 → ops.isFullyValid (0x04::x++y) →
    ops.decompress ((if (y.getLastD 0).toNat%2=0 then 0x02 else 0x03)::x)=
      some (0x04::x++y)

variable (script : Bytes)

def isToKeyID : Option Bytes :=
  if script.length=25 ∧ script[0]?=some opDup ∧ script[1]?=some opHash160 ∧
      script[2]?=some 20 ∧ script[23]?=some opEqualVerify ∧ script[24]?=some opCheckSig then
    some ((script.drop 3).take 20)
  else none
def isToScriptID : Option Bytes :=
  if script.length=23 ∧ script[0]?=some opHash160 ∧ script[1]?=some 20 ∧
      script[22]?=some opEqual then some ((script.drop 2).take 20)
  else none

def isToPubKey : Option Bytes :=
  if script.length=35 ∧ script[0]?=some 33 ∧ script[34]?=some opCheckSig ∧
      (script[1]?=some 0x02 ∨ script[1]?=some 0x03) then
    some ((script.drop 1).take 33)
  else if script.length=67 ∧ script[0]?=some 65 ∧ script[66]?=some opCheckSig ∧
      script[1]?=some 0x04 then
    let pubkey := (script.drop 1).take 65
    if ops.isFullyValid pubkey then some pubkey else none
  else none

def compressPubKey (pubkey : Bytes) : Option Bytes :=
  let head := pubkey.getD 0 0
  if head=0x02 ∨ head=0x03 then some (head::(pubkey.drop 1).take 32)
  else if head=0x04 then
    some ((0x04 ||| (pubkey.getD 64 0 &&& 0x01))::(pubkey.drop 1).take 32)
  else none

def compressScript : Option Bytes :=
  match isToKeyID script with
  | some keyID => some (0x00::keyID)
  | none =>
    match isToScriptID script with
    | some scriptID => some (0x01::scriptID)
    | none =>
      match isToPubKey ops script with
      | some pubkey => compressPubKey pubkey
      | none => none

def getSpecialScriptSize (nSize : Nat) : Nat :=
  if nSize=0 ∨ nSize=1 then 20
  else if nSize=2 ∨ nSize=3 ∨ nSize=4 ∨ nSize=5 then 32
  else 0

def decompressScript (nSize : Nat) (bytes : Bytes) : Option Bytes :=
  match nSize with
  | 0x00 => some ([opDup,opHash160,20]++bytes.take 20++[opEqualVerify,opCheckSig])
  | 0x01 => some ([opHash160,20]++bytes.take 20++[opEqual])
  | 0x02 => some ([33,0x02]++bytes.take 32++[opCheckSig])
  | 0x03 => some ([33,0x03]++bytes.take 32++[opCheckSig])
  | 0x04 => (ops.decompress (0x02::bytes.take 32)).map fun pubkey => 65::pubkey++[opCheckSig]
  | 0x05 => (ops.decompress (0x03::bytes.take 32)).map fun pubkey => 65::pubkey++[opCheckSig]
  | _ => none

def nSpecialScripts : Nat := 6
def serScript : Bytes :=
  match compressScript ops script with
  | some compr => compr
  | none => writeVarInt ((script.length+nSpecialScripts)%2^32)++script
def ignoreBytes (n : Nat) : DataStream Unit := do
  let _ ← readBytes "DataStream::ignore(): end of data" n
  pure ()

/- A script that cannot be decompressed stays empty, and an overly long one becomes an invalid
   one. -/
def unserScript : DataStream Bytes := do
  let nSize ← readVarInt (2^32-1)
  if nSize<nSpecialScripts then do
    let vch ← readBytes END_OF_DATA (getSpecialScriptSize nSize)
    pure ((decompressScript ops nSize vch).getD [])
  else if MAX_SCRIPT_SIZE<nSize-nSpecialScripts then do
    ignoreBytes (nSize-nSpecialScripts)
    pure [OP_RETURN]
  else readBytes END_OF_DATA (nSize-nSpecialScripts)

lemma take_of_getElem? {script : Bytes} {a : UInt8} (h : script[n]?=some a) :
    script.take (n+1)=script.take n++[a] := by
  rw [take_add_one,h]
  rfl

lemma drop_of_getElem? {script : Bytes} {a : UInt8} (h : script[n]?=some a) :
    script.drop n=a::script.drop (n+1) := by
  rw [drop_eq_getElem?_toList_append,h]
  rfl

lemma eq_take_append (n m : Nat) :
    script=script.take n++((script.drop n).take m++script.drop (n+m)) := by
  rw [← drop_drop,take_append_drop,take_append_drop]

/-- A special script is written as one byte and a body from which it is rebuilt. -/
def Special (compr : Bytes) : Prop :=
  ∃ nSize body, nSize<nSpecialScripts ∧ compr=UInt8.ofNat nSize::body ∧
    body.length=getSpecialScriptSize nSize ∧ decompressScript ops nSize body=some script

variable {ops : PubKeyOps} {scr ha pu : Bytes}

lemma special_isToKeyID (h : isToKeyID scr=some ha) : Special ops scr (0x00::ha) := by
  unfold isToKeyID at h
  split_ifs at h with ht
  cases h
  obtain ⟨hl,h0,h1,h2,h23,h24⟩ := ht
  have hb : ((scr.drop 3).take 20).length=20 := by
    rw [length_take,length_drop]
    omega
  refine ⟨0,(scr.drop 3).take 20,by decide,rfl,hb,?_⟩
  unfold decompressScript
  conv_rhs => rw [eq_take_append scr 3 20]
  rw [take_of_getElem? h2,take_of_getElem? h1,take_of_getElem? h0,drop_of_getElem? h23,
    drop_of_getElem? h24,drop_eq_nil_of_le hl.le,take_of_length_le hb.le]
  rfl

lemma special_isToScriptID (h : isToScriptID scr=some ha) : Special ops scr (0x01::ha) := by
  unfold isToScriptID at h
  split_ifs at h with ht
  cases h
  obtain ⟨hl,h0,h1,h22⟩ := ht
  have hb : ((scr.drop 2).take 20).length=20 := by
    rw [length_take,length_drop]
    omega
  refine ⟨1,(scr.drop 2).take 20,by decide,rfl,hb,?_⟩
  unfold decompressScript
  conv_rhs => rw [eq_take_append scr 2 20]
  rw [take_of_getElem? h1,take_of_getElem? h0,drop_of_getElem? h22,
    drop_eq_nil_of_le hl.le,take_of_length_le hb.le]
  rfl

/- The low bit of the last byte tells the two points with one x apart. -/
lemma uncompressed_head (b : UInt8) : (0x04 ||| (b &&& 0x01))=if b.toNat%2=0 then 0x04
    else 0x05 := by
  have hb : b &&& 0x01=if b.toNat%2=0 then 0 else 1 := by
    apply UInt8.toNat_inj.mp
    change b.toNat &&& 1=_
    rw [and_one_is_mod]
    split_ifs with hp
    · exact hp
    · exact mod_two_ne_zero.mp hp
  rw [hb]
  split_ifs
  · decide
  · decide

lemma special_compressedKey {b : UInt8} (hl : scr.length=35) (h0 : scr[0]?=some 33)
    (h1 : scr[1]?=some b) (h34 : scr[34]?=some opCheckSig) (hb : b=0x02 ∨ b=0x03) :
    Special ops scr (b::(scr.drop 2).take 32) := by
  have hbo : ((scr.drop 2).take 32).length=32 := by
    rw [length_take,length_drop]
    omega
  have hs : [33,b]++((scr.drop 2).take 32).take 32++[opCheckSig]=scr := by
    conv_rhs => rw [eq_take_append scr 2 32]
    rw [take_of_getElem? h1,take_of_getElem? h0,drop_of_getElem? h34,
      drop_eq_nil_of_le hl.le,take_of_length_le hbo.le]
    rfl
  obtain rfl | rfl := hb
  · exact ⟨2,_,by decide,rfl,hbo,congrArg some hs⟩
  · exact ⟨3,_,by decide,rfl,hbo,congrArg some hs⟩

lemma special_uncompressedKey (hops : ops.Inverts) {x y : Bytes} (hx : x.length=32)
    (hy : y.length=32)
    (hv : ops.isFullyValid (0x04::x++y)) (hs : scr=65::(0x04::x++y)++[opCheckSig]) :
    Special ops scr ((0x04 ||| (y.getLastD 0 &&& 0x01))::x) := by
  have hk := hops x y hx hy hv
  rw [uncompressed_head]
  by_cases hp : (y.getLastD 0).toNat%2=0
  · rw [if_pos hp] at hk ⊢
    refine ⟨4,x,by decide,rfl,hx,?_⟩
    unfold decompressScript
    rw [take_of_length_le hx.le,hk,hs]
    rfl
  · rw [if_neg hp] at hk ⊢
    refine ⟨5,x,by decide,rfl,hx,?_⟩
    unfold decompressScript
    rw [take_of_length_le hx.le,hk,hs]
    rfl

lemma special_isToPubKey (hops : ops.Inverts) {c : Bytes}
    (h : isToPubKey ops scr=some pu) (hc : compressPubKey pu=some c) : Special ops scr c := by
  unfold isToPubKey at h
  split_ifs at h with ht ht'
  · cases h
    obtain ⟨hl,h0,h34,h1⟩ := ht
    have hbo : (((scr.drop 1).take 33).drop 1).take 32=(scr.drop 2).take 32 := by
      rw [drop_take,drop_drop,take_take]
      rfl
    obtain ⟨b,hb,h1⟩ : ∃ b : UInt8, (b=0x02 ∨ b=0x03) ∧ scr[1]?=some b := by
      obtain h1 | h1 := h1
      · exact ⟨_,.inl rfl,h1⟩
      · exact ⟨_,.inr rfl,h1⟩
    have hh : ((scr.drop 1).take 33).getD 0 0=b := by
      rw [getD_eq_getElem?_getD,getElem?_take_of_lt (by decide),getElem?_drop,h1]
      rfl
    unfold compressPubKey at hc
    rw [hh,if_pos hb,hbo] at hc
    cases hc
    exact special_compressedKey hl h0 h1 h34 hb
  · dsimp only at h
    split_ifs at h with hv
    cases h
    obtain ⟨hl,h0,h66,h1⟩ := ht'
    have hk : (scr.drop 1).take 65= 0x04::(scr.drop 2).take 32++(scr.drop 34).take 32 := by
      have hsp := take_add (l := scr.drop 2) (i := 32) (j := 32)
      rw [drop_drop] at hsp
      rw [drop_of_getElem? h1,take_succ_cons,hsp]
      rfl
    have hx : ((scr.drop 2).take 32).length=32 := by
      rw [length_take,length_drop]
      omega
    have hy : ((scr.drop 34).take 32).length=32 := by
      rw [length_take,length_drop]
      omega
    have hs : scr=65::(0x04::(scr.drop 2).take 32++(scr.drop 34).take 32)++ [opCheckSig] := by
      conv_lhs => rw [eq_take_append scr 1 65]
      rw [take_of_getElem? h0,drop_of_getElem? h66,drop_eq_nil_of_le hl.le,hk]
      rfl
    rw [hk] at hv hc
    generalize (scr.drop 2).take 32=x at hx hc hv hs
    generalize (scr.drop 34).take 32=y at hy hc hv hs
    have hbo : ((0x04::x++y).drop 1).take 32=x := take_left' hx
    have hla : (0x04::x++y).getD 64 0=y.getLastD 0 := by
      rw [getD_eq_getElem?_getD,getLastD_eq_getLast?,getLast?_eq_getElem?,hy,
        cons_append,getElem?_cons_succ,getElem?_append_right (by omega),hx]
    have hh : (0x04::x++y).getD 0 0=0x04 := rfl
    unfold compressPubKey at hc
    dsimp only at hc
    rw [hbo,hla,hh,if_neg (by decide),if_pos rfl] at hc
    cases hc
    exact special_uncompressedKey hops hx hy hv hs

lemma special_compressScript (hops : ops.Inverts) {c : Bytes}
    (h : compressScript ops scr=some c) : Special ops scr c := by
  unfold compressScript at h
  cases hk : isToKeyID scr with
  | some k =>
    rw [hk] at h
    cases h
    exact special_isToKeyID hk
  | none =>
    cases hi : isToScriptID scr with
    | some s =>
      rw [hk,hi] at h
      cases h
      exact special_isToScriptID hi
    | none =>
      cases hp : isToPubKey ops scr with
      | some pu =>
        rw [hk,hi,hp] at h
        exact special_isToPubKey hops hp h
      | none =>
        rw [hk,hi,hp] at h
        cases h

lemma readsBack_unserScript (hops : ops.Inverts) : ReadsBack (unserScript ops) (serScript ops)
      (fun scr => scr.length≤MAX_SCRIPT_SIZE) := by
  intro scr r hsc
  unfold unserScript serScript
  cases hc : compressScript ops scr with
  | some c =>
    obtain ⟨ns,b,hs,rfl,hb,hba⟩ := special_compressScript hops hc
    have hsm : ns<6 := hs
    have hfs : UInt8.ofNat ns::b++r=writeVarInt ns++(b++r) := by
      rw [writeVarInt_of_le (by omega)]
      rfl
    have hr := (codec_readBytes END_OF_DATA (getSpecialScriptSize ns)).reads b r hb
    rw [hfs,reader_bind_of_ok (readsBack_readVarInt _ ns _ (by omega)),if_pos hs,
      reader_bind_of_ok hr,hba]
    rfl
  | none =>
    have hl : scr.length≤10000 := hsc
    have hf : (scr.length+nSpecialScripts)%2^32=scr.length+nSpecialScripts :=
      mod_eq_of_lt (by unfold nSpecialScripts; omega)
    have hr := (codec_readBytes END_OF_DATA scr.length).reads scr r rfl
    rw [hf,append_assoc,reader_bind_of_ok (readsBack_readVarInt _ (scr.length+nSpecialScripts) _
        (by unfold nSpecialScripts; omega)),
      if_neg (Nat.not_lt.mpr (Nat.le_add_left _ _)),Nat.add_sub_cancel,if_neg (Nat.not_lt.mpr hsc)]
    exact hr
end
section
def serTxOut (ops : PubKeyOps) (out : TxOut) : Bytes :=
  writeVarInt (compressAmount (out.nValue%2^64).toNat)++serScript ops out.scriptPubKey

def unserTxOut (ops : PubKeyOps) : DataStream TxOut := do
  let v ← readVarInt (2^64-1)
  let scriptPubKey ← unserScript ops
  pure ⟨(decompressAmount v : Int).bmod (2^64),scriptPubKey⟩

/- Height and coinbase flag in one number of type uint32_t. -/
def Coin.code (coin : Coin) : Nat := (coin.nHeight*2+coin.fCoinBase.toNat)%2^32

/-- `none` is a failed assertion: a spent coin is never written. -/
def Coin.serialize (ops : PubKeyOps) (coin : Coin) : Option Bytes :=
  if coin.isSpent then none else some (writeVarInt coin.code++serTxOut ops coin.out)

def Coin.unserialize (ops : PubKeyOps) : DataStream Coin := do
  let code ← readVarInt (2^32-1)
  let out ← unserTxOut ops
  pure ⟨out,code%2==1,code/2⟩

/-- TxInUndoFormatter::Ser, with the dummy that older versions expect. -/
def serializeTxInUndo (ops : PubKeyOps) (txout : Coin) : Bytes :=
  writeVarInt txout.code++(if 0<txout.nHeight then serWritedata 1 0 else [])++
    serTxOut ops txout.out

def unserializeTxInUndo (ops : PubKeyOps) : DataStream Coin := do
  let nCode ← readVarInt (2^32-1)
  if 0<nCode/2 then do
    let _ ← readVarInt (2^32-1)
    let out ← unserTxOut ops
    pure ⟨out,nCode%2==1,nCode/2⟩
  else do
    let out ← unserTxOut ops
    pure ⟨out,nCode%2==1,nCode/2⟩

/-- A coin that AddCoin can store. -/
structure Coin.Storable (coin : Coin) : Prop where
  value : moneyRange coin.out.nValue
  script : coin.out.scriptPubKey.length≤MAX_SCRIPT_SIZE
  height : coin.nHeight<2^31

variable {ops : PubKeyOps}

lemma readsBack_unserTxOut (hops : ops.Inverts) :
    ReadsBack (unserTxOut ops) (serTxOut ops) (fun out =>
      moneyRange out.nValue ∧ out.scriptPubKey.length≤MAX_SCRIPT_SIZE) := by
  intro out r ho
  obtain ⟨hl,hh⟩ := (moneyRange_iff _).mp ho.1
  unfold MAX_MONEY COIN at hh
  have hm : out.nValue%2^64=out.nValue := Int.emod_eq_of_lt hl (by omega)
  obtain ⟨_,hb⟩ := decompressAmount_compressAmount (n := out.nValue.toNat) (by omega)
  unfold unserTxOut serTxOut
  rw [hm,append_assoc,reader_bind_of_ok (readsBack_readVarInt _ _ _ (by omega)),
    reader_bind_of_ok (readsBack_unserScript hops _ r ho.2),hb,
    Int.toNat_of_nonneg hl,Int.bmod_eq_of_le (by omega) (by omega)]
  rfl

lemma Coin.Storable.code {c : Coin} (h : c.Storable) :
    c.code≤2^32-1 ∧ c.code/2=c.nHeight ∧ (c.code%2==1)=c.fCoinBase := by
  have hh := h.height
  unfold Coin.code
  cases c.fCoinBase with
  | false =>
    rw [Bool.toNat_false]
    refine ⟨by omega,by omega,?_⟩
    rw [beq_eq_false_iff_ne]
    omega
  | true =>
    rw [Bool.toNat_true]
    refine ⟨by omega,by omega,?_⟩
    rw [beq_iff_eq]
    omega

lemma Coin.unserialize_serialize (hops : ops.Inverts) : ReadsBack (Coin.unserialize ops)
      (fun coin => writeVarInt coin.code++serTxOut ops coin.out) Coin.Storable := by
  intro coin r h
  obtain ⟨hf,hh,hc⟩ := h.code
  unfold Coin.unserialize
  rw [append_assoc,reader_bind_of_ok (readsBack_readVarInt _ _ _ hf),
    reader_bind_of_ok (readsBack_unserTxOut hops _ r ⟨h.value,h.script⟩),hh,hc]
  rfl

lemma unserializeTxInUndo_serializeTxInUndo (hops : ops.Inverts) :
    ReadsBack (unserializeTxInUndo ops) (serializeTxInUndo ops) Coin.Storable := by
  intro c r h
  obtain ⟨hf,hh,hc⟩ := h.code
  have ho := readsBack_unserTxOut hops c.out r ⟨h.value,h.script⟩
  unfold unserializeTxInUndo serializeTxInUndo
  rw [append_assoc,append_assoc,reader_bind_of_ok (readsBack_readVarInt _ _ _ hf),hh,hc]
  by_cases hp : 0 < c.nHeight
  · have hd : readVarInt (2^32-1) (serWritedata 1 0++(serTxOut ops c.out++r))=
        .ok (0,serTxOut ops c.out++r) := rfl
    rw [if_pos hp,if_pos hp,reader_bind_of_ok hd,reader_bind_of_ok ho]
    rfl
  · rw [if_neg hp,if_neg hp,nil_append,reader_bind_of_ok ho]
    rfl

lemma Coin.Storable.serialize {c : Coin} (h : c.Storable) :
    c.serialize ops=some (writeVarInt c.code++serTxOut ops c.out) := by
  have hl := ((moneyRange_iff _).mp h.value).1
  have hu : c.isSpent=false := by
    unfold Coin.isSpent TxOut.isNull
    rw [beq_eq_false_iff_ne]
    omega
  unfold Coin.serialize
  rw [hu]
  rfl

lemma mapM_serialize {c : List Coin} (h : ∀ coin∈c, coin.Storable) : c.mapM (Coin.serialize ops)=
      some (c.map fun coin => writeVarInt coin.code++serTxOut ops coin.out) := by
  induction c with
  | nil => rfl
  | cons coin c ih =>
    obtain ⟨hc,hco⟩ := forall_mem_cons.mp h
    rw [mapM_cons,hc.serialize,ih hco]
    rfl

/-- Coins in the database and undo records are read back as they were written, one by one. -/
theorem coin_records_round_trip (ops : PubKeyOps) (hops : ops.Inverts) :
    (∀ (coin : Coin) (rest : Bytes), coin.Storable → ∃ bytes, coin.serialize ops=some bytes ∧
      Coin.unserialize ops (bytes++rest)=.ok (coin,rest)) ∧
    (∀ (coin : Coin) (rest : Bytes), coin.Storable →
      unserializeTxInUndo ops (serializeTxInUndo ops coin++rest)=.ok (coin,rest)) ∧
    ∀ (coins : List Coin) (rest : Bytes), (∀ coin∈coins, coin.Storable) →
      (∃ records, coins.mapM (Coin.serialize ops)=some records ∧
        readMany (Coin.unserialize ops) coins.length (records.flatten++rest)=.ok (coins,rest)) ∧
      readMany (unserializeTxInUndo ops) coins.length
        (coins.flatMap (serializeTxInUndo ops)++rest)=.ok (coins,rest) := by
  have hc := Coin.unserialize_serialize hops
  have hu := unserializeTxInUndo_serializeTxInUndo hops
  refine ⟨fun coin rest h => ⟨_,h.serialize,hc coin rest h⟩,hu,fun coins rest h => ⟨?_,?_⟩⟩
  · refine ⟨_,mapM_serialize h,?_⟩
    exact hc.many coins rest h
  · exact hu.many coins rest h

def onePoint : PubKeyOps where
  isFullyValid key := key==0x04::replicate 32 1++replicate 32 2
  decompress key := if key=0x02::replicate 32 1 then
    some (0x04::replicate 32 1++replicate 32 2) else none

lemma onePoint_inverts : onePoint.Inverts := by
  intro x y hx _ hv
  have hk : 0x04::x++y=0x04::replicate 32 1++replicate 32 2 := beq_iff_eq.mp hv
  obtain ⟨hx',hy'⟩ := append_inj (cons.inj hk).2 (by rw [hx]; rfl)
  rw [hx',hy']
  decide

def pubKeyCoin : Coin :=
  ⟨⟨5000000000,65::0x04::replicate 32 1++replicate 32 2++[opCheckSig]⟩,true,7⟩

theorem coin_records_round_trip_pubKey : ∃ bytes, pubKeyCoin.serialize onePoint=some bytes ∧
    Coin.unserialize onePoint (bytes++[1])=.ok (pubKeyCoin,[1]) :=
  (coin_records_round_trip onePoint onePoint_inverts).1 pubKeyCoin [1]
    ⟨by decide,by decide,by decide⟩
end
end Xero
