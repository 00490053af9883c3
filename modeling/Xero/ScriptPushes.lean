import Xero.ScriptNumber

/-! Building a script and reading it back, and which pushes CheckMinimalPush accepts. -/
namespace Xero
open List Nat

/-- What operator<< appends. -/
inductive ScriptItem where
  | opcode (n : Nat)
  | int64 (n : Int)
  | data (b : Bytes)

def pushInt64 (n : Int) : Bytes :=
  if n=-1 ∨ 1≤n ∧ n≤16 then [UInt8.ofNat (n+(OP_1-1)).toNat]
  else if n=0 then [UInt8.ofNat OP_0]
  else pushData (serializeNum n)
def ScriptItem.bytes : ScriptItem → Bytes
  | .opcode n => [UInt8.ofNat n]
  | .int64 n => pushInt64 n
  | .data b => pushData b

def ScriptItem.Valid : ScriptItem → Prop
  | .opcode n => OP_PUSHDATA4<n ∧ n≤0xff
  | .int64 n => -2^63≤n ∧ n<2^63
  | .data b => b.length<2^32
def build (items : List ScriptItem) : Bytes :=
    items.foldl (fun script item => script++item.bytes) []
def pushOpcode (size : Nat) : Nat :=
  if size<OP_PUSHDATA1 then size else if size≤0xff then OP_PUSHDATA1
  else if size≤0xffff then OP_PUSHDATA2 else OP_PUSHDATA4

/-- The opcode and the data of an item. -/
def ScriptItem.instruction : ScriptItem → Nat×Bytes
  | .opcode n => (n,[])
  | .int64 n =>
    if n=-1 ∨ 1≤n ∧ n≤16 then ((n+(OP_1-1)).toNat,[])
    else (pushOpcode (serializeNum n).length,serializeNum n)
  | .data b => (pushOpcode b.length,b)

/-- GetOp reads these instructions and comes to the end of the script. -/
def Reads : Bytes → List (Nat×Bytes) → Prop
  | pc, [] => pc=[]
  | pc, (opcode,data)::ops => ∃ rest, getScriptOp pc=some (opcode,data,rest) ∧ Reads rest ops

lemma readLE_writeLE (k n : Nat) : readLE (writeLE k n)=n%256^k := by
  induction k generalizing n with
  | zero => simp [writeLE,readLE,mod_one]
  | succ k ih =>
    have hb : n%256%2^8=n%256 := mod_mod_of_dvd n (by decide)
    rw [writeLE,readLE,ih,UInt8.toNat_ofNat',hb,pow_succ',mod_mul]

lemma writeLE_length (k n : Nat) : (writeLE k n).length=k := by
  induction k generalizing n with
  | zero => rfl
  | succ k ih => rw [writeLE,length_cons,ih]

lemma toNat_ofNat_byte {n : Nat} (h : n<256) : (UInt8.ofNat n).toNat=n := by
  rw [UInt8.toNat_ofNat',mod_eq_of_lt h]

lemma takeOperand_append {opcode n : Nat} {data rest : Bytes} (h : n=data.length) :
    takeOperand opcode n (data++rest)=some (opcode,data,rest) := by
  simp [takeOperand,h]

lemma getScriptOp_pushData {data : Bytes} (rest : Bytes) (h : data.length<2^32) :
    getScriptOp (pushData data++rest)=some (pushOpcode data.length,data,rest) := by
  have hs (opcode k : Nat) (hop : ∀ pc, getScriptOp (UInt8.ofNat opcode::pc)=if pc.length<k then
      none else takeOperand opcode (readLE (pc.take k)) (pc.drop k)) (hk : data.length<256^k) :
      getScriptOp (UInt8.ofNat opcode::(writeLE k data.length++(data++rest)))=some (opcode,
          data,rest) := by
    have hl := writeLE_length k data.length
    rw [hop,take_left' hl,drop_left' hl,readLE_writeLE,mod_eq_of_lt hk,takeOperand_append rfl,
      if_neg (by rw [length_append]; omega)]
  unfold pushData pushOpcode
  split_ifs with hd ho ht
  · have hb := toNat_ofNat_byte (lt_trans hd (by decide))
    rw [cons_append,getScriptOp,hb,if_neg (by simp [OP_PUSHDATA1,OP_PUSHDATA4] at *; omega),
      if_pos hd,takeOperand_append rfl]
  · have hw : UInt8.ofNat data.length::data=writeLE 1 data.length++data := by
      rw [writeLE,mod_eq_of_lt (lt_succ_of_le ho)]
      rfl
    rw [hw,cons_append]
    exact hs _ 1 (fun _ => rfl) (lt_succ_of_le ho)
  · exact hs _ 2 (fun _ => rfl) (lt_succ_of_le ht)
  · exact hs _ 4 (fun _ => rfl) h

lemma getScriptOp_single {opcode : Nat} (rest : Bytes) (h : OP_PUSHDATA4<opcode ∧ opcode≤0xff) :
    getScriptOp (UInt8.ofNat opcode::rest)=some (opcode,[],rest) := by
  rw [getScriptOp,toNat_ofNat_byte (lt_succ_of_le h.2),if_pos h.1]

lemma getScriptOp_item (i : ScriptItem) (rest : Bytes) (h : i.Valid) :
    getScriptOp (i.bytes++rest)=some (i.instruction.1,i.instruction.2,rest) := by
  cases i with
  | opcode n => exact getScriptOp_single rest h
  | data b => exact getScriptOp_pushData rest h
  | int64 n =>
    simp only [ScriptItem.bytes,ScriptItem.instruction,pushInt64]
    split_ifs with hs hz
    · exact getScriptOp_single rest (by simp only [OP_1,OP_PUSHDATA4]; omega)
    · rw [hz,serializeNum_zero]
      exact @getScriptOp_pushData [] rest (Nat.two_pow_pos 32)
    · refine getScriptOp_pushData rest (Nat.lt_of_le_of_lt
          (serializeNum_length_le (k := 8) ?_) (by decide))
      simp only [ScriptItem.Valid] at h
      omega

lemma reads_build (i : List ScriptItem) (h : ∀ item∈i, item.Valid) :
    Reads (build i) (i.map ScriptItem.instruction) := by
  rw [build,← flatMap_eq_foldl]
  induction i with
  | nil => rfl
  | cons item i ih =>
    rw [forall_mem_cons] at h
    exact ⟨i.flatMap ScriptItem.bytes,getScriptOp_item item _ h.1,ih h.2⟩

/-- A script of one instruction that pushes the value. -/
def Pushes (script value : Bytes) : Prop :=
    ∃ opcode data, getScriptOp script=some (opcode,data,[]) ∧
  (opcode≤OP_PUSHDATA4 ∧ data=value ∨ ∃ n, decodeOp opcode=.pushNum n ∧ value=serializeNum n)

/-- The length of the shortest instruction that pushes the data. -/
def shortestPush (data : Bytes) : Nat :=
  if data.length=0 then 1
  else if data.length=1 ∧ 1≤byteAt data 0 ∧ byteAt data 0≤16 then 1
  else if data.length=1 ∧ byteAt data 0=0x81 then 1
  else if data.length≤75 then data.length+1
  else if data.length≤255 then data.length+2
  else if data.length≤65535 then data.length+3
  else data.length+5

variable {pc data rest : Bytes} {opcode : Nat}

lemma checkMinimalPush_iff (h : getScriptOp pc=some (opcode,data,rest)) (ho : opcode≤OP_PUSHDATA4) :
    checkMinimalPush data opcode ↔ pc.length-rest.length ≤ shortestPush data := by
  obtain ⟨hl,-⟩ | ⟨k,_,-,_⟩ := getScriptOp_size h
  · exact absurd ho (not_le.mpr hl)
  · unfold checkMinimalPush shortestPush
    split_ifs <;> simp [OP_0,OP_PUSHDATA1,OP_PUSHDATA2,OP_PUSHDATA4] at * <;> omega

lemma shortestPush_small : ∀ opcode∈0x4f::List.range' 0x51 16,
    shortestPush (serializeNum ((opcode : Nat)-(OP_1-1) : Int))=1 := by decide +kernel

lemma serializeNum_byte : ∀ b : UInt8, (1≤b.toNat ∧ b.toNat≤16 → serializeNum b.toNat=[b]) ∧
    (b.toNat=0x81 → serializeNum (-1)=[b]) := by
  rintro ⟨v⟩
  revert v
  decide +kernel

lemma shortestPush_le {v : Bytes} (h : Pushes pc v) : shortestPush v≤pc.length := by
  obtain ⟨opcode,_,ho,⟨hl,rfl⟩ | ⟨n,hn,rfl⟩⟩ := h
  · obtain ⟨hlt,-⟩ | ⟨k,_,-,_⟩ := getScriptOp_size ho
    · exact absurd hl (not_le.mpr hlt)
    · unfold shortestPush
      split_ifs <;> omega
  · obtain ⟨hr,rfl⟩ := decodeOp_pushNum hn
    simp only [OP_1,OP_16] at hr
    rw [shortestPush_small opcode (by simp only [mem_cons,mem_range'_1]; omega)]
    exact getScriptOp_length ho

lemma exists_shortestPush (h : data.length<2^32) :
    ∃ script, Pushes script data ∧ script.length=shortestPush data := by
  have hp : Pushes (pushData data) data := by
    refine ⟨_,_,by simpa using getScriptOp_pushData [] h,.inl ⟨?_,rfl⟩⟩
    unfold pushOpcode
    split_ifs with hd
    · exact le_trans (le_of_lt hd) (by decide)
    all_goals decide
  have hl : (pushData data).length=data.length+(if data.length≤75 then 1
      else if data.length≤255 then 2 else if data.length≤65535 then 3 else 5) := by
    unfold pushData
    split_ifs <;> simp [OP_PUSHDATA1,writeLE_length] at * <;> omega
  by_cases ho : data.length=1 ∧ (1≤byteAt data 0 ∧ byteAt data 0≤16 ∨ byteAt data 0=0x81)
  · obtain ⟨b,rfl⟩ := length_eq_one_iff.mp ho.1
    have hsh : shortestPush [b]=1 := by
      unfold shortestPush
      split_ifs <;> first | rfl | omega
    obtain hs | hn := ho.2
    · change 1≤b.toNat ∧ b.toNat≤16 at hs
      have hr : OP_1≤b.toNat+80 ∧ b.toNat+80≤OP_16 := by
        simp only [OP_1,OP_16]
        omega
      have hop : decodeOp (b.toNat+80)=.pushNum b.toNat := by
        unfold decodeOp
        rw [if_pos (.inr hr)]
        simp [OP_1]
      have hsi := getScriptOp_single [] ⟨lt_of_lt_of_le (by decide) hr.1,le_trans hr.2 (by decide)⟩
      exact ⟨_,⟨_,[],hsi,.inr ⟨_,hop,((serializeNum_byte b).1 hs).symm⟩⟩,hsh.symm⟩
    · exact ⟨[0x4f],⟨0x4f,[],rfl,.inr ⟨-1,rfl,((serializeNum_byte b).2 hn).symm⟩⟩,hsh.symm⟩
  · refine ⟨pushData data,hp,?_⟩
    rw [hl,shortestPush]
    split_ifs <;> omega

/-- Building and parsing a script are inverse, and CheckMinimalPush accepts exactly the pushes of
which no other instruction that pushes the same value is shorter. -/
theorem script_pushes : (∀ items, (∀ item∈items, ScriptItem.Valid item) →
      Reads (build items) (items.map ScriptItem.instruction)) ∧
    ∀ pc opcode data rest, getScriptOp pc=some (opcode,data,rest) → opcode≤OP_PUSHDATA4 →
      (checkMinimalPush data opcode ↔
        ∀ script, Pushes script data → pc.length-rest.length ≤ script.length) := by
  refine ⟨reads_build,fun pc opcode data rest h ho => ?_⟩
  rw [checkMinimalPush_iff h ho]
  constructor
  · exact fun hle script hp => Nat.le_trans hle (shortestPush_le hp)
  · intro ha
    obtain ⟨hlt,-⟩ | ⟨-,-,hs,-⟩ := getScriptOp_size h
    · exact absurd ho (Nat.not_le.mpr hlt)
    obtain ⟨script,hp,hl⟩ := exists_shortestPush hs
    rw [← hl]
    exact ha script hp
end Xero
