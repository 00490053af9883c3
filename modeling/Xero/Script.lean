import Xero.Primitives
import Xero.Library.Checks

/-! Scripts as byte strings: reading and writing their instructions, script numbers, the shapes
VerifyScript looks for, and the encodings of signatures and keys. -/
namespace Xero
open Library List
variable {opcode : Nat} {data pc rest : Bytes}

inductive ScriptError where
  | unknownError | evalFalse | opReturn
  | scriptSize | pushSize | opCount | stackSize | sigCount | pubkeyCount
  | verify | equalVerify | checkMultisigVerify | checkSigVerify | numEqualVerify
  | badOpcode | disabledOpcode | invalidStackOperation | invalidAltstackOperation
  | unbalancedConditional
  | negativeLocktime | unsatisfiedLocktime
  | sigHashtype | sigDer | minimalData | sigPushOnly | sigHighS | sigNullDummy | pubkeyType
  | cleanStack | minimalIf | sigNullFail
  | discourageUpgradableNops | discourageUpgradableWitnessProgram
  | discourageUpgradableTaprootVersion | discourageOpSuccess | discourageUpgradablePubkeyType
  | witnessProgramWrongLength | witnessProgramWitnessEmpty | witnessProgramMismatch
  | witnessMalleated | witnessMalleatedP2SH | witnessUnexpected | witnessPubkeyType
  | schnorrSigSize | schnorrSigHashtype | schnorrSig | taprootWrongControlSize
  | tapscriptValidationWeight | tapscriptCheckMultisig | tapscriptMinimalIf
  | opCodeSeparator | sigFindAndDelete
deriving Repr, DecidableEq

/-- How script code fails: it returns false with an error set, or an assert stops the program. -/
inductive ScriptFailure where
  | fails (serror : ScriptError)
  | asserts
deriving Repr, DecidableEq

abbrev ScriptResult (α : Type) := Except ScriptFailure α
def setErrorIf (b : Bool) (serror : ScriptError) : ScriptResult Unit := rejectIf b (.fails serror)
def MAX_SCRIPT_ELEMENT_SIZE : Nat := 520
def MAX_OPS_PER_SCRIPT : Nat := 201
def MAX_PUBKEYS_PER_MULTISIG : Nat := 20
def MAX_STACK_SIZE : Nat := 1000

def OP_0 : Nat := 0x00
def OP_PUSHDATA1 : Nat := 0x4c
def OP_PUSHDATA2 : Nat := 0x4d
def OP_PUSHDATA4 : Nat := 0x4e
def OP_1 : Nat := 0x51
def OP_16 : Nat := 0x60
def OP_IF : Nat := 0x63
def OP_ENDIF : Nat := 0x68
def OP_CODESEPARATOR : Nat := 0xab

def readLE : Bytes → Nat
  | [] => 0
  | b::bytes => b.toNat+256*readLE bytes

/- WriteLE16, WriteLE32 and WriteLE64 by the number of bytes. -/
def writeLE : Nat → Nat → Bytes
  | 0, _ => []
  | n+1, x => UInt8.ofNat (x%256)::writeLE n (x/256)

/- The operand of an instruction: `nSize` bytes, when that many are left. -/
def takeOperand (opcode nSize : Nat) (pc : Bytes) : Option (Nat×Bytes×Bytes) :=
  if pc.length<nSize then none else some (opcode,pc.take nSize,pc.drop nSize)

/-- GetScriptOp: the opcode at the front, the data it pushes and the rest of the script. -/
def getScriptOp : Bytes → Option (Nat×Bytes×Bytes)
  | [] => none
  | b::pc =>
    let opcode := b.toNat
    if OP_PUSHDATA4<opcode then some (opcode,[],pc)
    else if opcode<OP_PUSHDATA1 then takeOperand opcode opcode pc
    else if opcode=OP_PUSHDATA1 then
      if pc.length<1 then none else takeOperand opcode (readLE (pc.take 1)) (pc.drop 1)
    else if opcode=OP_PUSHDATA2 then
      if pc.length<2 then none else takeOperand opcode (readLE (pc.take 2)) (pc.drop 2)
    else
      if pc.length<4 then none else takeOperand opcode (readLE (pc.take 4)) (pc.drop 4)

lemma readLE_lt (vch : Bytes) : readLE vch<256^vch.length := by
  induction vch with
  | nil => exact Nat.one_pos
  | cons b vch ih =>
    have hb := b.toNat_lt
    rw [readLE,length_cons]
    omega

lemma takeOperand_size {n op : Nat} (h : takeOperand op n pc=some (opcode,data,rest)) :
    op=opcode ∧ data.length=n ∧ pc.length=rest.length+n := by
  unfold takeOperand at h
  split at h
  · cases h
  · cases h
    rw [length_take,length_drop]
    omega

/-- An instruction is an opcode above OP_PUSHDATA4, or a push with its data and `k` bytes of size. -/
lemma getScriptOp_size (h : getScriptOp pc=some (opcode,data,rest)) :
    OP_PUSHDATA4<opcode ∧ data=[] ∧ pc.length=rest.length+1 ∨
    ∃ k, pc.length=rest.length+data.length+1+k ∧ data.length<2^32 ∧
      (opcode=data.length ∧ data.length≤75 ∧ k=0 ∨ opcode=OP_PUSHDATA1 ∧ data.length≤255 ∧ k=1 ∨
        opcode=OP_PUSHDATA2 ∧ data.length≤65535 ∧ k=2 ∨ opcode=OP_PUSHDATA4 ∧ k=4) := by
  cases pc with
  | nil => cases h
  | cons b pc =>
    have hsi (k : Nat) (h : (if pc.length<k then none
        else takeOperand b.toNat (readLE (pc.take k)) (pc.drop k))=some (opcode,data,rest)) :
        b.toNat=opcode ∧ data.length<256^k ∧ (b::pc).length=rest.length+data.length+1+k := by
      split at h
      · cases h
      · obtain ⟨ho,hd,hr⟩ := takeOperand_size h
        have hl := readLE_lt (pc.take k)
        rw [length_take,Nat.min_eq_left (by omega),← hd] at hl
        rw [length_drop] at hr
        exact ⟨ho,hl,by rw [length_cons]; omega⟩
    simp only [getScriptOp] at h
    have hops : OP_PUSHDATA1=76 ∧ OP_PUSHDATA2=77 ∧ OP_PUSHDATA4=78 := ⟨rfl,rfl,rfl⟩
    split at h
    · cases h
      exact .inl ⟨‹_›,rfl,rfl⟩
    split at h
    · obtain ⟨rfl,hd,hr⟩ := takeOperand_size h
      exact .inr ⟨0,by rw [length_cons]; omega,by omega,.inl ⟨hd.symm,by omega,rfl⟩⟩
    split at h
    · have hs := hsi 1 h
      exact .inr ⟨1,hs.2.2,by omega,by omega⟩
    split at h
    · have hs := hsi 2 h
      exact .inr ⟨2,hs.2.2,by omega,by omega⟩
    · have hs := hsi 4 h
      exact .inr ⟨4,hs.2.2,by omega,by omega⟩

lemma getScriptOp_length (h : getScriptOp pc=some (opcode,data,rest)) : rest.length<pc.length := by
  obtain ⟨-,-,hl⟩ | ⟨k,hl,-⟩ := getScriptOp_size h <;> omega

/-- A script is read instruction by instruction, to its end or to one that cannot be decoded. -/
lemma script_induction {motive : Bytes → Prop} (pc : Bytes) (nil : motive [])
    (undecodable : ∀ pc, pc≠[] → getScriptOp pc=none → motive pc)
    (instruction : ∀ pc opcode data rest, getScriptOp pc=some (opcode,data,rest) →
      motive rest → motive pc) : motive pc := by
  induction hn : pc.length using Nat.strongRecOn generalizing pc with
  | ind n ih =>
    cases ho : getScriptOp pc with
    | none =>
      by_cases hp : pc=[]
      · rw [hp]
        exact nil
      · exact undecodable pc hp ho
    | some op =>
      obtain ⟨opcode,data,rest⟩ := op
      exact instruction pc opcode data rest ho
          (ih rest.length (hn ▸ getScriptOp_length ho) rest rfl)

lemma ne_nil_of_getScriptOp {op : Nat×Bytes×Bytes} (h : getScriptOp pc=some op) : pc≠[] := by
  rintro rfl
  cases h

def pushData (data : Bytes) : Bytes :=
  if data.length<OP_PUSHDATA1 then UInt8.ofNat data.length::data
  else if data.length≤0xff then UInt8.ofNat OP_PUSHDATA1::UInt8.ofNat data.length::data
  else if data.length≤0xffff then UInt8.ofNat OP_PUSHDATA2::(writeLE 2 data.length++data)
  else UInt8.ofNat OP_PUSHDATA4::(writeLE 4 data.length++data)
def byteAt (script : Bytes) (i : Nat) : Nat := (script.getD i 0).toNat
def isPayToScriptHash (script : Bytes) : Bool :=
  script.length == 23 && byteAt script 0 == 0xa9 && byteAt script 1 ==
      0x14 && byteAt script 22 == 0x87

/- IsWitnessProgram, with the version and the program it reads. -/
def isWitnessProgram (script : Bytes) : Option (Nat×Bytes) :=
  if script.length<4 ∨ 42 < script.length then none
  else if byteAt script 0≠OP_0 ∧ (byteAt script 0<OP_1 ∨ OP_16<byteAt script 0) then none
  else if byteAt script 1+2=script.length then
    some (if byteAt script 0=OP_0 then 0 else byteAt script 0-(OP_1-1),script.drop 2)
  else none

def isPushOnly (pc : Bytes) : Bool :=
  if pc=[] then true
  else
    match _h : getScriptOp pc with
    | none => false
    | some (opcode,_,rest) => if OP_16<opcode then false else isPushOnly rest
termination_by pc.length
decreasing_by exact getScriptOp_length _h

def isOpSuccess (opcode : Nat) : Bool :=
  opcode == 80 || opcode == 98 || decide (126≤opcode ∧ opcode≤129) ||
    decide (131≤opcode ∧ opcode≤134) || decide (137≤opcode ∧ opcode≤138) ||
    decide (141≤opcode ∧ opcode≤142) || decide (149≤opcode ∧ opcode≤153) ||
    decide (187≤opcode ∧ opcode≤254)

def checkMinimalPush (data : Bytes) (opcode : Nat) : Bool :=
  if data.length=0 then opcode == OP_0
  else if data.length=1 ∧ 1≤byteAt data 0 ∧ byteAt data 0≤16 then false
  else if data.length=1 ∧ byteAt data 0=0x81 then false
  else if data.length≤75 then opcode == data.length
  else if data.length≤255 then opcode == OP_PUSHDATA1
  else if data.length≤65535 then opcode == OP_PUSHDATA2
  else true

/- Strips `b` from the front as often as it stands there, and counts. -/
def skipCopies (b pc : Bytes) : Bytes×Nat :=
  if _h : b≠[] ∧ b.isPrefixOf pc then
    let (rest,n) := skipCopies b (pc.drop b.length)
    (rest,n+1)
  else (pc,0)
termination_by pc.length
decreasing_by
  have hpos := length_pos_iff.2 _h.1
  have hle := ( isPrefixOf_iff_prefix.1 _h.2).length_le
  rw [length_drop]
  omega

lemma skipCopies_length (b pc : Bytes) : (skipCopies b pc).1.length≤pc.length := by
  fun_induction skipCopies b pc with
  | case1 pc h rest n hs ih =>
    rw [hs,length_drop] at ih
    dsimp only at ih ⊢
    omega
  | case2 pc h => exact Nat.le_refl _

/-- FindAndDelete: the script without the copies of `b` that start at an instruction, and how
many there were. -/
def findAndDelete (script b : Bytes) : Bytes×Nat :=
  match _h : getScriptOp (skipCopies b script).1 with
  | none => skipCopies b script
  | some (_,_,rest) =>
    let pc := (skipCopies b script).1
    let (result,n) := findAndDelete rest b
    (pc.take (pc.length-rest.length)++result,(skipCopies b script).2+n)
termination_by script.length
decreasing_by exact Nat.lt_of_lt_of_le (getScriptOp_length _h) (skipCopies_length b script)

/- The bytes of a positive number, the lowest first. -/
def bytesLE (n : Nat) : Bytes :=
  if n=0 then [] else UInt8.ofNat (n%256)::bytesLE (n/256)
termination_by n
decreasing_by omega

/- The sign goes into the top bit of the last byte, or into one more byte when it is taken. -/
def addSign (neg : Bool) : Bytes → Bytes
  | [] => []
  | [b] => if b &&& 0x80≠0 then [b,if neg then 0x80 else 0] else if neg then [b ||| 0x80] else [b]
  | b::bytes => b::addSign neg bytes

def serializeNum (value : Int) : Bytes := addSign (decide (value<0)) (bytesLE value.natAbs)

def setVch (vch : Bytes) : Int :=
  match vch.getLast? with
  | none => 0
  | some back =>
    if back &&& 0x80≠0 then -((readLE vch : Int)-0x80*256^(vch.length-1)) else readLE vch

/- The test for a number encoded with more bytes than it needs. -/
def isMinimalNum (vch : Bytes) : Bool :=
  match vch.reverse with
  | [] => true
  | [back] => back &&& 0x7f != 0
  | back::second::_ => back &&& 0x7f != 0 || second &&& 0x80 != 0

/-- The checked constructor of CScriptNum. The exceptions it throws end the script with
SCRIPT_ERR_UNKNOWN_ERROR. -/
def scriptNum (fRequireMinimal : Bool) (nMaxNumSize : Nat) (vch : Bytes) : ScriptResult Int := do
  setErrorIf (decide (nMaxNumSize<vch.length)) .unknownError
  setErrorIf (fRequireMinimal && !isMinimalNum vch) .unknownError
  pure (setVch vch)

def getInt (n : Int) : Int := max (-2^31) (min n (2^31-1))
def castToBool : Bytes → Bool
  | [] => false
  | [b] => b != 0 && b != 0x80
  | b::vch => b != 0 || castToBool vch
def COMPRESSED_SIZE : Nat := 33
def PUBKEY_SIZE : Nat := 65

def isCompressedOrUncompressedPubKey (vchPubKey : Bytes) : Bool :=
  if vchPubKey.length<COMPRESSED_SIZE then false
  else if byteAt vchPubKey 0=0x04 then vchPubKey.length == PUBKEY_SIZE
  else if byteAt vchPubKey 0=0x02 ∨ byteAt vchPubKey 0=0x03 then vchPubKey.length == COMPRESSED_SIZE
  else false
def isCompressedPubKey (vchPubKey : Bytes) : Bool :=
  vchPubKey.length == COMPRESSED_SIZE && (byteAt vchPubKey 0 == 0x02 || byteAt vchPubKey 0 == 0x03)

/- The rules for R and S: an integer not empty, not negative and not padded. `start` is the place of
its first byte; `none` is a read beyond the end. -/
def derInteger (sig : Bytes) (typePos start len : Nat) : Option Bool := do
  let type ← sig[typePos]?
  if type≠0x02 then return false
  if len=0 then return false
  let first ← sig[start]?
  if first &&& 0x80≠0 then return false
  if len>1 ∧ first=0 then
    let second ← sig[start+1]?
    return second &&& 0x80 != 0
  return true

/- IsValidSignatureEncoding with its reads made explicit: `none` is a read beyond the end. -/
def readSignatureEncoding (sig : Bytes) : Option Bool := do
  if sig.length<9 then return false
  if 73 < sig.length then return false
  if (← sig[0]?)≠0x30 then return false
  if (← sig[1]?).toNat≠sig.length-3 then return false
  let lenR := (← sig[3]?).toNat
  if sig.length≤5+lenR then return false
  let lenS := (← sig[5+lenR]?).toNat
  if lenR+lenS+7≠sig.length then return false
  if !(← derInteger sig 2 4 lenR) then return false
  derInteger sig (lenR+4) (lenR+6) lenS

def isValidSignatureEncoding (sig : Bytes) : Bool := (readSignatureEncoding sig).getD false

def isDefinedHashtypeSignature (vchSig : Bytes) : Bool :=
  match vchSig.getLast? with
  | none => false
  | some back => let nHashType := (back &&& 0x7f).toNat; decide (1≤nHashType ∧ nHashType≤3)
end Xero
