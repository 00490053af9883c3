import Xero.InterpreterCode
import Xero.ScriptSoftForks

/-! GetSigOpCount, and that it bounds the signature checks of an evaluation: an OP_n directly
before a CHECKMULTISIG that is executed is the key count on top of the stack. -/
namespace Xero
open Library Reporting Returns

def OP_CHECKSIG : Nat := 0xac
def OP_CHECKSIGVERIFY : Nat := 0xad
def OP_CHECKMULTISIG : Nat := 0xae
def OP_CHECKMULTISIGVERIFY : Nat := 0xaf
def OP_INVALIDOPCODE : Nat := 0xff
def decodeOpN (opcode : Nat) : Nat := opcode-(OP_1-1)

def sigOps (fAccurate : Bool) (lastOpcode opcode : Nat) : Nat :=
  if opcode=OP_CHECKSIG ∨ opcode=OP_CHECKSIGVERIFY then 1
  else if opcode=OP_CHECKMULTISIG ∨ opcode=OP_CHECKMULTISIGVERIFY then
    if fAccurate ∧ OP_1≤lastOpcode ∧ lastOpcode≤OP_16 then decodeOpN lastOpcode
    else MAX_PUBKEYS_PER_MULTISIG
  else 0

/- The loop of GetSigOpCount, which stops at an opcode that cannot be decoded. -/
def countSigOps (fAccurate : Bool) (lastOpcode : Nat) (pc : Bytes) : Nat :=
  match _h : getScriptOp pc with
  | none => 0
  | some (opcode,_,rest) => sigOps fAccurate lastOpcode opcode+countSigOps fAccurate opcode rest
termination_by pc.length
decreasing_by exact getScriptOp_length _h

def getSigOpCount (script : Bytes) (fAccurate : Bool) : Nat :=
    countSigOps fAccurate OP_INVALIDOPCODE script

variable {opcode : Nat}

lemma countSigOps_some {pc d r : Bytes} (h : getScriptOp pc=some (opcode,d,r))
    (fa : Bool) (lo : Nat) :
    countSigOps fa lo pc=
      sigOps fa lo opcode+countSigOps fa opcode r := by
  rw [countSigOps]
  split <;> simp_all

namespace Code
variable {n : Nat}
section
variable (stk : List Bytes)
include stk

lemma stacktop_calls (i : Nat) : CallsAtMost n (stacktop stk i) :=
  .readAt stk (i-1)

lemma popstack_calls : CallsAtMost n (popstack stk) := by
  cases stk with
  | nil => exact .outOfRange
  | cons x stk => exact .pure stk

lemma needSize_calls (k : Nat) : CallsAtMost n (needSize stk k) :=
  .failIf _ _

lemma eraseTop_calls (i : Nat) : CallsAtMost n (eraseTop stk i) :=
  (stacktop_calls stk i).andThen fun _ => .pure _

lemma swapTop_calls (i j : Nat) : CallsAtMost n (swapTop stk i j) :=
  (stacktop_calls stk i).andThen fun _ => (stacktop_calls stk j).andThen fun _ => .pure _

lemma insertTop_calls (i : Nat) (vch : Bytes) : CallsAtMost n (insertTop stk i vch) :=
  .ite (fun _ => .outOfRange) fun _ => .pure _
end

lemma read_calls {α : Type} {s : List Bytes} {k i : Nat} {c : Bytes → Code α}
    (h : ∀ vch, CallsAtMost n (c vch)) :
    CallsAtMost n (needSize s k >>= fun _ => stacktop s i >>= c) :=
  (needSize_calls s k).andThen fun _ => (stacktop_calls s i).andThen h

lemma ofResult_calls {α : Type} (r : ScriptResult α) : CallsAtMost n (ofResult r) := by
  match r with
  | .ok a => exact .pure a
  | .error (.fails serror) => exact .failWith serror
  | .error .asserts => exact .assertFails

lemma scriptNum_calls (minimal : Bool) (maxSize : Nat) (vch : Bytes) :
    CallsAtMost n (scriptNum minimal maxSize vch) :=
  .check (.check (.pure _))

lemma pushOrVerify_calls (verify fs : Bool) (s : ScriptError) (sa : List Bytes) :
    CallsAtMost n (pushOrVerify verify fs s sa) :=
  .ite (fun _ => .ite (fun _ => popstack_calls _) fun _ => .failWith _)
    fun _ => .pure _

lemma stackOp_calls (op : StackOp) (s : List Bytes) : CallsAtMost n (stackOp op s) := by
  cases op with
  | depth => exact .pure _
  | drop2 =>
    exact (needSize_calls _ _).andThen fun _ => (popstack_calls _).andThen fun _ => popstack_calls _
  | drop => exact (needSize_calls _ _).andThen fun _ => popstack_calls _
  | nip => exact (needSize_calls _ _).andThen fun _ => eraseTop_calls _ _
  | swap => exact (needSize_calls _ _).andThen fun _ => swapTop_calls _ _ _
  | rot | swap2 =>
    exact (needSize_calls _ _).andThen fun _ => (swapTop_calls _ _ _).andThen fun _ =>
        swapTop_calls _ _ _
  | tuck =>
    exact read_calls fun _ => insertTop_calls _ _ _
  | ifDup | dup | «over» | size =>
    exact read_calls fun _ => .pure _
  | dup2 | over2 =>
    refine read_calls fun _ => ?_
    exact (stacktop_calls _ _).andThen fun _ => .pure _
  | dup3 =>
    refine read_calls fun _ => ?_
    exact (stacktop_calls _ _).andThen fun _ => (stacktop_calls _ _).andThen fun _ => .pure _
  | rot2 =>
    refine read_calls fun _ => ?_
    refine (stacktop_calls _ _).andThen fun _ => (eraseTop_calls _ _).andThen fun _ => ?_
    exact (eraseTop_calls _ _).andThen fun _ => .pure _

section
variable {crypto : ScriptCrypto} {checker : SignatureChecker} {flags : ScriptFlags}
    {sigversion : SigVersion}
variable (st : EvalState)

lemma execCheckLockTimeVerify_calls : CallsAtMost n (execCheckLockTimeVerify checker flags st) := by
  refine .ite (fun _ => ?_) fun _ => .pure st
  refine read_calls fun _ => ?_
  refine (scriptNum_calls _ _ _).andThen fun _ => .check ?_
  refine (ofResult_calls _).andThen fun _ => .check ?_
  exact .pure st

lemma execCheckSequenceVerify_calls : CallsAtMost n (execCheckSequenceVerify checker flags st) := by
  refine .ite (fun _ => ?_) fun _ => .pure st
  refine read_calls fun _ => ?_
  refine (scriptNum_calls _ _ _).andThen fun _ => .check ?_
  refine .ite (fun _ => .pure st) fun _ => ?_
  refine (ofResult_calls _).andThen fun _ => .check ?_
  exact .pure st

lemma execIf_calls (ni : Bool) (st : EvalState) :
    CallsAtMost n (execIf flags sigversion ni st) := by
  refine .andThen (.ite (fun _ => ?_) fun _ => .pure _) fun _ => .pure _
  refine (CallsAtMost.failIf _ _).andThen fun _ => (stacktop_calls _ _).andThen fun _ => ?_
  refine .check (.check ?_)
  exact (popstack_calls _).andThen fun _ => .pure _

lemma execVerify_calls : CallsAtMost n (execVerify st) := by
  refine read_calls fun _ => ?_
  exact .ite (fun _ => (popstack_calls _).andThen fun _ => .pure _) fun _ => .failWith _

lemma execToAltStack_calls : CallsAtMost n (execToAltStack st) := by
  refine read_calls fun _ => ?_
  exact (popstack_calls _).andThen fun _ => .pure _

lemma execFromAltStack_calls : CallsAtMost n (execFromAltStack st) := by
  refine (CallsAtMost.failIf _ _).andThen fun _ => (stacktop_calls _ _).andThen fun _ => ?_
  exact (popstack_calls _).andThen fun _ => .pure _

lemma execPick_calls (r : Bool) (st : EvalState) : CallsAtMost n (execPick flags r st) := by
  refine read_calls fun _ => ?_
  refine (scriptNum_calls _ _ _).andThen fun _ => (popstack_calls _).andThen fun _ => ?_
  refine (CallsAtMost.failIf _ _).andThen fun _ => (stacktop_calls _ _).andThen fun _ => ?_
  refine .andThen ?_ fun _ => .pure _
  exact .ite (fun _ => eraseTop_calls _ _) fun _ => .pure _

lemma execEqual_calls (verify : Bool) (st : EvalState) : CallsAtMost n (execEqual verify st) := by
  refine read_calls fun _ => ?_
  refine (stacktop_calls _ _).andThen fun _ => (popstack_calls _).andThen fun _ => ?_
  refine (popstack_calls _).andThen fun _ => (pushOrVerify_calls _ _ _ _).andThen fun _ => ?_
  exact .pure _

lemma execUnary_calls (op : UnaryOp) (st : EvalState) : CallsAtMost n (execUnary flags op st) := by
  refine read_calls fun _ => ?_
  refine (scriptNum_calls _ _ _).andThen fun _ => (popstack_calls _).andThen fun _ => ?_
  exact .pure _

lemma execBinary_calls (op : BinaryOp) (st : EvalState) :
    CallsAtMost n (execBinary flags op st) := by
  refine read_calls fun _ => ?_
  refine (scriptNum_calls _ _ _).andThen fun _ => (stacktop_calls _ _).andThen fun _ => ?_
  refine (scriptNum_calls _ _ _).andThen fun _ => (popstack_calls _).andThen fun _ => ?_
  refine (popstack_calls _).andThen fun _ => ?_
  refine .ite (fun _ => (stacktop_calls _ _).andThen fun _ => ?_) fun _ => .pure _
  exact .ite (fun _ => (popstack_calls _).andThen fun _ => .pure _) fun _ => .failWith _

lemma execWithin_calls : CallsAtMost n (execWithin flags st) := by
  refine read_calls fun _ => ?_
  refine (scriptNum_calls _ _ _).andThen fun _ => (stacktop_calls _ _).andThen fun _ => ?_
  refine (scriptNum_calls _ _ _).andThen fun _ => (stacktop_calls _ _).andThen fun _ => ?_
  refine (scriptNum_calls _ _ _).andThen fun _ => (popstack_calls _).andThen fun _ => ?_
  exact (popstack_calls _).andThen fun _ => (popstack_calls _).andThen fun _ => .pure _

lemma execHash_calls (op : HashOp) (st : EvalState) : CallsAtMost n (execHash crypto op st) := by
  refine read_calls fun _ => ?_
  exact (popstack_calls _).andThen fun _ => .pure _

lemma checkSignatureEncoding_calls (sig : Bytes) :
    CallsAtMost n (checkSignatureEncoding crypto flags sig) := by
  refine .ite (fun _ => .pure ()) fun _ => ?_
  refine (CallsAtMost.failIf _ _).andThen fun _ => .andThen ?_ fun _ => .failIf _ _
  refine .ite (fun _ => ?_) fun _ => .pure ()
  exact (CallsAtMost.failIf _ _).andThen fun _ => .failIf _ _

lemma checkPubKeyEncoding_calls (pubkey : Bytes) :
    CallsAtMost n (checkPubKeyEncoding flags sigversion pubkey) :=
  (CallsAtMost.failIf _ _).andThen fun _ => .failIf _ _

lemma checkECDSASignature_calls (sig pubkey scriptCode : Bytes) :
    CallsAtMost 1 (checkECDSASignature checker sigversion sig pubkey scriptCode) :=
  CallsAtMost.countCall.bind (m := 0) fun _ => ofResult_calls _

lemma dropSignature_calls (scriptCode sig : Bytes) :
    CallsAtMost n (dropSignature flags sigversion scriptCode sig) :=
  .ite (fun _ => .check (.pure _))
    fun _ => .pure _

lemma dropSignatures_calls (s : List Bytes) (l i : Nat) (scriptCode : Bytes) :
    CallsAtMost n (dropSignatures flags sigversion s l i scriptCode) := by
  induction l generalizing i scriptCode with
  | zero => exact .pure _
  | succ l ih =>
    refine (stacktop_calls _ _).andThen fun _ => (dropSignature_calls _ _).andThen fun _ => ?_
    exact ih _ _

lemma execCheckSig_calls (hv : sigversion=.base ∨ sigversion=.witnessV0) (verify : Bool)
    (st : EvalState) : CallsAtMost 1 (execCheckSig crypto checker flags sigversion verify st) := by
  have hc : ∀ s p, CallsAtMost 1
      (evalChecksig crypto checker flags sigversion s p st.pbegincodehash st.execdata) := by
    intro s p
    have hp : CallsAtMost 1 (evalChecksigPreTapscript crypto checker flags sigversion s p
        st.pbegincodehash) := by
      refine (CallsAtMost.assertHolds _).andThen fun _ =>
          (dropSignature_calls _ _).andThen fun _ => ?_
      refine (checkSignatureEncoding_calls _).andThen fun _ => ?_
      refine (checkPubKeyEncoding_calls _).andThen fun _ => ?_
      refine (checkECDSASignature_calls _ _ _).bind (m := 0) fun _ => ?_
      exact .check (.pure _)
    obtain rfl | rfl := hv <;> exact hp.bind (m := 0) fun _ => .pure _
  refine read_calls fun _ => ?_
  refine (stacktop_calls _ _).andThen fun _ => (hc _ _).bind (m := 0) fun _ => ?_
  refine (popstack_calls _).andThen fun _ => (popstack_calls _).andThen fun _ => ?_
  exact (pushOrVerify_calls _ _ _ _).andThen fun _ => .pure _

/- Every turn uses up a key. A turn with none left would still make a call, but there is no such
   turn as long as there are not more signatures than keys. -/
lemma matchSignatures_calls (s : List Bytes) (scriptCode : Bytes) (nk ns i ik : Nat) (hl : ns≤nk) :
    CallsAtMost nk
      (matchSignatures crypto checker flags sigversion s scriptCode nk ns i ik) := by
  induction nk generalizing ns i ik with
  | zero =>
    obtain rfl := Nat.le_zero.mp hl
    rw [matchSignatures]
    exact .pure _
  | succ nk ih =>
    rw [matchSignatures]
    refine .ite (fun _ => .pure _) fun _ => ?_
    refine (stacktop_calls _ _).andThen fun _ => (stacktop_calls _ _).andThen fun _ => ?_
    refine (checkSignatureEncoding_calls _).andThen fun _ => ?_
    refine (checkPubKeyEncoding_calls _).andThen fun _ => ?_
    refine .mono ?_ (Nat.le_of_eq (Nat.add_comm 1 nk))
    refine (checkECDSASignature_calls _ _ _).bind fun f => ?_
    refine .ite (fun _ => .pure _) fun h => ?_
    exact ih _ _ _ (Nat.not_lt.mp h)

lemma cleanArguments_calls (fs : Bool) (cnt i2 : Nat) (s : List Bytes) :
    CallsAtMost n (cleanArguments flags fs cnt i2 s) := by
  induction cnt generalizing i2 s with
  | zero => exact .pure _
  | succ cnt ih =>
    refine (stacktop_calls _ _).andThen fun _ => .check ?_
    exact (popstack_calls _).andThen fun _ => ih _ _

lemma readCount_calls (sa : List Bytes) (i max : Nat) (s : ScriptError) :
    CallsAtMost n (readCount flags sa i max s) := by
  refine read_calls fun _ => ?_
  exact (scriptNum_calls _ _ _).andThen fun _ => .check (.pure _)

lemma readCount_returns_le (sa : List Bytes) (i max : Nat) (s : ScriptError) :
    Returns (· ≤ max) (readCount flags sa i max s) := by
  refine (Returns.trivial _).bind fun _ _ => (Returns.trivial _).bind fun _ _ => ?_
  refine (Returns.trivial _).bind fun m _ => (Returns.failIf _ _).bind fun _ hr => ?_
  rw [decide_eq_false_iff_not] at hr
  refine .pure ?_
  omega

lemma readCount_returns_top {k : Nat} (hk : k≤16) {s : List Bytes} {vch : Bytes}
    (hs : s.head?=some vch) (hv : vch=serializeNum k) (max : Nat) (se : ScriptError) :
    Returns (· ≤ k) (readCount flags s 1 max se) := by
  have hn : ∀ k≤16, (getInt (setVch (serializeNum (k : Nat)))).toNat=k := by decide +kernel
  refine (trivial _).bind fun _ _ => ?_
  have hr : Returns (· = vch) (stacktop s 1) := by
    cases s with
    | nil => cases hs
    | cons x s => exact .pure (Option.some.inj hs)
  refine hr.bind fun t ht => ?_
  have hr : Returns (· = setVch vch) (Code.scriptNum (flags.has .minimalData) 4 t) :=
    (trivial _).bind fun _ _ => (trivial _).bind fun _ _ => .pure (by rw [ht])
  refine hr.bind fun m hm => (trivial _).bind fun _ _ => .pure ?_
  rw [hm,hv,hn k hk]

lemma execCheckMultisig_calls {b : Nat} (verify : Bool) (st : EvalState)
    (hk : Returns (· ≤ b) (readCount flags st.stack 1 MAX_PUBKEYS_PER_MULTISIG .pubkeyCount)) :
    CallsAtMost b (execCheckMultisig crypto checker flags sigversion verify st) := by
  refine .check ?_
  rw [← Nat.zero_add b]
  refine (readCount_calls _ _ _ _).bind_returns hk fun nk hl => ?_
  refine .check ?_
  rw [← Nat.zero_add b]
  refine (readCount_calls _ _ _ _).bind_returns (readCount_returns_le _ _ _ _) fun ns hs => ?_
  refine (CallsAtMost.failIf _ _).andThen fun _ =>
      (dropSignatures_calls _ _ _ _).andThen fun _ => ?_
  refine .bind (m := 0) ((matchSignatures_calls _ _ _ _ _ _ hs).mono hl) fun _ => ?_
  refine (cleanArguments_calls _ _ _ _).andThen fun _ => ?_
  have hd : ∀ stack, CallsAtMost 0 (popDummy flags stack) := fun stack =>
    read_calls fun _ =>
      (CallsAtMost.failIf _ _).andThen fun _ => popstack_calls _
  exact (hd _).andThen fun _ => (pushOrVerify_calls _ _ _ _).andThen fun _ => .pure _

lemma execOp_calls_zero (hv : sigversion=.base ∨ sigversion=.witnessV0) {op : Op}
    (hs : ∀ verify, op≠.checkSig verify) (hm : ∀ verify, op≠.checkMultisig verify) (pc : Bytes)
    (st : EvalState) : CallsAtMost n (execOp crypto checker flags sigversion op pc st) := by
  cases op with
  | pushNum _ | nop | codeSeparator => exact .pure _
  | checkLockTimeVerify => exact execCheckLockTimeVerify_calls st
  | checkSequenceVerify => exact execCheckSequenceVerify_calls st
  | upgradableNop => exact .check (.pure st)
  | opIf no => exact execIf_calls no st
  | opElse | opEndIf =>
    exact (CallsAtMost.failIf _ _).andThen fun _ => (ofResult_calls _).andThen fun _ => .pure _
  | verify => exact execVerify_calls st
  | opReturn | bad => exact .failWith _
  | toAltStack => exact execToAltStack_calls st
  | fromAltStack => exact execFromAltStack_calls st
  | stack op => exact (stackOp_calls op _).andThen fun _ => .pure _
  | pick r => exact execPick_calls r st
  | equal verify => exact execEqual_calls verify st
  | unary op => exact execUnary_calls op st
  | binary op => exact execBinary_calls op st
  | within => exact execWithin_calls st
  | hash op => exact execHash_calls op st
  | checkSig verify => exact absurd rfl (hs verify)
  | checkSigAdd =>
    rw [execOp,execCheckSigAdd,if_pos hv]
    exact .failWith _
  | checkMultisig verify => exact absurd rfl (hm verify)

lemma decodeOp_checkSig {verify : Bool} (h : decodeOp opcode=.checkSig verify) :
    opcode=OP_CHECKSIG ∨ opcode=OP_CHECKSIGVERIFY := by
  unfold decodeOp at h
  split_ifs at h
  split at h <;> simp_all [OP_CHECKSIG,OP_CHECKSIGVERIFY]

lemma decodeOp_checkMultisig {verify : Bool} (h : decodeOp opcode=.checkMultisig verify) :
    opcode=OP_CHECKMULTISIG ∨ opcode=OP_CHECKMULTISIGVERIFY := by
  unfold decodeOp at h
  split_ifs at h
  split at h <;> simp_all [OP_CHECKMULTISIG,OP_CHECKMULTISIGVERIFY]

/-- What the opcode before an executed one tells about the stack. -/
def TopIs (lastOpcode : Nat) (st : EvalState) : Prop :=
  OP_1≤lastOpcode → lastOpcode≤OP_16 → st.vfExec.allTrue →
    st.stack.head?=some (serializeNum (decodeOpN lastOpcode))

variable {lo : Nat}

lemma execOp_calls (hv : sigversion=.base ∨ sigversion=.witnessV0)
    (pc : Bytes) (st : EvalState) (ht : TopIs lo st) (he : st.vfExec.allTrue) :
    CallsAtMost (sigOps true lo opcode)
      (execOp crypto checker flags sigversion (decodeOp opcode) pc st) := by
  by_cases hs : ∃ v, decodeOp opcode=.checkSig v
  · obtain ⟨v,ho⟩ := hs
    rw [sigOps,if_pos (decodeOp_checkSig ho),ho]
    exact execCheckSig_calls hv v st
  · by_cases hm : ∃ v, decodeOp opcode=.checkMultisig v
    · obtain ⟨v,ho⟩ := hm
      have hc := decodeOp_checkMultisig ho
      have hn : ¬(opcode=OP_CHECKSIG ∨ opcode=OP_CHECKSIGVERIFY) := by
        obtain rfl | rfl := hc <;> decide
      rw [sigOps,if_neg hn,if_pos hc,ho]
      refine execCheckMultisig_calls v st ?_
      split
      · rename_i hl
        have hk : decodeOpN lo≤16 := by
          simp only [decodeOpN,OP_1,OP_16] at hl ⊢
          omega
        exact readCount_returns_top hk (ht hl.2.1 hl.2.2 he) rfl _ _
      · exact readCount_returns_le _ _ _ _
    · exact execOp_calls_zero hv (fun v h => hs ⟨v,h⟩) (fun v h => hm ⟨v,h⟩) pc st

lemma execInstruction_calls (hv : sigversion=.base ∨ sigversion=.witnessV0)
    (vch pc : Bytes) (st : EvalState) (ht : TopIs lo st) :
    CallsAtMost (sigOps true lo opcode)
      (execInstruction crypto checker flags sigversion opcode vch pc st) := by
  refine .ite (fun _ => .check (.pure _)) fun _ => ?_
  refine .ite (fun hb => ?_) fun _ => .pure st
  by_cases he : st.vfExec.allTrue
  · exact execOp_calls hv pc st ht he
  · -- Outside of an executed branch only the conditionals are run.
    have hr := hb.resolve_left he
    refine execOp_calls_zero hv ?_ ?_ pc st
    · intro v h
      have hc := decodeOp_checkSig h
      simp only [OP_CHECKSIG,OP_CHECKSIGVERIFY,OP_IF,OP_ENDIF] at hc hr
      omega
    · intro v h
      have hc := decodeOp_checkMultisig h
      simp only [OP_CHECKMULTISIG,OP_CHECKMULTISIGVERIFY,OP_IF,OP_ENDIF] at hc hr
      omega

lemma countOp_returns (opcode : Nat) (st : EvalState) :
    Returns (fun st' => st'.stack=st.stack ∧ st'.vfExec=st.vfExec)
    (countOp sigversion opcode st) := by
  rw [countOp]
  split
  · exact (trivial _).bind fun _ _ => .pure ⟨rfl,rfl⟩
  · exact .pure ⟨rfl,rfl⟩

lemma countOp_calls (opcode : Nat) (st : EvalState) :
    CallsAtMost n (countOp sigversion opcode st) :=
  .ite (fun _ => .check (.pure _))
    fun _ => .pure st

lemma evalStep_calls (hv : sigversion=.base ∨ sigversion=.witnessV0)
    (vch pc : Bytes) (st : EvalState) (ht : TopIs lo st) :
    CallsAtMost (sigOps true lo opcode)
      (evalStep crypto checker flags sigversion opcode vch pc st) := by
  refine .check ?_
  refine .mono ?_ (Nat.le_of_eq (Nat.zero_add _))
  refine (countOp_calls opcode st).bind_returns (countOp_returns opcode st) fun s1 hs => ?_
  have ht : TopIs lo s1 := by
    intro h1 h16 he
    rw [hs.1]
    exact ht h1 h16 (hs.2 ▸ he)
  refine .check (.check ?_)
  refine .bind (m := 0) ?_ fun _ => .check (.pure _)
  exact execInstruction_calls hv vch pc s1 ht

/- An OP_n pushes its number in an executed branch and does nothing in another one. -/
lemma execInstruction_returns_top (opcode : Nat) (vch pc : Bytes) (st : EvalState) :
    Returns (TopIs opcode) (execInstruction crypto checker flags sigversion opcode vch pc st) := by
  by_cases hr : OP_1≤opcode ∧ opcode≤OP_16
  · have ho : decodeOp opcode=.pushNum (decodeOpN opcode) := by
      unfold decodeOp
      rw [if_pos (.inr hr),decodeOpN]
      congr 1
      simp only [OP_1] at hr ⊢
      omega
    have hn : ¬(st.vfExec.allTrue ∧ opcode≤OP_PUSHDATA4) := by
      simp only [OP_1,OP_PUSHDATA4] at hr ⊢
      omega
    have hc : ¬(OP_IF≤opcode ∧ opcode≤OP_ENDIF) := by
      simp only [OP_16,OP_IF] at hr ⊢
      omega
    rw [execInstruction,if_neg hn,ho]
    by_cases he : st.vfExec.allTrue
    · rw [if_pos (.inl he)]
      exact .pure fun _ _ _ => rfl
    · rw [if_neg (not_or.mpr ⟨he,hc⟩)]
      exact .pure fun _ _ h => absurd h he
  · exact fun _ _ _ _ h1 h16 => absurd ⟨h1,h16⟩ hr

lemma evalStep_returns_top (opcode : Nat) (vch pc : Bytes) (st : EvalState) :
    Returns (TopIs opcode) (evalStep crypto checker flags sigversion opcode vch pc st) := by
  refine (trivial _).bind fun _ _ => (trivial _).bind fun st1 _ => ?_
  refine (trivial _).bind fun _ _ => (trivial _).bind fun _ _ => ?_
  refine (execInstruction_returns_top opcode vch pc st1).bind fun s2 ht => ?_
  exact (trivial _).bind fun _ _ => .pure ht

lemma evalLoop_calls (hv : sigversion=.base ∨ sigversion=.witnessV0) (lo : Nat) (pc : Bytes)
    (st : EvalState) (ht : TopIs lo st) :
    CallsAtMost (countSigOps true lo pc) (evalLoop crypto checker flags sigversion pc st) := by
  induction pc using script_induction generalizing lo st with
  | nil =>
    rw [evalLoop_nil]
    exact .pure st
  | undecodable pc hp ho =>
    rw [evalLoop_none crypto checker flags hp ho]
    exact .failWith _
  | instruction pc opcode d r ho ih =>
    rw [evalLoop_some crypto checker flags ho,countSigOps_some ho]
    exact (evalStep_calls hv d r st ht).bind_returns
      (evalStep_returns_top opcode d r st) fun s' => ih opcode s'

variable (crypto checker flags sigversion) in
/-- Sigop counting is sound: a script makes no more signature checks than GetSigOpCount says. -/
theorem evalScript_calls_le_getSigOpCount (hversion : sigversion=.base ∨ sigversion=.witnessV0)
    (stack : List Bytes) (script : Bytes) (d : ScriptExecutionData) (report : Report ScriptError) :
    (finalReport (evalScript crypto checker flags stack script sigversion d report)).calls≤
      report.calls+getSigOpCount script true := by
  refine CallsAtMost.andThen (CallsAtMost.assertHolds _) (fun _ => ?_) report
  refine (CallsAtMost.reportError _).andThen fun _ => .check ?_
  have ht : TopIs OP_INVALIDOPCODE {pbegincodehash := script, stack := stack, execdata := {d with codeseparatorPos := some 0xFFFFFFFF}} :=
    fun _ h16 => absurd h16 (by decide)
  refine CallsAtMost.bind (m := 0) (evalLoop_calls hversion OP_INVALIDOPCODE script _ ht) fun _ =>
      ?_
  exact (CallsAtMost.failIf _ _).andThen fun _ => CallsAtMost.reportOk.andThen fun _ =>
      CallsAtMost.pure _
end

def refusingChecker : SignatureChecker where
  checkECDSASignature _ _ _ _ := .ok false
  checkSchnorrSignature _ _ _ _ := .error (.fails .schnorrSig)
  checkLockTime _ := .ok false
  checkSequence _ := .ok false

theorem evalScript_calls_le_getSigOpCount_multisig : getSigOpCount [0x52,0xae] true=2 ∧
      (finalReport (evalScript plainCrypto refusingChecker ⟨0⟩ [[2],[3],[2],[4],[5],[]] [0x52,
      0xae] .base {}
        ⟨none,0⟩)).calls≤2 := by
  have hc : getSigOpCount [0x52,0xae] true=2 := by decide +kernel
  have hca := evalScript_calls_le_getSigOpCount plainCrypto refusingChecker ⟨0⟩ .base (.inl rfl)
    [[2],[3],[2],[4],[5],[]] [0x52,0xae] {} ⟨none,0⟩
  rw [hc] at hca
  exact ⟨hc,hca⟩
end Code
end Xero
