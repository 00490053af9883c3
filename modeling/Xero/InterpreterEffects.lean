import Xero.Interpreter
import Xero.Library.Ensures
import Mathlib.Tactic.Ring

/-! What an opcode can do: the sizes of the elements it leaves, the operations and validation weight
it pays, and the execution data it keeps. -/
namespace Xero
open Library List Except ConditionStack Nat
variable {n : Int} {passed : Nat}

lemma bytesLE_length {n k : Nat} (h : n<256^k) : (bytesLE n).length≤k := by
  induction k generalizing n with
  | zero =>
    obtain rfl : n=0 := by simpa using h
    rw [bytesLE]
    rfl
  | succ k ih =>
    rw [bytesLE]
    split
    · exact Nat.zero_le _
    · have hd : n/256<256^k := Nat.div_lt_of_lt_mul (by rwa [pow_succ,mul_comm] at h)
      exact Nat.succ_le_succ (ih hd)

lemma addSign_length (neg : Bool) (bytes : Bytes) : (addSign neg bytes).length≤bytes.length+1 := by
  induction bytes with
  | nil => exact zero_le _
  | cons b bytes ih =>
    cases bytes with
    | nil =>
      rw [addSign]
      split_ifs <;> simp
    | cons c bytes =>
      rw [addSign]
      · exact succ_le_succ ih
      · exact fun h => cons_ne_nil _ _ h

lemma serializeNum_length {k : Nat} (h : n.natAbs<256^k) : (serializeNum n).length≤k+1 :=
  (addSign_length _ _).trans (succ_le_succ (bytesLE_length h))

lemma setVch_natAbs_lt (vch : Bytes) : (setVch vch).natAbs<256^vch.length := by
  have hl := readLE_lt vch
  rw [setVch]
  cases vch using reverseRecOn with
  | nil => exact one_pos
  | append_singleton vch b =>
    rw [length_append,length_singleton] at hl ⊢
    rw [getLast?_concat]
    dsimp only
    rw [Nat.add_sub_cancel]
    split
    · have hc : ((0x80*256^vch.length : Nat) : Int)=0x80*256^vch.length := by push_cast; rfl
      omega
    · rwa [Int.natAbs_natCast]

lemma scriptNum_natAbs_lt {minimal : Bool} {maxSize : Nat} {vch : Bytes}
    (h : scriptNum minimal maxSize vch=.ok n) : n.natAbs<256^maxSize := by
  obtain ⟨_,hs,h⟩ := bind_eq_ok.mp h
  obtain ⟨_,_,h⟩ := bind_eq_ok.mp h
  rw [setErrorIf,rejectIf_eq_ok,decide_eq_false_iff_not,not_lt] at hs
  obtain rfl := ok.inj h
  exact (setVch_natAbs_lt vch).trans_le (Nat.pow_le_pow_right (by decide) hs)

/-- Every element is as short as the interpreter wants elements to be. -/
def StackFits (stack : List Bytes) : Prop := ∀ x∈stack, x.length≤MAX_SCRIPT_ELEMENT_SIZE

@[simp] lemma stackFits_nil : StackFits [] := by simp [StackFits]

variable {stack : List Bytes}

@[simp] lemma stackFits_cons {x : Bytes} :
    StackFits (x::stack) ↔ x.length≤MAX_SCRIPT_ELEMENT_SIZE ∧ StackFits stack := by
  simp [StackFits]

lemma ofBool_length (b : Bool) : (ofBool b).length≤MAX_SCRIPT_ELEMENT_SIZE := by
  cases b <;> decide

lemma serializeNum_fits (h : n.natAbs<256^5) : (serializeNum n).length≤MAX_SCRIPT_ELEMENT_SIZE :=
  (serializeNum_length h).trans (by decide)

lemma unaryOp_natAbs_lt (op : UnaryOp) {bn : Int} (h : bn.natAbs<256^4) :
    (unaryOp op bn).natAbs<256^5 := by
  cases op <;> simp only [unaryOp] <;> (try split) <;> omega

lemma binaryOp_natAbs_lt (op : BinaryOp) {bn1 bn2 : Int} (h1 : bn1.natAbs<256^4)
    (h2 : bn2.natAbs<256^4) : (binaryOp op bn1 bn2).natAbs<256^5 := by
  cases op <;> simp only [binaryOp] <;> (try split) <;> omega

/-- The sizes of the hashes, which the opcodes give their results. -/
structure ScriptCrypto.Sized (crypto : ScriptCrypto) : Prop where
  ripemd160 : ∀ vch, (crypto.ripemd160 vch).length=20
  sha1 : ∀ vch, (crypto.sha1 vch).length=20
  sha256 : ∀ vch, (crypto.sha256 vch).length=32

lemma hashOp_fits {c : ScriptCrypto} (hs : c.Sized) (op : HashOp) (vch : Bytes) :
    (hashOp c op vch).length≤MAX_SCRIPT_ELEMENT_SIZE := by
  have h20 : 20≤MAX_SCRIPT_ELEMENT_SIZE := by decide
  have h32 : 32≤MAX_SCRIPT_ELEMENT_SIZE := by decide
  cases op with
  | ripemd160 => exact (hs.ripemd160 vch).trans_le h20
  | sha1 => exact (hs.sha1 vch).trans_le h20
  | sha256 => exact (hs.sha256 vch).trans_le h32
  | hash160 => exact (hs.ripemd160 _).trans_le h20
  | hash256 => exact (hs.sha256 _).trans_le h32

def EvalState.size (st : EvalState) : Nat := st.stack.length+st.altstack.length

/-- What the signature opcodes may change of the execution data, with `passed` signatures paid. -/
structure DataEffect (passed : Nat) (d d' : ScriptExecutionData) : Prop where
  tapleafHash : d'.tapleafHash=d.tapleafHash
  annexHash : d'.annexHash=d.annexHash
  codeseparatorPos : d.codeseparatorPos.isSome → d'.codeseparatorPos.isSome
  weight : d'.validationWeightLeft=
    d.validationWeightLeft.map fun left => left-VALIDATION_WEIGHT_PER_SIGOP_PASSED*passed
  paid : 0<passed → ∃ left, d'.validationWeightLeft=some left ∧ 0≤left

lemma DataEffect.refl (d : ScriptExecutionData) : DataEffect 0 d d where
  tapleafHash := rfl
  annexHash := rfl
  codeseparatorPos := id
  weight := by simp
  paid := fun h => absurd h (lt_irrefl 0)

/-- What one opcode does: `keys` are the keys of a CHECKMULTISIG and `passed` the signatures paid by
validation weight. With a checker that writes into the execution data, `kept` is false. -/
structure StepEffect (crypto : ScriptCrypto) (kept : Prop) (keys passed : Nat)
    (st st' : EvalState) :
    Prop where
  opcodePos : st'.opcodePos=st.opcodePos
  nOpCount : st'.nOpCount=st.nOpCount+keys
  counted : 0<keys → st'.nOpCount≤MAX_OPS_PER_SCRIPT
  execdata : kept → DataEffect passed st.execdata st'.execdata
  -- A depth or a size is only known to be short when the stacks and elements are.
  fits : crypto.Sized → StackFits st.stack → StackFits st.altstack → st'.size≤MAX_STACK_SIZE →
    StackFits st'.stack ∧ StackFits st'.altstack

namespace StepEffect
variable {cr : ScriptCrypto} {ke : Prop} {st : EvalState}

lemma refl (st : EvalState) : StepEffect cr ke 0 0 st st where
  opcodePos := rfl
  nOpCount := rfl
  counted := fun h => absurd h (lt_irrefl 0)
  execdata := fun _ => DataEffect.refl _
  fits := fun _ hs ha _ => ⟨hs,ha⟩

lemma ofStack (h : cr.Sized → StackFits st.stack → stack.length≤MAX_STACK_SIZE → StackFits stack) :
    StepEffect cr ke 0 0 st {st with stack := stack} where
  opcodePos := rfl
  nOpCount := rfl
  counted := fun h => absurd h (lt_irrefl 0)
  execdata := fun _ => DataEffect.refl _
  fits := fun hsi hst ha hs =>
    ⟨h hsi hst ((le_add_right _ _).trans hs),ha⟩

lemma ofStacks {a : List Bytes}
    (h : StackFits st.stack → StackFits st.altstack → StackFits stack ∧ StackFits a) :
    StepEffect cr ke 0 0 st {st with stack := stack, altstack := a} where
  opcodePos := rfl
  nOpCount := rfl
  counted := fun h => absurd h (lt_irrefl 0)
  execdata := fun _ => DataEffect.refl _
  fits := fun _ hs ha _ => h hs ha

lemma withVfExec (ve : ConditionStack) {st st' : EvalState} {k : Nat}
    (h : StepEffect cr ke k passed st st') :
    StepEffect cr ke k passed st {st' with vfExec := ve} where
  opcodePos := h.opcodePos
  nOpCount := h.nOpCount
  counted := h.counted
  execdata := h.execdata
  fits := h.fits
end StepEffect

lemma stackOp_fits {op : StackOp} {s' : List Bytes} (h : stackOp op stack=.ok s')
    (hf : StackFits stack) (hs : s'.length≤MAX_STACK_SIZE) : StackFits s' := by
  have hnu : ∀ n : Nat, n≤MAX_STACK_SIZE →
      (serializeNum (n : Int)).length≤MAX_SCRIPT_ELEMENT_SIZE := by
    intro n hn
    refine serializeNum_fits ?_
    rw [Int.natAbs_natCast]
    exact hn.trans_lt (by decide)
  rw [stackOp.eq_def] at h
  split at h <;> simp only [stackError,ok.injEq,reduceCtorEq] at h <;> subst h
  case h_8 =>
    exact stackFits_cons.mpr ⟨hnu _ (le_of_succ_le hs),hf⟩
  case h_16 x s =>
    have hx := (stackFits_cons.mp hf).1
    exact stackFits_cons.mpr ⟨hnu _ (hx.trans (by decide)),hf⟩
  case h_7 =>
    split <;> simp_all
  all_goals simp_all

variable (flags : ScriptFlags)

/-- The key count of a CHECKMULTISIG that is executed on this stack. -/
def multisigKeys : Op → List Bytes → Nat
  | .checkMultisig _, top::_ =>
    match scriptNum (flags.has .minimalData) 4 top with
    | .ok n => (getInt n).toNat
    | .error _ => 0
  | _, _ => 0

variable (sigversion : SigVersion)

/-- The signatures that an opcode of a tapscript pays for: one that is executed with a signature
that is not empty. -/
def passedSigs : Op → List Bytes → Nat
  | .checkSig _, _::sig::_ => if sigversion=.tapscript ∧ sig≠[] then 1 else 0
  | .checkSigAdd, _::_::sig::_ => if sigversion=.tapscript ∧ sig≠[] then 1 else 0
  | _, _ => 0

/- The fields a tapscript needs in its signature checks. -/
structure ScriptExecutionData.Set (d : ScriptExecutionData) : Prop where
  tapleafHash : d.tapleafHash.isSome
  annexHash : d.annexHash.isSome
  codeseparatorPos : d.codeseparatorPos.isSome
  validationWeightLeft : d.validationWeightLeft.isSome

variable {d : ScriptExecutionData}

lemma ScriptExecutionData.Set.after {d' : ScriptExecutionData} (h : d.Set)
    (he : DataEffect passed d d') : d'.Set where
  tapleafHash := he.tapleafHash ▸ h.tapleafHash
  annexHash := he.annexHash ▸ h.annexHash
  codeseparatorPos := he.codeseparatorPos h.codeseparatorPos
  validationWeightLeft := by
    rw [he.weight,Option.isSome_map]
    exact h.validationWeightLeft

def Evaluable (d : ScriptExecutionData) : Prop :=
  sigversion≠.taproot ∧ (sigversion=.tapscript → d.Set)

/-- A checker that asserts at most where that is allowed. When `kept` is true it changes nothing
but the output hash it has computed. -/
def SignatureChecker.Proper (checker : SignatureChecker) (allowed : ScriptFailure → Prop)
    (kept : Prop) :
    Prop :=
  ∀ sig pubkey d, pubkey.length=32 → (allowed .asserts ∨ d.Set) →
    Ensures allowed (fun d' => kept → ∃ outputHash, d'={d with outputHash := outputHash})
      (checker.checkSchnorrSignature sig pubkey .tapscript d)

lemma stackOp_error {a : ScriptFailure → Prop} (hfl : ∀ serror, a (.fails serror))
    {op : StackOp} {e : ScriptFailure} (h : stackOp op stack=.error e) : a e := by
  rw [stackOp.eq_def] at h
  split at h <;> simp only [stackError,error.injEq,reduceCtorEq] at h
  exact h ▸ hfl _

/- The case of the switch that an instruction is executed by, if it is one. -/
def executedOp (opcode : Nat) (st : EvalState) : Option Op :=
  if st.vfExec.allTrue ∧ opcode≤OP_PUSHDATA4 then none
  else if st.vfExec.allTrue ∨ OP_IF≤opcode ∧ opcode≤OP_ENDIF then some (decodeOp opcode)
  else none

def keysOf (opcode : Nat) (st : EvalState) : Nat :=
  match executedOp opcode st with
  | some op => multisigKeys flags op st.stack
  | none => 0
def passedOf (opcode : Nat) (st : EvalState) : Nat :=
  match executedOp opcode st with
  | some op => passedSigs sigversion op st.stack
  | none => 0

/-- The operations that an opcode counts before tapscript: one above OP_16, and one for each key of
a CHECKMULTISIG. -/
def countedOps (sigversion : SigVersion) (opcode : Nat) (st : EvalState) : Nat :=
  (if (sigversion=.base ∨ sigversion=.witnessV0) ∧ OP_16<opcode then 1
      else 0)+keysOf flags opcode st

/-- What one turn of the loop does when it completes. -/
structure TurnEffect (crypto : ScriptCrypto) (kept : Prop) (ops passed : Nat)
    (st st' : EvalState) : Prop where
  size : st'.size≤MAX_STACK_SIZE
  nOpCount : st'.nOpCount=st.nOpCount+ops
  counted : 0<ops → st'.nOpCount≤MAX_OPS_PER_SCRIPT
  execdata : kept → DataEffect passed st.execdata st'.execdata
  fits : crypto.Sized → StackFits st.stack → StackFits st.altstack →
    StackFits st'.stack ∧ StackFits st'.altstack

section
variable {alw : ScriptFailure → Prop} {ke : Prop} (hfl : ∀ serror, alw (.fails serror))
variable {cr : ScriptCrypto} {chk : SignatureChecker} {fl : ScriptFlags} {ver : SigVersion}
include hfl

lemma setErrorIf_ensures (b : Bool) (serror : ScriptError) :
    Ensures alw (fun _ => b=false) (setErrorIf b serror) :=
  .rejectIf fun _ => hfl serror

lemma setErrorIf_bind {β : Type} {p : β → Prop} {b : Bool} {serror : ScriptError}
    {f : Unit → ScriptResult β} (h : b=false → Ensures alw p (f ())) :
    Ensures alw p (setErrorIf b serror >>= f) :=
  (setErrorIf_ensures hfl b serror).bind fun _ => h

lemma scriptNum_ensures (minimal : Bool) (maxSize : Nat) (vch : Bytes) :
    Ensures alw (fun n => n.natAbs<256^maxSize) (scriptNum minimal maxSize vch) := by
  cases h : scriptNum minimal maxSize vch with
  | ok n => exact scriptNum_natAbs_lt h
  | error e =>
    have he : ∃ serror, e=.fails serror := by
      simp only [scriptNum,setErrorIf,rejectIf] at h
      split at h
      · exact ⟨_,(error.inj h).symm⟩
      · split at h
        · exact ⟨_,(error.inj h).symm⟩
        · cases h
    obtain ⟨serror,rfl⟩ := he
    exact hfl serror

lemma execCheckLockTimeVerify_effect (st : EvalState) :
    Ensures alw (StepEffect cr ke 0 0 st) (execCheckLockTimeVerify chk fl st) := by
  refine .ite (fun _ => ?_) fun _ => .refl st
  split
  · exact hfl _
  · refine (scriptNum_ensures hfl _ _ _).bind fun _ _ => ?_
    refine setErrorIf_bind hfl fun _ => ?_
    exact setErrorIf_bind hfl fun _ => .refl st

lemma execCheckSequenceVerify_effect (st : EvalState) :
    Ensures alw (StepEffect cr ke 0 0 st) (execCheckSequenceVerify chk fl st) := by
  refine .ite (fun _ => ?_) fun _ => .refl st
  split
  · exact hfl _
  · refine (scriptNum_ensures hfl _ _ _).bind fun _ _ => ?_
    refine setErrorIf_bind hfl fun _ => ?_
    refine .ite (fun _ => .refl st) fun _ => ?_
    exact setErrorIf_bind hfl fun _ => .refl st

lemma popCondition_effect (ni : Bool) (st : EvalState) :
    Ensures alw (fun out => StepEffect cr ke 0 0 st out.2) (popCondition fl ver ni st) := by
  rw [popCondition]
  split
  · exact hfl _
  · rename_i v stack hs
    refine setErrorIf_bind hfl fun _ => setErrorIf_bind hfl fun _ => ?_
    exact .ofStack fun _ hf _ => (stackFits_cons.mp (hs ▸ hf)).2

lemma execIf_effect (ni : Bool) (st : EvalState) :
    Ensures alw (StepEffect cr ke 0 0 st) (execIf fl ver ni st) := by
  have hp : Ensures alw (fun o => StepEffect cr ke 0 0 st o.2)
      (if st.vfExec.allTrue then popCondition fl ver ni st else pure (false,st)) :=
    .ite (fun _ => popCondition_effect hfl ni st) fun _ => .refl st
  exact hp.bind fun _ h => h.withVfExec _

lemma execVerify_effect (st : EvalState) :
    Ensures alw (StepEffect cr ke 0 0 st) (execVerify st) := by
  rw [execVerify]
  split
  · exact hfl _
  · rename_i t stack hs
    refine .ite (fun _ => ?_) fun _ => hfl _
    exact .ofStack fun _ hf _ => (stackFits_cons.mp (hs ▸ hf)).2

lemma execPick_effect (ro : Bool) (st : EvalState) :
    Ensures alw (StepEffect cr ke 0 0 st) (execPick fl ro st) := by
  rw [execPick]
  split
  · rename_i t nx r hs
    refine (scriptNum_ensures hfl _ _ _).bind fun n _ => setErrorIf_bind hfl fun _ => ?_
    split
    · exact hfl _
    · rename_i v hg
      refine .ofStack fun _ hf _ => ?_
      have hr : StackFits (nx::r) := (stackFits_cons.mp (hs ▸ hf)).2
      refine stackFits_cons.mpr ⟨hr v (mem_of_getElem? hg),?_⟩
      cases ro with
      | false => exact hr
      | true => exact fun x hx => hr x (mem_of_mem_eraseIdx hx)
  · exact hfl _

lemma pushOrVerify_ensures (verify fs : Bool) (serror : ScriptError) :
    Ensures alw (fun stack' => StackFits stack → StackFits stack')
      (pushOrVerify verify fs serror stack) := by
  refine .ite (fun _ => .ite (fun _ => id) fun _ => hfl _) fun _ => ?_
  exact fun hf => stackFits_cons.mpr ⟨ofBool_length _,hf⟩

lemma execEqual_effect (verify : Bool) (st : EvalState) :
    Ensures alw (StepEffect cr ke 0 0 st) (execEqual verify st) := by
  rw [execEqual]
  split
  · rename_i v2 v1 r hs
    refine (pushOrVerify_ensures hfl _ _ _).bind fun stack hp => ?_
    exact .ofStack fun _ hf _ =>
      hp (stackFits_cons.mp (stackFits_cons.mp (hs ▸ hf)).2).2
  · exact hfl _

lemma execUnary_effect (op : UnaryOp) (st : EvalState) :
    Ensures alw (StepEffect cr ke 0 0 st) (execUnary fl op st) := by
  rw [execUnary]
  split
  · rename_i t r hs
    refine (scriptNum_ensures hfl _ _ _).bind fun bn hb => ?_
    exact .ofStack fun _ hf _ => stackFits_cons.mpr
      ⟨serializeNum_fits (unaryOp_natAbs_lt op hb),(stackFits_cons.mp (hs ▸ hf)).2⟩
  · exact hfl _

lemma execBinary_effect (op : BinaryOp) (st : EvalState) :
    Ensures alw (StepEffect cr ke 0 0 st) (execBinary fl op st) := by
  rw [execBinary]
  split
  · rename_i second first rest hs
    refine (scriptNum_ensures hfl _ _ _).bind fun bn1 h1 => ?_
    refine (scriptNum_ensures hfl _ _ _).bind fun bn2 h2 => ?_
    have hr : StackFits st.stack → StackFits rest := fun hf =>
      (stackFits_cons.mp (stackFits_cons.mp (hs ▸ hf)).2).2
    refine .ite (fun _ => .ite (fun _ => ?_) fun _ => hfl _) fun _ => ?_
    · exact .ofStack fun _ hf _ => hr hf
    · exact .ofStack fun _ hf _ => stackFits_cons.mpr
        ⟨serializeNum_fits (binaryOp_natAbs_lt op h1 h2),hr hf⟩
  · exact hfl _

lemma execWithin_effect (st : EvalState) :
    Ensures alw (StepEffect cr ke 0 0 st) (execWithin fl st) := by
  rw [execWithin]
  split
  · rename_i t s f r hs
    refine (scriptNum_ensures hfl _ _ _).bind fun _ _ =>
        (scriptNum_ensures hfl _ _ _).bind fun _ _ => ?_
    refine (scriptNum_ensures hfl _ _ _).bind fun _ _ => .ofStack fun _ hf _ => ?_
    exact stackFits_cons.mpr ⟨ofBool_length _,by simp_all⟩
  · exact hfl _

lemma execHash_effect (op : HashOp) (st : EvalState) :
    Ensures alw (StepEffect cr ke 0 0 st) (execHash cr op st) := by
  rw [execHash]
  split
  · rename_i v r hs
    exact .ofStack fun hsi hf _ => stackFits_cons.mpr
      ⟨hashOp_fits hsi op v,(stackFits_cons.mp (hs ▸ hf)).2⟩
  · exact hfl _

variable (sc : Bytes)

lemma dropSignature_ensures (sig : Bytes) :
    Ensures alw (fun _ => True) (dropSignature fl ver sc sig) :=
  .ite (fun _ => setErrorIf_bind hfl fun _ => trivial) fun _ => trivial

lemma checkSignatureEncoding_ensures (sig : Bytes) :
    Ensures alw (fun _ => True) (checkSignatureEncoding cr fl sig) := by
  refine .ite (fun _ => trivial) fun _ => setErrorIf_bind hfl fun _ => ?_
  have hl : Ensures alw (fun _ => True)
      (if fl.has .lowS then isLowDERSignature cr sig else .ok ()) := by
    refine .ite (fun _ => setErrorIf_bind hfl fun _ => ?_) fun _ => trivial
    exact (setErrorIf_ensures hfl _ _).mono fun _ _ => trivial
  exact hl.bind fun _ _ => (setErrorIf_ensures hfl _ _).mono fun _ _ => trivial

lemma checkPubKeyEncoding_ensures (pubkey : Bytes) :
    Ensures alw (fun _ => True) (checkPubKeyEncoding fl ver pubkey) :=
  setErrorIf_bind hfl fun _ => (setErrorIf_ensures hfl _ _).mono fun _ _ => trivial

lemma evalChecksigPreTapscript_ensures (sig pubkey codehash : Bytes) : Ensures alw (fun _ => True)
      (evalChecksigPreTapscript cr chk fl ver sig pubkey codehash) := by
  refine (dropSignature_ensures hfl _ _).bind fun _ _ => ?_
  refine (checkSignatureEncoding_ensures hfl _).bind fun _ _ => ?_
  refine (checkPubKeyEncoding_ensures hfl _).bind fun _ _ => ?_
  exact setErrorIf_bind hfl fun _ => trivial

lemma dropSignatures_ensures (s : List Bytes) :
    Ensures alw (fun _ => True) (dropSignatures fl ver sc s) := by
  induction s generalizing sc with
  | nil => trivial
  | cons v s ih => exact (dropSignature_ensures hfl _ _).bind fun c _ => ih c

lemma matchSignatures_ensures (s k : List Bytes) : Ensures alw (fun _ => True)
      (matchSignatures cr chk fl ver sc s k) := by
  induction k generalizing s with
  | nil => cases s <;> trivial
  | cons v k ih =>
    cases s with
    | nil => trivial
    | cons vc s =>
      refine (checkSignatureEncoding_ensures hfl _).bind fun _ _ => ?_
      refine (checkPubKeyEncoding_ensures hfl _).bind fun _ _ => ?_
      exact .ite (fun _ => trivial) fun _ => ih _

lemma cleanArguments_ensures (fs : Bool) (n i2 : Nat) (stack : List Bytes) :
    Ensures alw (fun stack' => stack' <:+ stack) (cleanArguments fl fs n i2 stack) := by
  induction n generalizing i2 stack with
  | zero => exact suffix_refl stack
  | succ n ih =>
    cases stack with
    | nil => exact hfl _
    | cons t stack =>
      refine setErrorIf_bind hfl fun _ => ?_
      exact (ih (i2-1) stack).mono fun _ h => h.trans (suffix_cons t stack)

lemma popDummy_ensures (stack : List Bytes) :
    Ensures alw (fun stack' => stack' <:+ stack) (popDummy fl stack) := by
  cases stack with
  | nil => exact hfl _
  | cons du stack => exact setErrorIf_bind hfl fun _ => suffix_cons du stack

/- The keys that a CHECKMULTISIG counts: the number on top of the stack. -/
lemma readCount_ensures (stack : List Bytes) (i max : Nat) (serror : ScriptError) :
    Ensures alw (fun n => ∃ vch m, stack[i]?=some vch ∧
      scriptNum (fl.has .minimalData) 4 vch=.ok m ∧ n=(getInt m).toNat)
      (readCount fl stack i max serror) := by
  rw [readCount]
  split
  · exact hfl _
  · rename_i vch hg
    cases hn : scriptNum (fl.has .minimalData) 4 vch with
    | error e => exact (scriptNum_ensures hfl _ _ _).error hn
    | ok m => exact setErrorIf_bind hfl fun _ => ⟨vch,m,hg,hn,rfl⟩

lemma execCheckMultisig_effect (verify : Bool) (st : EvalState) :
    Ensures alw (StepEffect cr ke (multisigKeys fl (.checkMultisig verify) st.stack) 0 st)
      (execCheckMultisig cr chk fl ver verify st) := by
  refine setErrorIf_bind hfl fun _ => ?_
  refine (readCount_ensures hfl _ 0 _ _).bind fun nk hk => ?_
  have hc : multisigKeys fl (.checkMultisig verify) st.stack=nk := by
    obtain ⟨vch,m,hg,hn,rfl⟩ := hk
    generalize st.stack=stack at hg
    cases stack with
    | nil => cases hg
    | cons top stack =>
      obtain rfl : top=vch := Option.some.inj hg
      simp only [multisigKeys,hn]
  refine setErrorIf_bind hfl fun hops => ?_
  rw [decide_eq_false_iff_not,not_lt] at hops
  refine (readCount_ensures hfl _ _ _ _).bind fun ns _ => ?_
  refine setErrorIf_bind hfl fun _ => ?_
  refine (dropSignatures_ensures hfl _ _).bind fun sc _ => ?_
  refine (matchSignatures_ensures hfl _ _ _).bind fun f _ => ?_
  refine (cleanArguments_ensures hfl _ _ _ _).bind fun r hr => ?_
  refine (popDummy_ensures hfl r).bind fun r' hr' => ?_
  refine (pushOrVerify_ensures hfl _ _ _).bind fun stack hp => ?_
  rw [hc]
  exact {
    opcodePos := rfl
    nOpCount := rfl
    counted := fun _ => hops
    execdata := fun _ => DataEffect.refl _
    fits := fun _ hf ha _ =>
      ⟨hp fun x hx => hf x ((hr'.trans hr).subset hx),ha⟩}

lemma spendValidationWeight_ensures (hr : alw .asserts ∨ d.Set) :
    Ensures alw (DataEffect 1 d) (spendValidationWeight d) := by
  rw [spendValidationWeight]
  split
  · rename_i hn
    refine hr.elim id fun h => ?_
    have hs := h.validationWeightLeft
    rw [hn] at hs
    cases hs
  · rename_i l hl
    refine .ite (fun _ => hfl _) fun hp => ?_
    exact {
      tapleafHash := rfl
      annexHash := rfl
      codeseparatorPos := id
      weight := by simp [hl]
      paid := fun _ => ⟨_,rfl,Int.not_lt.mp hp⟩}

omit hfl in
lemma DataEffect.setOutputHash {d' : ScriptExecutionData} (h : DataEffect passed d d')
    (oh : Option Bytes) : DataEffect passed d {d' with outputHash := oh} where
  tapleafHash := h.tapleafHash
  annexHash := h.annexHash
  codeseparatorPos := h.codeseparatorPos
  weight := h.weight
  paid := h.paid

section
variable (hpr : chk.Proper alw ke)
include hpr

lemma evalChecksigTapscript_effect (sig p : Bytes) (hr : alw .asserts ∨ d.Set) :
    Ensures alw (fun out => ke → DataEffect (if sig≠[] then 1 else 0) d out.2)
      (evalChecksigTapscript chk fl .tapscript sig p d) := by
  have hs : Ensures alw (DataEffect (if sig≠[] then 1 else 0) d)
      (if (!sig.isEmpty) then spendValidationWeight d else pure d) := by
    cases sig with
    | nil => exact DataEffect.refl d
    | cons b sig => exact spendValidationWeight_ensures hfl hr
  refine hs.bind fun d' he => ?_
  refine .ite (fun _ => hfl _) fun _ => .ite (fun hl => ?_) fun _ => ?_
  · refine .ite (fun _ => ?_) fun _ _ => he
    refine (hpr sig p d' hl (hr.imp_right fun h => h.after he)).bind fun d'' h => ?_
    intro hk
    obtain ⟨o,rfl⟩ := h hk
    exact he.setOutputHash o
  · exact (setErrorIf_ensures hfl _ _).bind fun _ _ _ => he

lemma evalChecksig_effect (sig p codehash : Bytes) (hr : alw .asserts ∨ Evaluable ver d) :
    Ensures alw (fun out => ke → DataEffect (if ver=.tapscript ∧ sig≠[] then 1 else 0) d out.2)
      (evalChecksig cr chk fl ver sig p codehash d) := by
  cases ver with
  | base | witnessV0 =>
    exact (evalChecksigPreTapscript_ensures hfl _ _ _).bind fun _ _ _ => DataEffect.refl d
  | tapscript =>
    refine (evalChecksigTapscript_effect hfl hpr sig p
      (hr.imp_right fun h => h.2 rfl)).mono fun out h => ?_
    simpa only [true_and] using h
  | taproot => exact hr.elim id fun h => absurd rfl h.1

lemma execCheckSig_effect (verify : Bool) (st : EvalState)
    (hr : alw .asserts ∨ Evaluable ver st.execdata) :
    Ensures alw (StepEffect cr ke 0 (passedSigs ver (.checkSig verify) st.stack) st)
      (execCheckSig cr chk fl ver verify st) := by
  rw [execCheckSig]
  split
  · rename_i v vc r hs
    refine (evalChecksig_effect hfl hpr _ _ _ hr).bind fun o hd => ?_
    refine (pushOrVerify_ensures hfl _ _ _).bind fun stack hp => ?_
    rw [hs]
    exact {
      opcodePos := rfl
      nOpCount := rfl
      counted := fun h => absurd h (lt_irrefl 0)
      execdata := hd
      fits := fun _ hf ha _ =>
        ⟨hp (stackFits_cons.mp (stackFits_cons.mp (hs ▸ hf)).2).2,ha⟩}
  · exact hfl _

lemma execCheckSigAdd_effect (st : EvalState) (hr : alw .asserts ∨ Evaluable ver st.execdata) :
    Ensures alw (StepEffect cr ke 0 (passedSigs ver .checkSigAdd st.stack) st)
      (execCheckSigAdd cr chk fl ver st) := by
  refine .ite (fun _ => hfl _) fun _ => ?_
  split
  · rename_i p nu s r hs
    refine (scriptNum_ensures hfl _ _ _).bind fun n hn => ?_
    refine (evalChecksig_effect hfl hpr _ _ _ hr).bind fun o hd => ?_
    have hsu : (n+if o.1 then 1 else 0).natAbs<256^5 := by
      split <;> omega
    rw [hs]
    exact {
      opcodePos := rfl
      nOpCount := rfl
      counted := fun h => absurd h (lt_irrefl 0)
      execdata := hd
      fits := fun _ hf ha _ => by
        exact ⟨stackFits_cons.mpr ⟨serializeNum_fits hsu,by simp_all⟩,ha⟩}
  · exact hfl _
end

omit hfl in
lemma ConditionStack.toggleTop_ne_asserts {vfExec : ConditionStack} (h : vfExec.empty=false) :
    ∃ vfExec', vfExec.toggleTop=.ok vfExec' := by
  rw [toggleTop,if_neg (by simpa [empty] using h)]
  exact ⟨_,rfl⟩

omit hfl in
lemma ConditionStack.popBack_ne_asserts {vfExec : ConditionStack} (h : vfExec.empty=false) :
    ∃ vfExec', vfExec.popBack=.ok vfExec' := by
  rw [popBack,if_neg (by simpa [empty] using h)]
  exact ⟨_,rfl⟩

lemma execOp_effect (hprp : chk.Proper alw ke) (op : Op) (hn : ∀ n, op=.pushNum n → n.natAbs≤16)
    (pc : Bytes) (st : EvalState) (hr : alw .asserts ∨ Evaluable ver st.execdata) :
    Ensures alw
      (StepEffect cr ke (multisigKeys fl op st.stack) (passedSigs ver op st.stack) st)
      (execOp cr chk fl ver op pc st) := by
  cases op with
  | pushNum n =>
    have hl := serializeNum_fits ((hn n rfl).trans_lt (by decide : 16<256^5))
    exact .ofStack fun _ hf _ => stackFits_cons.mpr ⟨hl,hf⟩
  | nop => exact .refl st
  | checkLockTimeVerify => exact execCheckLockTimeVerify_effect hfl st
  | checkSequenceVerify => exact execCheckSequenceVerify_effect hfl st
  | upgradableNop => exact setErrorIf_bind hfl fun _ => .refl st
  | opIf notIf => exact execIf_effect hfl notIf st
  | opElse =>
    refine setErrorIf_bind hfl fun he => ?_
    obtain ⟨vfExec,ht⟩ := toggleTop_ne_asserts he
    rw [ht]
    exact (StepEffect.refl st).withVfExec vfExec
  | opEndIf =>
    refine setErrorIf_bind hfl fun he => ?_
    obtain ⟨vfExec,hp⟩ := popBack_ne_asserts he
    rw [hp]
    exact (StepEffect.refl st).withVfExec vfExec
  | verify => exact execVerify_effect hfl st
  | opReturn | bad => exact hfl _
  | toAltStack =>
    obtain ⟨code,stack,altstack,vfExec,nOpCount,opcodePos,execdata⟩ := st
    cases stack with
    | nil => exact hfl _
    | cons top stack =>
      exact .ofStacks fun hf ha =>
        ⟨(stackFits_cons.mp hf).2,stackFits_cons.mpr ⟨(stackFits_cons.mp hf).1,ha⟩⟩
  | fromAltStack =>
    obtain ⟨code,stack,altstack,vfExec,nOpCount,opcodePos,execdata⟩ := st
    cases altstack with
    | nil => exact hfl _
    | cons top altstack =>
      exact .ofStacks fun hf ha =>
        ⟨stackFits_cons.mpr ⟨(stackFits_cons.mp ha).1,hf⟩,(stackFits_cons.mp ha).2⟩
  | stack op =>
    cases hop : stackOp op st.stack with
    | ok stack =>
      rw [execOp,hop]
      exact .ofStack fun _ hf hs => stackOp_fits hop hf hs
    | error e =>
      rw [execOp,hop]
      exact stackOp_error hfl hop
  | pick roll => exact execPick_effect hfl roll st
  | equal verify => exact execEqual_effect hfl verify st
  | unary op => exact execUnary_effect hfl op st
  | binary op => exact execBinary_effect hfl op st
  | within => exact execWithin_effect hfl st
  | hash op => exact execHash_effect hfl op st
  | codeSeparator =>
    have hd : DataEffect 0 st.execdata {st.execdata with codeseparatorPos := some st.opcodePos} :=
      {DataEffect.refl st.execdata with codeseparatorPos := fun _ => rfl}
    exact ⟨rfl,rfl,fun h => absurd h (lt_irrefl 0),fun _ => hd,fun _ hf ha _ => ⟨hf,ha⟩⟩
  | checkSig verify =>
    exact execCheckSig_effect hfl hprp verify st hr
  | checkSigAdd =>
    exact execCheckSigAdd_effect hfl hprp st hr
  | checkMultisig verify => exact execCheckMultisig_effect hfl verify st

omit hfl in
lemma decodeOp_pushNum {opcode : Nat} (h : decodeOp opcode=.pushNum n) :
    (opcode=0x4f ∨ OP_1≤opcode ∧ opcode≤OP_16) ∧ n=opcode-(OP_1-1) := by
  unfold decodeOp at h
  split at h
  · exact ⟨‹_›,(Op.pushNum.inj h).symm⟩
  · split at h
    · cases h
    · split at h <;> cases h

lemma countOp_ensures (opcode : Nat) (st : EvalState) :
    Ensures alw (fun st' => ∃ counted, st'={st with nOpCount := st.nOpCount+counted} ∧
      counted=(if (ver=.base ∨ ver=.witnessV0) ∧ OP_16<opcode then 1 else 0) ∧
      (0 < counted → st'.nOpCount≤MAX_OPS_PER_SCRIPT)) (countOp ver opcode st) := by
  rw [countOp]
  split
  · refine setErrorIf_bind hfl fun hops => ?_
    rw [decide_eq_false_iff_not,not_lt] at hops
    exact ⟨1,rfl,rfl,fun _ => hops⟩
  · exact ⟨0,rfl,rfl,fun h => absurd h (lt_irrefl 0)⟩

lemma execInstruction_effect (hpp : chk.Proper alw ke) (opcode : Nat) (vch pc : Bytes)
    (hpu : vch.length≤MAX_SCRIPT_ELEMENT_SIZE) (st : EvalState)
    (hr : alw .asserts ∨ Evaluable ver st.execdata) :
    Ensures alw (StepEffect cr ke (keysOf fl opcode st) (passedOf ver opcode st) st)
      (execInstruction cr chk fl ver opcode vch pc st) := by
  rw [execInstruction,keysOf,passedOf,executedOp]
  by_cases hp : st.vfExec.allTrue ∧ opcode≤OP_PUSHDATA4
  · simp only [if_pos hp]
    refine setErrorIf_bind hfl fun _ => ?_
    exact .ofStack fun _ hf _ => stackFits_cons.mpr ⟨hpu,hf⟩
  · simp only [if_neg hp]
    by_cases he : st.vfExec.allTrue ∨ OP_IF≤opcode ∧ opcode≤OP_ENDIF
    · simp only [if_pos he]
      refine execOp_effect hfl hpp _ (fun n h => ?_) pc st hr
      obtain ⟨hrn,rfl⟩ := decodeOp_pushNum h
      simp only [OP_1,OP_16] at hrn ⊢
      omega
    · simp only [if_neg he]
      exact .refl st

lemma evalStep_effect (hpp : chk.Proper alw ke) (opcode : Nat) (vch pc : Bytes)
    (st : EvalState) (hr : alw .asserts ∨ Evaluable ver st.execdata) :
    Ensures alw (TurnEffect cr ke (countedOps fl ver opcode st) (passedOf ver opcode st) st)
      (evalStep cr chk fl ver opcode vch pc st) := by
  refine setErrorIf_bind hfl fun hp => ?_
  rw [decide_eq_false_iff_not,not_lt] at hp
  refine (countOp_ensures hfl opcode st).bind fun s1 hcn => ?_
  obtain ⟨c,rfl,hc,hl⟩ := hcn
  refine setErrorIf_bind hfl fun _ => setErrorIf_bind hfl fun _ => ?_
  refine (execInstruction_effect hfl hpp opcode vch pc
    hp {st with nOpCount := st.nOpCount+c} hr).bind fun s2 he => ?_
  refine setErrorIf_bind hfl fun hs => ?_
  rw [decide_eq_false_iff_not,not_lt] at hs
  have hops : s2.nOpCount=st.nOpCount+countedOps fl ver opcode st := by
    rw [he.nOpCount,countedOps,← hc,add_assoc]
    rfl
  refine ⟨hs,hops,fun hpo => ?_,he.execdata,fun hsi hf ha => he.fits hsi hf ha hs⟩
  -- Either the last key or the op itself was compared with the limit.
  by_cases hk : 0<keysOf fl opcode st
  · exact he.counted hk
  · have hn : keysOf fl opcode st=0 := Nat.eq_zero_of_not_pos hk
    have ho : 0 < c := by
      rw [countedOps,hn,← hc] at hpo
      exact hpo
    have hsa : s2.nOpCount=st.nOpCount+c := by
      rw [hops,countedOps,hn,← hc,add_zero]
    exact hsa ▸ hl ho
end
end Xero
