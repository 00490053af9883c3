import Xero.InterpreterCode

/-! The code of the interpreter computes the interpreter as a function: every read of the stack is
in range, and a failure leaves its error in serror. -/
namespace Xero
open Library Reporting List Code Refines Nat
variable {stk : List Bytes} {n : Nat}
variable {α β : Type}

abbrev Computes (c : Code α) (r : ScriptResult α) : Prop := Refines ScriptFailure.reported c r

lemma computes_failWith (s : ScriptError) :
    Computes (failWith s : Code α) (.error (.fails s)) := .failWith rfl

lemma computes_failIf (b : Bool) (s : ScriptError) : Computes (failIf b s) (setErrorIf b s) := by
  cases b with
  | false => exact .pure_ok ()
  | true => exact computes_failWith s

lemma computes_check {b : Bool} {s : ScriptError} {c : Code α} {r : ScriptResult α}
    (h : Computes c r) : Computes (failIf b s >>= fun _ => c) (setErrorIf b s >>= fun _ => r) :=
  (computes_failIf b s).bind fun _ _ => h

lemma computes_ofResult (r : ScriptResult α) : Computes (ofResult r) r := by
  match r with
  | .ok a => exact .pure_ok a
  | .error (.fails serror) => exact computes_failWith serror
  | .error .asserts => exact .assertFails rfl

namespace Code
/-- A checker that only answers. -/
def SignatureChecker.ofSpec (checker : Xero.SignatureChecker) : SignatureChecker where
  checkECDSASignature vchSig vchPubKey scriptCode sigversion :=
    .ok (checker.checkECDSASignature vchSig vchPubKey scriptCode sigversion)
  checkSchnorrSignature := checker.checkSchnorrSignature
  checkLockTime nLockTime := .ok (checker.checkLockTime nLockTime)
  checkSequence nSequence := .ok (checker.checkSequence nSequence)

@[simp] lemma stacktop_succ (stack : List Bytes) (i : Nat) :
    stacktop stack (i+1)=readAt stack i := rfl

@[simp] lemma popstack_cons (x : Bytes) (stack : List Bytes) : popstack (x::stack)=pure stack := rfl

lemma needSize_of_le (h : n ≤ stk.length) : needSize stk n=pure () := by
  rw [needSize,decide_eq_false (not_lt.mpr h)]
  rfl

lemma needSize_of_lt (h : stk.length<n) : needSize stk n=failWith .invalidStackOperation := by
  rw [needSize,decide_eq_true h]
  rfl
end Code

lemma computes_needSize {c : Code α} {r : ScriptResult α}
    (hs : stk.length<n → r=stackError) (hl : n ≤ stk.length → Computes c r) :
    Computes (needSize stk n >>= fun _ => c) r := by
  by_cases h : stk.length<n
  · rw [needSize_of_lt h,failWith_bind,hs h]
    exact computes_failWith _
  · rw [needSize_of_le (not_lt.mp h)]
    exact hl (not_lt.mp h)

lemma computes_enough {c : Code α} {r : ScriptResult α}
    (h : n ≤ stk.length) (hc : Computes c r) : Computes (needSize stk n >>= fun _ => c) r :=
  computes_needSize (fun hl => absurd hl (not_lt.mpr h)) fun _ => hc

lemma stackOp_computes (op : StackOp) (stack : List Bytes) :
    Computes (Code.stackOp op stack) (stackOp op stack) := by
  cases op with
  | depth => exact .pure_ok _
  | ifDup | drop | dup | size =>
    refine computes_needSize ?_ ?_ <;> intro h
    · match stack with
      | [] => rfl
    · match stack with
      | x::s => simp [stackOp]
  | drop2 | dup2 | nip | «over» | swap | tuck =>
    refine computes_needSize ?_ ?_ <;> intro h
    · match stack with
      | [] | [_] => rfl
    · match stack with
      | x2::x1::s => simp [stackOp,eraseTop,swapTop,insertTop,not_lt.mpr (le_add_left 2 s.length)]
  | dup3 | rot =>
    refine computes_needSize ?_ ?_ <;> intro h
    · match stack with
      | [] | [_] | [_,_] => rfl
    · match stack with
      | x3::x2::x1::s => simp [stackOp,swapTop]
  | over2 | swap2 =>
    refine computes_needSize ?_ ?_ <;> intro h
    · match stack with
      | [] | [_] | [_,_] | [_,_,_] => rfl
    · match stack with
      | x4::x3::x2::x1::s => simp [stackOp,swapTop]
  | rot2 =>
    refine computes_needSize ?_ ?_ <;> intro h
    · match stack with
      | [] | [_] | [_,_] | [_,_,_] | [_,_,_,_] | [_,_,_,_,_] => rfl
    · match stack with
      | x6::x5::x4::x3::x2::x1::s => simp [stackOp,eraseTop]

lemma pushOrVerify_computes (verify fs : Bool) (s : ScriptError) (stack : List Bytes) :
    Computes (Code.pushOrVerify verify fs s stack)
      (pushOrVerify verify fs s stack) := by
  cases verify with
  | false => exact .pure_ok _
  | true =>
    cases fs with
    | false => exact computes_failWith s
    | true => exact .pure_ok stack

lemma scriptNum_computes (minimal : Bool) (maxSize : Nat) (vch : Bytes) :
    Computes (Code.scriptNum minimal maxSize vch)
      (scriptNum minimal maxSize vch) :=
  computes_check (computes_check (.pure_ok _))

section
variable {cr : ScriptCrypto} {chk : SignatureChecker} {fl : ScriptFlags} {ver : SigVersion}

lemma isLowDERSignature_computes (sig : Bytes) :
    Computes (Code.isLowDERSignature cr sig) (isLowDERSignature cr sig) :=
  computes_check (computes_failIf _ _)

lemma checkSignatureEncoding_computes (sig : Bytes) :
    Computes (Code.checkSignatureEncoding cr fl sig)
      (checkSignatureEncoding cr fl sig) := by
  refine .ite (fun _ => .pure_ok ()) fun _ => ?_
  refine computes_check ?_
  refine .bind ?_ fun _ _ => computes_failIf _ _
  exact .ite (fun _ => isLowDERSignature_computes sig) fun _ => .pure_ok ()

lemma checkPubKeyEncoding_computes (pubkey : Bytes) :
    Computes (Code.checkPubKeyEncoding fl ver pubkey)
      (checkPubKeyEncoding fl ver pubkey) :=
  computes_check (computes_failIf _ _)

lemma checkECDSASignature_computes (sig pubkey scriptCode : Bytes) :
    Computes (checkECDSASignature (.ofSpec chk) ver sig pubkey scriptCode)
      (.ok (chk.checkECDSASignature sig pubkey scriptCode ver)) :=
  countCall.step (pure_ok _)

lemma dropSignature_computes (scriptCode sig : Bytes) :
    Computes (Code.dropSignature fl ver scriptCode sig)
      (dropSignature fl ver scriptCode sig) :=
  .ite (fun _ => computes_check (.pure_ok _))
    fun _ => .pure_ok _

lemma evalChecksigPreTapscript_computes (hv : ver=.base ∨ ver=.witnessV0)
    (sig pubkey codehash : Bytes) :
    Computes (Code.evalChecksigPreTapscript cr (.ofSpec chk) fl ver sig pubkey codehash)
      (evalChecksigPreTapscript cr chk fl ver sig pubkey codehash) := by
  have ha : Computes (assertHolds (ver == .base || ver == .witnessV0)) (.ok ()) := by
    obtain rfl | rfl := hv <;> exact .pure_ok ()
  refine ha.step ?_
  refine (dropSignature_computes _ _).bind fun s _ => ?_
  refine (checkSignatureEncoding_computes _).bind fun _ _ => ?_
  refine (checkPubKeyEncoding_computes _).bind fun _ _ => ?_
  refine (checkECDSASignature_computes _ _ _).step ?_
  exact computes_check (.pure_ok _)

lemma spendValidationWeight_computes (execdata : ScriptExecutionData) :
    Computes (Code.spendValidationWeight execdata) (spendValidationWeight execdata) := by
  rw [Code.spendValidationWeight,spendValidationWeight]
  cases execdata.validationWeightLeft with
  | none => exact .assertFails rfl
  | some l => exact .ite (fun _ => computes_failWith _) fun _ => .pure_ok _

lemma evalChecksigTapscript_computes (sig p : Bytes) (execdata : ScriptExecutionData) :
    Computes (Code.evalChecksigTapscript (.ofSpec chk) fl .tapscript sig p execdata)
      (evalChecksigTapscript chk fl .tapscript sig p execdata) := by
  refine .value () ?_
  refine .bind ?_ fun execdata _ => ?_
  · exact .ite (fun _ => spendValidationWeight_computes execdata) fun _ => .pure_ok _
  · refine .ite (fun _ => computes_failWith _) fun _ => .ite (fun _ => ?_) fun _ => ?_
    · exact .ite (fun _ => (computes_ofResult _).bind fun _ _ => .pure_ok _) fun _ => .pure_ok _
    · exact computes_check (.pure_ok _)

lemma evalChecksig_computes (sig p codehash : Bytes) (execdata : ScriptExecutionData) :
    Computes (Code.evalChecksig cr (.ofSpec chk) fl ver sig p codehash execdata)
      (evalChecksig cr chk fl ver sig p codehash execdata) := by
  cases ver with
  | base =>
    exact (evalChecksigPreTapscript_computes (.inl rfl) _ _ _).bind fun _ _ => .pure_ok _
  | witnessV0 =>
    exact (evalChecksigPreTapscript_computes (.inr rfl) _ _ _).bind fun _ _ => .pure_ok _
  | taproot => exact .assertFails rfl
  | tapscript => exact evalChecksigTapscript_computes sig p execdata
end
section
variable {cr : ScriptCrypto} {chk : SignatureChecker} {fl : ScriptFlags} {ver : SigVersion}
variable (st : EvalState)

lemma execCheckLockTimeVerify_computes : Computes (Code.execCheckLockTimeVerify (.ofSpec chk) fl st)
      (execCheckLockTimeVerify chk fl st) := by
  refine .ite (fun _ => ?_) fun _ => .pure_ok st
  obtain ⟨_,stk⟩ := st
  refine computes_needSize ?_ ?_ <;> intro h
  · match stk with
    | [] => rfl
  · match stk with
    | top::stk =>
      refine .value top ?_
      refine (scriptNum_computes _ _ _).bind fun nl _ => ?_
      refine computes_check ?_
      refine .value (chk.checkLockTime nl) ?_
      exact computes_check (.pure_ok _)

lemma execCheckSequenceVerify_computes : Computes (Code.execCheckSequenceVerify (.ofSpec chk) fl st)
      (execCheckSequenceVerify chk fl st) := by
  refine .ite (fun _ => ?_) fun _ => .pure_ok st
  obtain ⟨_,stk⟩ := st
  refine computes_needSize ?_ ?_ <;> intro h
  · match stk with
    | [] => rfl
  · match stk with
    | top::stk =>
      refine .value top ?_
      refine (scriptNum_computes _ _ _).bind fun ns _ => ?_
      refine computes_check ?_
      refine .ite (fun _ => .pure_ok _) fun _ => ?_
      refine .value (chk.checkSequence ns) ?_
      exact computes_check (.pure_ok _)

lemma popCondition_computes (ni : Bool) (st : EvalState) :
    Computes (Code.popCondition fl ver ni st) (popCondition fl ver ni st) := by
  obtain ⟨_,stk⟩ := st
  match stk with
  | [] => exact computes_failWith _
  | vch::stk =>
    refine .value () ?_
    refine .value vch ?_
    refine computes_check (computes_check ?_)
    exact .value stk (.pure_ok _)

lemma execIf_computes (ni : Bool) (st : EvalState) :
    Computes (Code.execIf fl ver ni st) (execIf fl ver ni st) := by
  refine .bind ?_ fun _ _ => .pure_ok _
  exact .ite (fun _ => popCondition_computes ni st) fun _ => .pure_ok _

lemma execVerify_computes : Computes (Code.execVerify st) (execVerify st) := by
  obtain ⟨_,stk⟩ := st
  match stk with
  | [] => exact computes_failWith _
  | top::stk =>
    refine .value () (.value top ?_)
    exact .ite (fun _ => .value stk (.pure_ok _)) fun _ => computes_failWith _

lemma execPick_computes (r : Bool) (st : EvalState) :
    Computes (Code.execPick fl r st) (execPick fl r st) := by
  obtain ⟨_,stk⟩ := st
  match stk with
  | [] | [_] => exact computes_failWith _
  | top::next::rest =>
    refine computes_enough (by simp) ?_
    refine .value top ?_
    refine (scriptNum_computes _ _ _).bind fun n _ => ?_
    refine .value (next::rest) ?_
    refine (computes_failIf _ _).bind fun _ hr => ?_
    rw [setErrorIf,rejectIf_eq_ok,decide_eq_false_iff_not] at hr
    have hl : (getInt n).toNat<(next::rest).length := by omega
    have hg := getElem?_eq_getElem hl
    rw [hg]
    refine (readAt hg).step ?_
    cases r with
    | false => exact .value _ (.pure_ok _)
    | true =>
      exact .step ((readAt hg).step (.pure_ok _)) (.pure_ok _)

lemma execEqual_computes (verify : Bool) (st : EvalState) :
    Computes (Code.execEqual verify st) (execEqual verify st) := by
  obtain ⟨_,stk⟩ := st
  match stk with
  | [] | [_] => exact computes_failWith _
  | vch2::vch1::rest =>
    refine computes_enough (by simp) ?_
    refine .value vch1 (.value vch2 ?_)
    refine .value (vch1::rest) (.value rest ?_)
    exact (pushOrVerify_computes _ _ _ _).bind fun _ _ => .pure_ok _

lemma execUnary_computes (op : UnaryOp) (st : EvalState) :
    Computes (Code.execUnary fl op st) (execUnary fl op st) := by
  obtain ⟨_,stk⟩ := st
  match stk with
  | [] => exact computes_failWith _
  | top::rest =>
    refine computes_enough (by simp) ?_
    refine .value top ?_
    refine (scriptNum_computes _ _ _).bind fun bn _ => ?_
    exact .value rest (.pure_ok _)

lemma execBinary_computes (op : BinaryOp) (st : EvalState) :
    Computes (Code.execBinary fl op st) (execBinary fl op st) := by
  obtain ⟨_,stk⟩ := st
  match stk with
  | [] | [_] => exact computes_failWith _
  | second::first::rest =>
    refine computes_enough (by simp) ?_
    refine .value first ?_
    refine (scriptNum_computes _ _ _).bind fun b1 _ => ?_
    refine .value second ?_
    refine (scriptNum_computes _ _ _).bind fun b2 _ => ?_
    refine .value (first::rest) (.value rest ?_)
    refine .ite (fun _ => ?_) fun _ => .pure_ok _
    refine .value (serializeNum (binaryOp op b1 b2)) ?_
    exact .ite (fun _ => .value rest (.pure_ok _)) fun _ => computes_failWith _

lemma execWithin_computes : Computes (Code.execWithin fl st) (execWithin fl st) := by
  obtain ⟨_,stk⟩ := st
  match stk with
  | [] | [_] | [_,_] => exact computes_failWith _
  | third::second::first::rest =>
    refine computes_enough (by simp) ?_
    refine .value first ?_
    refine (scriptNum_computes _ _ _).bind fun b1 _ => ?_
    refine .value second ?_
    refine (scriptNum_computes _ _ _).bind fun b2 _ => ?_
    refine .value third ?_
    refine (scriptNum_computes _ _ _).bind fun b3 _ => ?_
    refine .value (second::first::rest) ?_
    exact .value (first::rest) (.value rest (.pure_ok _))

lemma execHash_computes (op : HashOp) (st : EvalState) :
    Computes (Code.execHash cr op st) (execHash cr op st) := by
  obtain ⟨_,stk⟩ := st
  match stk with
  | [] => exact computes_failWith _
  | vch::rest =>
    refine computes_enough (by simp) ?_
    exact .value vch (.value rest (.pure_ok _))

lemma execCheckSig_computes (verify : Bool) (st : EvalState) :
    Computes (Code.execCheckSig cr (.ofSpec chk) fl ver verify st)
      (execCheckSig cr chk fl ver verify st) := by
  obtain ⟨_,stk⟩ := st
  match stk with
  | [] | [_] => exact computes_failWith _
  | vchPubKey::vchSig::rest =>
    refine computes_enough (by simp) ?_
    refine .value vchSig (.value vchPubKey ?_)
    refine (evalChecksig_computes _ _ _ _).bind fun _ _ => ?_
    refine .value (vchSig::rest) (.value rest ?_)
    exact (pushOrVerify_computes _ _ _ _).bind fun _ _ => .pure_ok _

lemma execCheckSigAdd_computes : Computes (Code.execCheckSigAdd cr (.ofSpec chk) fl ver st)
      (execCheckSigAdd cr chk fl ver st) := by
  refine .ite (fun _ => computes_failWith _) fun _ => ?_
  obtain ⟨_,stk⟩ := st
  match stk with
  | [] | [_] | [_,_] => exact computes_failWith _
  | pubkey::num::sig::rest =>
    refine computes_enough (by simp) ?_
    refine .value sig (.value num ?_)
    refine (scriptNum_computes _ _ _).bind fun n _ => ?_
    refine .value pubkey ?_
    refine (evalChecksig_computes _ _ _ _).bind fun _ _ => ?_
    refine .value (num::sig::rest) ?_
    exact .value (sig::rest) (.value rest (.pure_ok _))

lemma readCount_le {i max : Nat} {s : ScriptError}
    (h : readCount fl stk i max s=.ok n) : n ≤ max := by
  rw [readCount] at h
  split at h
  · exact nomatch h
  · obtain ⟨m,_,h⟩ := bind_eq_ok.mp h
    obtain ⟨_,hr,h⟩ := bind_eq_ok.mp h
    rw [setErrorIf,rejectIf_eq_ok,decide_eq_false_iff_not] at hr
    obtain rfl : (getInt m).toNat=n := Except.ok.inj h
    omega

lemma readCount_computes (stack : List Bytes) (i max : Nat) (s : ScriptError) :
    Computes (Code.readCount fl stack (i+1) max s) (readCount fl stack i max s) := by
  rw [readCount]
  refine computes_needSize ?_ ?_ <;> intro h
  · rw [getElem?_eq_none (by omega)]
  · have hg := getElem?_eq_getElem (show i < stack.length by omega)
    rw [hg]
    refine (readAt hg).step ?_
    refine (scriptNum_computes _ _ _).bind fun n _ => ?_
    exact computes_check (.pure_ok _)

lemma popDummy_computes (stack : List Bytes) :
    Computes (Code.popDummy fl stack) (popDummy fl stack) := by
  match stack with
  | [] => exact computes_failWith _
  | dummy::stack =>
    refine computes_enough (by simp) ?_
    refine .value dummy ?_
    exact computes_check (.pure_ok _)

lemma take_drop_succ {i : Nat} (n : Nat) (h : i < stk.length) :
    (stk.drop i).take (n+1)=stk[i]::(stk.drop (i+1)).take n := by
  rw [drop_eq_getElem_cons h,take_succ_cons]

lemma dropSignatures_computes (stack : List Bytes) (l i : Nat) (scriptCode : Bytes)
    (h : i+l ≤ stack.length) :
    Computes (Code.dropSignatures fl ver stack l (i+1) scriptCode)
      (dropSignatures fl ver scriptCode ((stack.drop i).take l)) := by
  induction l generalizing i scriptCode with
  | zero => exact .pure_ok scriptCode
  | succ l ih =>
    have hi : i < stack.length := by omega
    rw [take_drop_succ l hi,dropSignatures,Code.dropSignatures]
    refine (Refines.readAt (getElem?_eq_getElem hi)).step ?_
    refine (dropSignature_computes _ _).bind fun scriptCode _ => ?_
    exact ih (i+1) scriptCode (by omega)

/- The loop never has fewer keys than signatures, so that it finds each of them on the stack. -/
lemma matchSignatures_computes (stack : List Bytes) (scriptCode : Bytes) (nk ns i k : Nat)
    (hle : ns≤nk) (hs : i+ns ≤ stack.length) (hke : k+nk ≤ stack.length) :
    Computes
      (Code.matchSignatures cr (.ofSpec chk) fl ver stack scriptCode nk ns (i+1) (k+1))
      (matchSignatures cr chk fl ver scriptCode
        ((stack.drop i).take ns) ((stack.drop k).take nk)) := by
  induction nk generalizing ns i k with
  | zero =>
    obtain rfl := le_zero.mp hle
    rw [Code.matchSignatures,if_pos rfl,take_zero]
    exact .pure_ok true
  | succ nk ih =>
    cases ns with
    | zero =>
      rw [Code.matchSignatures,if_pos rfl,take_zero,matchSignatures]
      exact .pure_ok true
    | succ ns =>
      have hi : i < stack.length := by omega
      have hk : k < stack.length := by omega
      have hln : ((stack.drop (k+1)).take nk).length=nk := by
        rw [length_take,length_drop]
        omega
      have hl : ((stack.drop (i+1)).take ns).length=ns := by
        rw [length_take,length_drop]
        omega
      rw [take_drop_succ ns hi,take_drop_succ nk hk,matchSignatures,Code.matchSignatures,
        if_neg (succ_ne_zero ns),Code.stacktop_succ,Code.stacktop_succ]
      refine (readAt (getElem?_eq_getElem hi)).step ?_
      refine (readAt (getElem?_eq_getElem hk)).step ?_
      refine (checkSignatureEncoding_computes _).bind fun _ _ => ?_
      refine (checkPubKeyEncoding_computes _).bind fun _ _ => ?_
      refine (checkECDSASignature_computes _ _ _).step ?_
      generalize chk.checkECDSASignature stack[i] stack[k] scriptCode ver=fOk
      cases fOk with
      | true =>
        simp only [if_true,hln,hl,Nat.add_sub_cancel]
        exact .ite (fun _ => .pure_ok false)
          fun h => ih ns (i+1) (k+1) (by omega) (by omega) (by omega)
      | false =>
        simp only [Bool.false_eq_true,if_false,length_cons,hln,hl]
        refine .ite (fun _ => .pure_ok false) fun h => ?_
        rw [← take_drop_succ ns hi]
        exact ih (ns+1) i (k+1) (by omega) hs (by omega)

lemma cleanArguments_computes (fs : Bool) (n i2 : Nat) (stack : List Bytes) (h : n ≤ stack.length) :
    Computes (Code.cleanArguments fl fs n i2 stack)
      (cleanArguments fl fs n i2 stack) := by
  induction n generalizing i2 stack with
  | zero => exact .pure_ok stack
  | succ n ih =>
    match stack with
    | top::stack =>
      refine .value top ?_
      refine computes_check ?_
      exact .value stack (ih (i2-1) stack (le_of_succ_le_succ h))

lemma execCheckMultisig_computes (verify : Bool) (st : EvalState) :
    Computes (Code.execCheckMultisig cr (.ofSpec chk) fl ver verify st)
      (execCheckMultisig cr chk fl ver verify st) := by
  refine computes_check ?_
  refine (readCount_computes _ 0 _ _).bind fun nKeys _ => ?_
  refine computes_check ?_
  refine (readCount_computes _ (nKeys+1) _ _).bind fun nSigs hr => ?_
  have hle : nSigs≤nKeys := readCount_le hr
  rw [show nKeys+3+nSigs=nKeys+nSigs+3 by omega]
  refine (computes_failIf _ _).bind fun _ hs => ?_
  rw [setErrorIf,rejectIf_eq_ok,decide_eq_false_iff_not] at hs
  refine (dropSignatures_computes _ nSigs (nKeys+2) _ (by omega)).bind fun scriptCode _ => ?_
  refine (matchSignatures_computes _ scriptCode nKeys nSigs
    (nKeys+2) 1 hle (by omega) (by omega)).bind fun fSuccess _ => ?_
  refine (cleanArguments_computes fSuccess (nKeys+nSigs+2) _ _ (by omega)).bind fun stk _ => ?_
  refine (popDummy_computes _).bind fun stk _ => ?_
  exact (pushOrVerify_computes _ _ _ _).bind fun _ _ => .pure_ok _

lemma execOp_computes (op : Op) (pc : Bytes) (st : EvalState) :
    Computes (Code.execOp cr (.ofSpec chk) fl ver op pc st)
      (execOp cr chk fl ver op pc st) := by
  cases op with
  | pushNum _ | nop | codeSeparator => exact .pure_ok _
  | checkLockTimeVerify => exact execCheckLockTimeVerify_computes st
  | checkSequenceVerify => exact execCheckSequenceVerify_computes st
  | upgradableNop => exact computes_check (.pure_ok _)
  | opIf notIf => exact execIf_computes notIf st
  | opElse | opEndIf =>
    exact (computes_failIf _ _).bind fun _ _ => (computes_ofResult _).bind fun _ _ => .pure_ok _
  | verify => exact execVerify_computes st
  | opReturn | bad => exact computes_failWith _
  | toAltStack =>
    obtain ⟨_,stk⟩ := st
    match stk with
    | [] => exact computes_failWith _
    | top::stk => exact .value () (.pure_ok _)
  | fromAltStack =>
    obtain ⟨_,_,altstack⟩ := st
    match altstack with
    | [] => exact computes_failWith _
    | top::altstack => exact .value () (.pure_ok _)
  | stack op => exact (stackOp_computes op _).bind fun _ _ => .pure_ok _
  | pick roll => exact execPick_computes roll st
  | equal verify => exact execEqual_computes verify st
  | unary op => exact execUnary_computes op st
  | binary op => exact execBinary_computes op st
  | within => exact execWithin_computes st
  | hash op => exact execHash_computes op st
  | checkSig verify => exact execCheckSig_computes verify st
  | checkSigAdd => exact execCheckSigAdd_computes st
  | checkMultisig verify => exact execCheckMultisig_computes verify st
end

lemma computes_assertHolds {b b' : Bool} (h : b'=!b) :
    Computes (assertHolds b) (rejectIf b' .asserts) := by
  rw [h]
  exact .assertHolds rfl b

lemma decide_lt_eq_not (m n : Nat) : decide (m<n)=!decide (n ≤ m) := by
  rw [← decide_not,decide_eq_decide,not_le]

section
variable {cr : ScriptCrypto} {chk : SignatureChecker} {fl : ScriptFlags}
variable {ver : SigVersion}

lemma countOp_computes (opcode : Nat) (st : EvalState) :
    Computes (Code.countOp ver opcode st) (countOp ver opcode st) :=
  .ite (fun _ => computes_check (.pure_ok _))
    fun _ => .pure_ok st

lemma execInstruction_computes (opcode : Nat) (vch pc : Bytes) (st : EvalState) :
    Computes (Code.execInstruction cr (.ofSpec chk) fl ver opcode vch pc st)
      (execInstruction cr chk fl ver opcode vch pc st) := by
  refine .ite (fun _ => computes_check (.pure_ok _)) fun _ => ?_
  exact .ite (fun _ => execOp_computes _ pc st) fun _ => .pure_ok st

lemma evalStep_computes (opcode : Nat) (vch pc : Bytes) (st : EvalState) :
    Computes (Code.evalStep cr (.ofSpec chk) fl ver opcode vch pc st)
      (evalStep cr chk fl ver opcode vch pc st) := by
  refine computes_check ?_
  refine (countOp_computes opcode st).bind fun st _ => ?_
  refine computes_check (computes_check ?_)
  refine (execInstruction_computes opcode vch pc st).bind fun st _ => ?_
  exact computes_check (.pure_ok _)

lemma evalLoop_computes (pc : Bytes) (st : EvalState) :
    Computes (Code.evalLoop cr (.ofSpec chk) fl ver pc st)
      (evalLoop cr chk fl ver pc st) := by
  induction pc using script_induction generalizing st with
  | nil =>
    rw [Code.evalLoop_nil,evalLoop_nil]
    exact .pure_ok st
  | undecodable pc hp ho =>
    rw [Code.evalLoop_none cr _ fl hp ho,evalLoop_none cr _ fl hp ho]
    exact computes_failWith _
  | instruction pc o d r ho ih =>
    rw [Code.evalLoop_some cr _ fl ho,evalLoop_some cr _ fl ho]
    exact (evalStep_computes o d r st).bind fun st _ => ih st

lemma evalScript_computes (stack : List Bytes) (script : Bytes) (version : SigVersion)
    (execdata : ScriptExecutionData) :
    Computes (Code.evalScript cr (.ofSpec chk) fl stack script version execdata)
      (evalScript cr chk fl stack script version execdata) := by
  refine (computes_assertHolds (Bool.not_not _).symm).bind fun _ _ => ?_
  refine (Refines.reportError _).step (computes_check ?_)
  refine (evalLoop_computes script _).bind fun st _ => ?_
  exact (computes_failIf _ _).bind fun _ _ => Refines.reportOk.step (Refines.pure_ok _)

lemma findOpSuccess_computes (pc : Bytes) :
    Computes (Code.findOpSuccess fl pc) (findOpSuccess fl pc) := by
  induction pc using script_induction with
  | nil =>
    rw [Code.findOpSuccess_nil,findOpSuccess_nil]
    exact .pure_ok false
  | undecodable pc hp ho =>
    rw [Code.findOpSuccess_none fl hp ho,findOpSuccess_none fl hp ho]
    exact computes_failWith _
  | instruction pc o d r ho ih =>
    rw [Code.findOpSuccess_some fl ho,findOpSuccess_some fl ho]
    refine .ite (fun _ => ?_) fun _ => ih
    exact (computes_failIf _ _).bind fun _ _ => reportOk.step (pure_ok _)

lemma requireTrueTop_computes (stack : List Bytes) :
    Computes (Code.requireTrueTop stack) (requireTrueTop stack) := by
  match stack with
  | [] => exact computes_failWith _
  | top::_ => exact .value () (.value top (computes_failIf _ _))

lemma runWitnessScript_computes (stack : List Bytes) (e : Bytes) (version : SigVersion)
    (execdata : ScriptExecutionData) :
    Computes (Code.runWitnessScript cr (.ofSpec chk) fl stack e version execdata)
      (runWitnessScript cr chk fl stack e version execdata) := by
  refine computes_check ?_
  refine (evalScript_computes stack e version execdata).bind fun stack _ => ?_
  refine (computes_failIf _ _).bind fun _ hl => ?_
  match stack with
  | [top] => exact .value top (computes_failIf _ _)

lemma executeWitnessScript_computes (stack : List Bytes) (e : Bytes)
    (version : SigVersion) (execdata : ScriptExecutionData) :
    Computes (Code.executeWitnessScript cr (.ofSpec chk) fl stack e version execdata)
      (executeWitnessScript cr chk fl stack e version execdata) := by
  refine .ite (fun _ => ?_) fun _ => runWitnessScript_computes stack e version execdata
  refine (findOpSuccess_computes e).bind fun s _ => ?_
  refine .ite (fun _ => .pure_ok ()) fun _ => computes_check ?_
  exact runWitnessScript_computes stack e version execdata

lemma computeTaprootMerkleRoot_computes (control leafHash : Bytes) :
    Computes (Code.computeTaprootMerkleRoot cr control leafHash)
      (computeTaprootMerkleRoot cr control leafHash) := by
  refine (computes_assertHolds (decide_lt_eq_not _ _)).bind fun _ _ => ?_
  refine (computes_assertHolds (decide_lt_eq_not _ _)).bind fun _ _ => ?_
  exact (computes_assertHolds rfl).bind fun _ _ => .pure_ok _

lemma verifyTaprootCommitment_computes (control p leafHash : Bytes) :
    Computes (Code.verifyTaprootCommitment cr control p leafHash)
      (verifyTaprootCommitment cr control p leafHash) := by
  refine (computes_assertHolds (decide_lt_eq_not _ _)).bind fun _ _ => ?_
  refine (computes_assertHolds (decide_lt_eq_not _ _)).bind fun _ _ => ?_
  exact (computeTaprootMerkleRoot_computes control leafHash).bind fun _ _ => .pure_ok _

variable (wit : List Bytes)

lemma verifyTapLeaf_computes (stack : List Bytes) (control script p : Bytes)
    (execdata : ScriptExecutionData) :
    Computes (Code.verifyTapLeaf cr (.ofSpec chk) fl wit stack control script p execdata)
      (verifyTapLeaf cr chk fl wit stack control script p execdata) := by
  refine computes_check ?_
  refine (verifyTaprootCommitment_computes control p _).bind fun c _ => ?_
  refine computes_check ?_
  refine .ite (fun _ => executeWitnessScript_computes _ _ _ _) fun _ => ?_
  cases fl.has .discourageUpgradableTaprootVersion with
  | false => exact .reportOk
  | true => exact computes_failWith _

lemma verifyTaproot_computes (p : Bytes) : Computes (Code.verifyTaproot cr (.ofSpec chk) fl wit p)
      (verifyTaproot cr chk fl wit p) := by
  refine .ite (fun _ => ?_) fun _ => .reportOk
  rw [show wit.isEmpty=(wit.length == 0) by cases wit <;> rfl]
  refine computes_check ?_
  generalize splitAnnex wit.reverse=split
  obtain ⟨_,_ | ⟨c,_ | ⟨s,stk⟩⟩⟩ := split
  · exact .assertFails rfl
  · refine .value c ((computes_ofResult _).bind fun _ _ => .reportOk)
  · refine .value (c,s::stk) ?_
    refine .value (s,stk) ?_
    exact verifyTapLeaf_computes wit stk c s p _

lemma verifyWitnessV0_computes (p : Bytes) :
    Computes (Code.verifyWitnessV0 cr (.ofSpec chk) fl wit p)
      (verifyWitnessV0 cr chk fl wit p) := by
  refine .ite (fun _ => ?_) fun _ => .ite (fun _ => ?_) fun _ => computes_failWith _
  · rw [← length_reverse]
    match wit.reverse with
    | [] => exact computes_failWith _
    | scriptBytes::stk =>
      refine .value () ?_
      refine .value (scriptBytes,stk) ?_
      exact computes_check (executeWitnessScript_computes _ _ _ _)
  · exact computes_check (executeWitnessScript_computes _ _ _ _)

lemma verifyWitness_computes (script : Bytes) (m : Bool) (s : ScriptError) (ip2 : Bool)
    (stack : List Bytes) :
    Computes
      (Code.verifyWitness cr (.ofSpec chk) fl wit script m s ip2 stack)
      (verifyWitness cr chk fl wit script m s ip2 stack) := by
  rw [Code.verifyWitness,verifyWitness]
  match isWitnessProgram script with
  | none => exact .pure_ok _
  | some (witversion,program) =>
    refine (computes_failIf _ _).bind fun _ _ => .bind ?_ fun _ _ => .pure_ok _
    refine .ite (fun _ => verifyWitnessV0_computes wit program) fun _ => ?_
    exact .ite (fun _ => verifyTaproot_computes wit program) fun _ => computes_failIf _ _

lemma verifyP2SH_computes (sig : Bytes) (witness : List Bytes) (ha : Bool) (copied : List Bytes) :
    Computes (Code.verifyP2SH cr (.ofSpec chk) fl sig witness ha copied)
      (verifyP2SH cr chk fl sig witness ha copied) := by
  refine computes_check ?_
  match copied with
  | [] => exact .assertFails rfl
  | pubKey2::stk =>
    refine .value () ?_
    refine .value pubKey2 (.value stk ?_)
    refine (evalScript_computes stk pubKey2 .base {}).bind fun stk _ => ?_
    refine (requireTrueTop_computes stk).bind fun _ _ => ?_
    refine .ite (fun _ => ?_) fun _ => .pure_ok _
    exact (verifyWitness_computes _ _ _ _ _ _).bind fun _ _ => .pure_ok _

lemma finalChecks_computes (ha : Bool) (stack : List Bytes) :
    Computes (Code.finalChecks fl wit ha stack) (finalChecks fl wit ha stack) := by
  refine .bind (.ite (fun _ => ?_) fun _ => .pure_ok ())
    fun _ _ => .ite (fun _ => ?_) fun _ => .pure_ok ()
  · exact (computes_assertHolds rfl).bind fun _ _ =>
      (computes_assertHolds rfl).bind fun _ _ => computes_failIf _ _
  · exact (computes_assertHolds rfl).bind fun _ _ => computes_failIf _ _

/-- The code of VerifyScript computes the function: it reads nothing out of range, fails with the
function's error, and asserts where the function does. -/
lemma verifyScript_computes (sig scriptPubKey : Bytes) (witness : List Bytes) :
    Computes (Code.verifyScript cr (.ofSpec chk) fl sig scriptPubKey witness)
      (verifyScript cr chk fl sig scriptPubKey witness) := by
  refine (Refines.reportError _).step (computes_check ?_)
  refine (evalScript_computes [] sig .base {}).bind fun s _ => ?_
  refine (evalScript_computes s scriptPubKey .base {}).bind fun stk _ => ?_
  refine (requireTrueTop_computes stk).bind fun _ _ => ?_
  refine .bind (.ite (fun _ => verifyWitness_computes _ _ _ _ _ _) fun _ =>
      .pure_ok _) fun _ _ => ?_
  refine .bind (.ite (fun _ => verifyP2SH_computes _ _ _ _) fun _ => .pure_ok _) fun out _ => ?_
  refine .then_ok (finalChecks_computes witness out.1 out.2) ?_
  exact .reportOk
end
end Xero
