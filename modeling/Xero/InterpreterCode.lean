import Xero.Interpreter
import Xero.Library.Reporting

/-! The interpreter as its code runs: the stack is read and changed place by place with a range
check, serror is an out-parameter that inner evaluations set too, asserts are where the source
has them, and calls of CheckECDSASignature are counted. -/
namespace Xero
open Library Reporting

abbrev Code (α : Type) := Reporting ScriptError α

/- The error a failed function leaves in serror; an assert leaves none. -/
def ScriptFailure.reported : ScriptFailure → Option ScriptError
  | .fails serror => some serror
  | .asserts => none

namespace Code
/-- BaseSignatureChecker, whose answers may be a failed assert. -/
structure SignatureChecker where
  checkECDSASignature : Bytes → Bytes → Bytes → SigVersion → ScriptResult Bool
  checkSchnorrSignature : Bytes → Bytes → SigVersion → ScriptExecutionData →
      ScriptResult ScriptExecutionData
  checkLockTime : Int → ScriptResult Bool
  checkSequence : Int → ScriptResult Bool

def ofResult {α : Type} : ScriptResult α → Code α
  | .ok a => pure a
  | .error (.fails serror) => failWith serror
  | .error .asserts => assertFails

/- stacktop(-i), by at(). -/
def stacktop (stack : List Bytes) (i : Nat) : Code Bytes := readAt stack (i-1)

/- popstack throws on an empty stack. -/
def popstack : List Bytes → Code (List Bytes)
  | [] => outOfRange
  | _::stack => pure stack

/- stack.erase(stack.end()-i) -/
def eraseTop (stack : List Bytes) (i : Nat) : Code (List Bytes) := do
  let _ ← stacktop stack i
  pure (stack.eraseIdx (i-1))

/- swap(stacktop(-i), stacktop(-j)) -/
def swapTop (stack : List Bytes) (i j : Nat) : Code (List Bytes) := do
  let a ← stacktop stack i
  let b ← stacktop stack j
  pure ((stack.set (i-1) b).set (j-1) a)

/- stack.insert(stack.end()-i, vch) -/
def insertTop (stack : List Bytes) (i : Nat) (vch : Bytes) : Code (List Bytes) :=
  if stack.length < i then outOfRange else pure (stack.insertIdx i vch)

def needSize (stack : List Bytes) (n : Nat) : Code Unit :=
  failIf (decide (stack.length<n)) .invalidStackOperation

def stackOp (op : StackOp) (stack : List Bytes) : Code (List Bytes) :=
  match op with
  | .drop2 => do
    needSize stack 2
    let stack ← popstack stack
    popstack stack
  | .dup2 => do
    needSize stack 2
    let vch1 ← stacktop stack 2
    let vch2 ← stacktop stack 1
    pure (vch2::vch1::stack)
  | .dup3 => do
    needSize stack 3
    let vch1 ← stacktop stack 3
    let vch2 ← stacktop stack 2
    let vch3 ← stacktop stack 1
    pure (vch3::vch2::vch1::stack)
  | .over2 => do
    needSize stack 4
    let vch1 ← stacktop stack 4
    let vch2 ← stacktop stack 3
    pure (vch2::vch1::stack)
  | .rot2 => do
    needSize stack 6
    let vch1 ← stacktop stack 6
    let vch2 ← stacktop stack 5
    let stack ← eraseTop stack 6
    let stack ← eraseTop stack 5
    pure (vch2::vch1::stack)
  | .swap2 => do
    needSize stack 4
    let stack ← swapTop stack 4 2
    swapTop stack 3 1
  | .ifDup => do
    needSize stack 1
    let vch ← stacktop stack 1
    pure (if castToBool vch then vch::stack else stack)
  | .depth => pure (serializeNum stack.length::stack)
  | .drop => do
    needSize stack 1
    popstack stack
  | .dup => do
    needSize stack 1
    let vch ← stacktop stack 1
    pure (vch::stack)
  | .nip => do
    needSize stack 2
    eraseTop stack 2
  | .over => do
    needSize stack 2
    let vch ← stacktop stack 2
    pure (vch::stack)
  | .rot => do
    needSize stack 3
    let stack ← swapTop stack 3 2
    swapTop stack 2 1
  | .swap => do
    needSize stack 2
    swapTop stack 2 1
  | .tuck => do
    needSize stack 2
    let vch ← stacktop stack 1
    insertTop stack 2 vch
  | .size => do
    needSize stack 1
    let vch ← stacktop stack 1
    pure (serializeNum vch.length::stack)

def pushOrVerify (verify fSuccess : Bool) (serror : ScriptError) (stack : List Bytes) :
    Code (List Bytes) :=
  let stack := ofBool fSuccess::stack
  if verify then
    if fSuccess then popstack stack else failWith serror
  else pure stack

/- CScriptNum throws, and the catch of EvalScript sets the error. -/
def scriptNum (fRequireMinimal : Bool) (nMaxNumSize : Nat) (vch : Bytes) : Code Int := do
  failIf (decide (nMaxNumSize<vch.length)) .unknownError
  failIf (fRequireMinimal && !isMinimalNum vch) .unknownError
  pure (setVch vch)

section
variable (crypto : ScriptCrypto) (flags : ScriptFlags)

def isLowDERSignature (vchSig : Bytes) : Code Unit := do
  failIf (!isValidSignatureEncoding vchSig) .sigDer
  failIf (!crypto.checkLowS (vchSig.take (vchSig.length-1))) .sigHighS

def checkSignatureEncoding (vchSig : Bytes) : Code Unit :=
  if vchSig.length=0 then pure ()
  else do
    failIf ((flags.has .derSig || flags.has .lowS || flags.has .strictEnc) &&
      !isValidSignatureEncoding vchSig) .sigDer
    (if flags.has .lowS then isLowDERSignature crypto vchSig else pure ())
    failIf (flags.has .strictEnc && !isDefinedHashtypeSignature vchSig) .sigHashtype

def checkPubKeyEncoding (sigversion : SigVersion) (vchPubKey : Bytes) : Code Unit := do
  failIf (flags.has .strictEnc && !isCompressedOrUncompressedPubKey vchPubKey) .pubkeyType
  failIf (flags.has .witnessPubkeyType && sigversion == .witnessV0 && !isCompressedPubKey vchPubKey)
    .witnessPubkeyType
end
section
variable (crypto : ScriptCrypto) (checker : SignatureChecker) (flags : ScriptFlags)
    (sigversion : SigVersion)

def checkECDSASignature (vchSig vchPubKey scriptCode : Bytes) : Code Bool := do
  countCall
  ofResult (checker.checkECDSASignature vchSig vchPubKey scriptCode sigversion)

def dropSignature (scriptCode vchSig : Bytes) : Code Bytes :=
  if sigversion=.base then do
    let (result,found) := findAndDelete scriptCode (pushData vchSig)
    failIf (decide (0<found) && flags.has .constScriptCode) .sigFindAndDelete
    pure result
  else pure scriptCode

def evalChecksigPreTapscript (vchSig vchPubKey pbegincodehash : Bytes) : Code Bool := do
  assertHolds (sigversion == .base || sigversion == .witnessV0)
  let scriptCode ← dropSignature flags sigversion pbegincodehash vchSig
  checkSignatureEncoding crypto flags vchSig
  checkPubKeyEncoding flags sigversion vchPubKey
  let fSuccess ← checkECDSASignature checker sigversion vchSig vchPubKey scriptCode
  failIf (!fSuccess && flags.has .nullFail && vchSig.length != 0) .sigNullFail
  pure fSuccess

def spendValidationWeight (execdata : ScriptExecutionData) : Code ScriptExecutionData :=
  match execdata.validationWeightLeft with
  | none => assertFails
  | some left =>
    let left := left-VALIDATION_WEIGHT_PER_SIGOP_PASSED
    if left<0 then failWith .tapscriptValidationWeight
    else pure {execdata with validationWeightLeft := some left}

def evalChecksigTapscript (sig pubkey : Bytes) (execdata : ScriptExecutionData) :
    Code (Bool×ScriptExecutionData) := do
  assertHolds (sigversion == .tapscript)
  let success := !sig.isEmpty
  let execdata ← (if success then spendValidationWeight execdata else pure execdata)
  if pubkey.length=0 then failWith .pubkeyType
  else if pubkey.length=32 then
    if success then do
      let execdata ← ofResult (checker.checkSchnorrSignature sig pubkey sigversion execdata)
      pure (success,execdata)
    else pure (success,execdata)
  else do
    failIf (flags.has .discourageUpgradablePubkeyType) .discourageUpgradablePubkeyType
    pure (success,execdata)

def evalChecksig (sig pubkey pbegincodehash : Bytes) (execdata : ScriptExecutionData) :
    Code (Bool×ScriptExecutionData) :=
  match sigversion with
  | .base | .witnessV0 => do
    let success ← evalChecksigPreTapscript crypto checker flags sigversion sig pubkey pbegincodehash
    pure (success,execdata)
  | .tapscript => evalChecksigTapscript checker flags sigversion sig pubkey execdata
  | .taproot => assertFails

/- The loop of CHECKMULTISIG that drops each signature from the script code; `left` are still to
come, from `isig` on. -/
def dropSignatures (stack : List Bytes) : Nat → Nat → Bytes → Code Bytes
  | 0, _, scriptCode => pure scriptCode
  | left+1, isig, scriptCode => do
    let vchSig ← stacktop stack isig
    let scriptCode ← dropSignature flags sigversion scriptCode vchSig
    dropSignatures stack left (isig+1) scriptCode

/- The loop of CHECKMULTISIG that looks for a key for each signature. A turn with no key left
   would still read one. -/
def matchSignatures (stack : List Bytes) (scriptCode : Bytes) : Nat → Nat → Nat → Nat → Code Bool
  | nKeysCount, nSigsCount, isig, ikey =>
    if nSigsCount=0 then pure true
    else do
      let vchSig ← stacktop stack isig
      let vchPubKey ← stacktop stack ikey
      checkSignatureEncoding crypto flags vchSig
      checkPubKeyEncoding flags sigversion vchPubKey
      let fOk ← checkECDSASignature checker sigversion vchSig vchPubKey scriptCode
      let left := if fOk then nSigsCount-1 else nSigsCount
      match nKeysCount with
      | 0 => pure false
      | nKeysCount+1 =>
        if nKeysCount<left then pure false
        else matchSignatures stack scriptCode nKeysCount left (if fOk then isig+1
               else isig) (ikey+1)
termination_by nKeysCount => nKeysCount

/- The clean up of the arguments, as long as i-- > 1. -/
def cleanArguments (fSuccess : Bool) : Nat → Nat → List Bytes → Code (List Bytes)
  | 0, _, stack => pure stack
  | n+1, ikey2, stack => do
    let top ← stacktop stack 1
    failIf (!fSuccess && flags.has .nullFail && ikey2 == 0 && top.length != 0) .sigNullFail
    let stack ← popstack stack
    cleanArguments fSuccess n (ikey2-1) stack
end
section
variable (crypto : ScriptCrypto) (checker : SignatureChecker) (flags : ScriptFlags)
    (sigversion : SigVersion)
variable (st : EvalState)

def execCheckLockTimeVerify : Code EvalState :=
  if flags.has .checkLockTimeVerify then do
    needSize st.stack 1
    let top ← stacktop st.stack 1
    let nLockTime ← scriptNum (flags.has .minimalData) 5 top
    failIf (decide (nLockTime<0)) .negativeLocktime
    let fOk ← ofResult (checker.checkLockTime nLockTime)
    failIf (!fOk) .unsatisfiedLocktime
    pure st
  else pure st

def execCheckSequenceVerify : Code EvalState :=
  if flags.has .checkSequenceVerify then do
    needSize st.stack 1
    let top ← stacktop st.stack 1
    let nSequence ← scriptNum (flags.has .minimalData) 5 top
    failIf (decide (nSequence<0)) .negativeLocktime
    if nSequence.toNat.testBit SEQUENCE_LOCKTIME_DISABLE_BIT then pure st
    else do
      let fOk ← ofResult (checker.checkSequence nSequence)
      failIf (!fOk) .unsatisfiedLocktime
      pure st
  else pure st

def popCondition (notIf : Bool) (st : EvalState) : Code (Bool×EvalState) := do
  failIf (decide (st.stack.length<1)) .unbalancedConditional
  let vch ← stacktop st.stack 1
  let minimal := vch.isEmpty || vch == [1]
  failIf (sigversion == .tapscript && !minimal) .tapscriptMinimalIf
  failIf (sigversion == .witnessV0 && flags.has .minimalIf && !minimal) .minimalIf
  let stack ← popstack st.stack
  pure (castToBool vch != notIf,{st with stack := stack})

def execIf (notIf : Bool) (st : EvalState) : Code EvalState := do
  let (fValue,st) ← (if st.vfExec.allTrue then popCondition flags sigversion notIf st
    else pure (false,st))
  pure {st with vfExec := st.vfExec.pushBack fValue}

def execVerify : Code EvalState := do
  needSize st.stack 1
  let top ← stacktop st.stack 1
  if castToBool top then do
    let stack ← popstack st.stack
    pure {st with stack := stack}
  else failWith .verify

def execToAltStack : Code EvalState := do
  needSize st.stack 1
  let top ← stacktop st.stack 1
  let stack ← popstack st.stack
  pure {st with stack := stack, altstack := top::st.altstack}

def execFromAltStack : Code EvalState := do
  failIf (decide (st.altstack.length<1)) .invalidAltstackOperation
  let top ← stacktop st.altstack 1
  let altstack ← popstack st.altstack
  pure {st with stack := top::st.stack, altstack := altstack}

def execPick (roll : Bool) (st : EvalState) : Code EvalState := do
  needSize st.stack 2
  let top ← stacktop st.stack 1
  let n ← scriptNum (flags.has .minimalData) 4 top
  let n := getInt n
  let stack ← popstack st.stack
  failIf (decide (n<0 ∨ (stack.length : Int)≤n)) .invalidStackOperation
  let vch ← stacktop stack (n.toNat+1)
  let stack ← (if roll then eraseTop stack (n.toNat+1) else pure stack)
  pure {st with stack := vch::stack}

def execEqual (verify : Bool) (st : EvalState) : Code EvalState := do
  needSize st.stack 2
  let vch1 ← stacktop st.stack 2
  let vch2 ← stacktop st.stack 1
  let stack ← popstack st.stack
  let stack ← popstack stack
  let stack ← pushOrVerify verify (vch1 == vch2) .equalVerify stack
  pure {st with stack := stack}

def execUnary (op : UnaryOp) (st : EvalState) : Code EvalState := do
  needSize st.stack 1
  let top ← stacktop st.stack 1
  let bn ← scriptNum (flags.has .minimalData) 4 top
  let stack ← popstack st.stack
  pure {st with stack := serializeNum (unaryOp op bn)::stack}

def execBinary (op : BinaryOp) (st : EvalState) : Code EvalState := do
  needSize st.stack 2
  let first ← stacktop st.stack 2
  let bn1 ← scriptNum (flags.has .minimalData) 4 first
  let second ← stacktop st.stack 1
  let bn2 ← scriptNum (flags.has .minimalData) 4 second
  let stack ← popstack st.stack
  let stack ← popstack stack
  let stack := serializeNum (binaryOp op bn1 bn2)::stack
  if op=.numEqualVerify then do
    let top ← stacktop stack 1
    if castToBool top then do
      let stack ← popstack stack
      pure {st with stack := stack}
    else failWith .numEqualVerify
  else pure {st with stack := stack}

def execWithin : Code EvalState := do
  needSize st.stack 3
  let first ← stacktop st.stack 3
  let bn1 ← scriptNum (flags.has .minimalData) 4 first
  let second ← stacktop st.stack 2
  let bn2 ← scriptNum (flags.has .minimalData) 4 second
  let third ← stacktop st.stack 1
  let bn3 ← scriptNum (flags.has .minimalData) 4 third
  let stack ← popstack st.stack
  let stack ← popstack stack
  let stack ← popstack stack
  pure {st with stack := ofBool (decide (bn2≤bn1 ∧ bn1<bn3))::stack}

def execHash (op : HashOp) (st : EvalState) : Code EvalState := do
  needSize st.stack 1
  let vch ← stacktop st.stack 1
  let stack ← popstack st.stack
  pure {st with stack := hashOp crypto op vch::stack}

def execCheckSig (verify : Bool) (st : EvalState) : Code EvalState := do
  needSize st.stack 2
  let vchSig ← stacktop st.stack 2
  let vchPubKey ← stacktop st.stack 1
  let (fSuccess,execdata) ←
    evalChecksig crypto checker flags sigversion vchSig vchPubKey st.pbegincodehash st.execdata
  let stack ← popstack st.stack
  let stack ← popstack stack
  let stack ← pushOrVerify verify fSuccess .checkSigVerify stack
  pure {st with stack := stack, execdata := execdata}

def execCheckSigAdd : Code EvalState :=
  if sigversion=.base ∨ sigversion=.witnessV0 then failWith .badOpcode
  else do
    needSize st.stack 3
    let sig ← stacktop st.stack 3
    let second ← stacktop st.stack 2
    let num ← scriptNum (flags.has .minimalData) 4 second
    let pubkey ← stacktop st.stack 1
    let (success,execdata) ←
      evalChecksig crypto checker flags sigversion sig pubkey st.pbegincodehash st.execdata
    let stack ← popstack st.stack
    let stack ← popstack stack
    let stack ← popstack stack
    pure {st with stack := serializeNum (num+if success then 1 else 0)::stack, execdata := execdata}

/- A count at stacktop(-i), which is within 0 and `max`. -/
def readCount (stack : List Bytes) (i max : Nat) (serror : ScriptError) : Code Nat := do
  needSize stack i
  let vch ← stacktop stack i
  let n ← scriptNum (flags.has .minimalData) 4 vch
  let n := getInt n
  failIf (decide (n<0 ∨ (max : Int)<n)) serror
  pure n.toNat

def popDummy (stack : List Bytes) : Code (List Bytes) := do
  needSize stack 1
  let dummy ← stacktop stack 1
  failIf (flags.has .nullDummy && dummy.length != 0) .sigNullDummy
  popstack stack

/- The counter i of the source is 1, nKeysCount+2 and nKeysCount+nSigsCount+3 where the size of
   the stack is compared with it. -/
def execCheckMultisig (verify : Bool) (st : EvalState) : Code EvalState := do
  failIf (sigversion == .tapscript) .tapscriptCheckMultisig
  let nKeysCount ← readCount flags st.stack 1 MAX_PUBKEYS_PER_MULTISIG .pubkeyCount
  let nOpCount := st.nOpCount+nKeysCount
  failIf (decide (MAX_OPS_PER_SCRIPT<nOpCount)) .opCount
  let nSigsCount ← readCount flags st.stack (nKeysCount+2) nKeysCount .sigCount
  let i := nKeysCount+3+nSigsCount
  failIf (decide (st.stack.length < i)) .invalidStackOperation
  let isig := nKeysCount+3
  let scriptCode ← dropSignatures flags sigversion st.stack nSigsCount isig st.pbegincodehash
  let fSuccess ←
    matchSignatures crypto checker flags sigversion st.stack scriptCode nKeysCount nSigsCount isig 2
  let stack ← cleanArguments flags fSuccess (i-1) (nKeysCount+2) st.stack
  let stack ← popDummy flags stack
  let stack ← pushOrVerify verify fSuccess .checkMultisigVerify stack
  pure {st with stack := stack, nOpCount := nOpCount}

def execOp (op : Op) (pc : Bytes) (st : EvalState) : Code EvalState :=
  match op with
  | .pushNum n => pure {st with stack := serializeNum n::st.stack}
  | .nop => pure st
  | .checkLockTimeVerify => execCheckLockTimeVerify checker flags st
  | .checkSequenceVerify => execCheckSequenceVerify checker flags st
  | .upgradableNop => do
    failIf (flags.has .discourageUpgradableNops) .discourageUpgradableNops
    pure st
  | .opIf notIf => execIf flags sigversion notIf st
  | .opElse => do
    failIf st.vfExec.empty .unbalancedConditional
    let vfExec ← ofResult st.vfExec.toggleTop
    pure {st with vfExec := vfExec}
  | .opEndIf => do
    failIf st.vfExec.empty .unbalancedConditional
    let vfExec ← ofResult st.vfExec.popBack
    pure {st with vfExec := vfExec}
  | .verify => execVerify st
  | .opReturn => failWith .opReturn
  | .toAltStack => execToAltStack st
  | .fromAltStack => execFromAltStack st
  | .stack op => do
    let stack ← stackOp op st.stack
    pure {st with stack := stack}
  | .pick roll => execPick flags roll st
  | .equal verify => execEqual verify st
  | .unary op => execUnary flags op st
  | .binary op => execBinary flags op st
  | .within => execWithin flags st
  | .hash op => execHash crypto op st
  | .codeSeparator =>
    pure {st with
      pbegincodehash := pc
      execdata := {st.execdata with codeseparatorPos := some st.opcodePos}}
  | .checkSig verify => execCheckSig crypto checker flags sigversion verify st
  | .checkSigAdd => execCheckSigAdd crypto checker flags sigversion st
  | .checkMultisig verify => execCheckMultisig crypto checker flags sigversion verify st
  | .bad => failWith .badOpcode
end
section
variable (crypto : ScriptCrypto) (checker : SignatureChecker) (flags : ScriptFlags)

def countOp (sigversion : SigVersion) (opcode : Nat) (st : EvalState) : Code EvalState :=
  if (sigversion=.base ∨ sigversion=.witnessV0) ∧ OP_16<opcode then do
    failIf (decide (MAX_OPS_PER_SCRIPT < st.nOpCount+1)) .opCount
    pure {st with nOpCount := st.nOpCount+1}
  else pure st

def execInstruction (sigversion : SigVersion) (opcode : Nat) (vchPushValue pc : Bytes)
    (st : EvalState) :
    Code EvalState :=
  if st.vfExec.allTrue ∧ opcode≤OP_PUSHDATA4 then do
    failIf (flags.has .minimalData && !checkMinimalPush vchPushValue opcode) .minimalData
    pure {st with stack := vchPushValue::st.stack}
  else if st.vfExec.allTrue ∨ OP_IF≤opcode ∧ opcode≤OP_ENDIF then
    execOp crypto checker flags sigversion (decodeOp opcode) pc st
  else pure st

def evalStep (sigversion : SigVersion) (opcode : Nat) (vchPushValue pc : Bytes) (st : EvalState) :
    Code EvalState := do
  failIf (decide (MAX_SCRIPT_ELEMENT_SIZE<vchPushValue.length)) .pushSize
  let st ← countOp sigversion opcode st
  failIf (isDisabledOpcode opcode) .disabledOpcode
  failIf (opcode == OP_CODESEPARATOR && sigversion == .base && flags.has .constScriptCode)
    .opCodeSeparator
  let st ← execInstruction crypto checker flags sigversion opcode vchPushValue pc st
  failIf (decide (MAX_STACK_SIZE < st.stack.length+st.altstack.length)) .stackSize
  pure {st with opcodePos := st.opcodePos+1}

def evalLoop (sigversion : SigVersion) (pc : Bytes) (st : EvalState) : Code EvalState :=
  if pc=[] then pure st
  else
    match _h : getScriptOp pc with
    | none => failWith .badOpcode
    | some (opcode,vchPushValue,rest) => do
      let st ← evalStep crypto checker flags sigversion opcode vchPushValue rest st
      evalLoop sigversion rest st
termination_by pc.length
decreasing_by exact getScriptOp_length _h

lemma evalLoop_nil (sigversion : SigVersion) (st : EvalState) :
    evalLoop crypto checker flags sigversion [] st=pure st := by
  rw [evalLoop,if_pos rfl]

lemma evalLoop_none {pc : Bytes} (hp : pc≠[]) (h : getScriptOp pc=none) (sigversion : SigVersion)
    (st : EvalState) : evalLoop crypto checker flags sigversion pc st=failWith .badOpcode := by
  rw [evalLoop,if_neg hp]
  split <;> simp_all

lemma evalLoop_some {pc d r : Bytes} {opcode : Nat}
    (h : getScriptOp pc=some (opcode,d,r)) (sigversion : SigVersion) (st : EvalState) :
    evalLoop crypto checker flags sigversion pc st=
      (evalStep crypto checker flags sigversion opcode d r st >>=
        evalLoop crypto checker flags sigversion r) := by
  rw [evalLoop,if_neg (ne_nil_of_getScriptOp h)]
  split <;> simp_all

/-- EvalScript, which reports success or an error of its own. -/
def evalScript (stack : List Bytes) (script : Bytes) (sigversion : SigVersion)
    (execdata : ScriptExecutionData) : Code (List Bytes) := do
  assertHolds (sigversion != .taproot)
  reportError .unknownError
  failIf ((sigversion == .base || sigversion == .witnessV0) && decide (MAX_SCRIPT_SIZE <
      script.length))
    .scriptSize
  let st ← evalLoop crypto checker flags sigversion script
    {pbegincodehash := script, stack := stack, execdata := {execdata with codeseparatorPos := some 0xFFFFFFFF}}
  failIf (!st.vfExec.empty) .unbalancedConditional
  reportOk
  pure st.stack

def findOpSuccess (pc : Bytes) : Code Bool :=
  if pc=[] then pure false
  else
    match _h : getScriptOp pc with
    | none => failWith .badOpcode
    | some (opcode,_,rest) =>
      if isOpSuccess opcode then do
        failIf (flags.has .discourageOpSuccess) .discourageOpSuccess
        reportOk
        pure true
      else findOpSuccess rest
termination_by pc.length
decreasing_by exact getScriptOp_length _h

lemma findOpSuccess_nil : findOpSuccess flags []=pure false := by
  rw [findOpSuccess,if_pos rfl]

lemma findOpSuccess_none {pc : Bytes} (hp : pc≠[]) (h : getScriptOp pc=none) :
    findOpSuccess flags pc=failWith .badOpcode := by
  rw [findOpSuccess,if_neg hp]
  split <;> simp_all

lemma findOpSuccess_some {pc d r : Bytes} {opcode : Nat} (h : getScriptOp pc=some (opcode,d,r)) :
    findOpSuccess flags pc=if isOpSuccess opcode then (do
        failIf (flags.has .discourageOpSuccess) .discourageOpSuccess
        reportOk
        pure true)
      else findOpSuccess flags r := by
  rw [findOpSuccess,if_neg (ne_nil_of_getScriptOp h)]
  split <;> simp_all

/- stack.back() after the test for an empty stack. -/
def requireTrueTop (stack : List Bytes) : Code Unit := do
  failIf stack.isEmpty .evalFalse
  let top ← stacktop stack 1
  failIf (!castToBool top) .evalFalse

/- ExecuteWitnessScript after the scan for OP_SUCCESSx. It returns true with what EvalScript has
   reported. -/
def runWitnessScript (stack : List Bytes) (execScript : Bytes) (sigversion : SigVersion)
    (execdata : ScriptExecutionData) : Code Unit := do
  failIf (stack.any (fun elem => decide (MAX_SCRIPT_ELEMENT_SIZE<elem.length))) .pushSize
  let stack ← evalScript crypto checker flags stack execScript sigversion execdata
  failIf (stack.length != 1) .cleanStack
  let top ← stacktop stack 1
  failIf (!castToBool top) .evalFalse

def executeWitnessScript (stack : List Bytes) (execScript : Bytes) (sigversion : SigVersion)
    (execdata : ScriptExecutionData) : Code Unit :=
  if sigversion=.tapscript then do
    let success ← findOpSuccess flags execScript
    if success then pure ()
    else do
      failIf (decide (MAX_STACK_SIZE < stack.length)) .stackSize
      runWitnessScript crypto checker flags stack execScript sigversion execdata
  else runWitnessScript crypto checker flags stack execScript sigversion execdata
end
section
variable (crypto : ScriptCrypto) (checker : SignatureChecker) (flags : ScriptFlags)

def computeTaprootMerkleRoot (control tapleafHash : Bytes) : Code Bytes := do
  assertHolds (decide (TAPROOT_CONTROL_BASE_SIZE ≤ control.length))
  assertHolds (decide (control.length≤TAPROOT_CONTROL_MAX_SIZE))
  assertHolds ((control.length-TAPROOT_CONTROL_BASE_SIZE)%TAPROOT_CONTROL_NODE_SIZE == 0)
  pure (foldTapPath crypto ((control.length-TAPROOT_CONTROL_BASE_SIZE)/TAPROOT_CONTROL_NODE_SIZE)
    (control.drop TAPROOT_CONTROL_BASE_SIZE) tapleafHash)

def verifyTaprootCommitment (control program tapleafHash : Bytes) : Code Bool := do
  assertHolds (decide (TAPROOT_CONTROL_BASE_SIZE ≤ control.length))
  assertHolds (decide (32≤program.length))
  let merkleRoot ← computeTaprootMerkleRoot crypto control tapleafHash
  pure (crypto.checkTapTweak program ((control.drop 1).take
      (TAPROOT_CONTROL_BASE_SIZE-1)) merkleRoot
    (byteAt control 0%2 == 1))

variable (witness : List Bytes)

def verifyTapLeaf (stack : List Bytes) (control script program : Bytes)
    (execdata : ScriptExecutionData) : Code Unit := do
  failIf (decide (control.length<TAPROOT_CONTROL_BASE_SIZE ∨
      TAPROOT_CONTROL_MAX_SIZE < control.length ∨
    (control.length-TAPROOT_CONTROL_BASE_SIZE)%TAPROOT_CONTROL_NODE_SIZE≠0))
        .taprootWrongControlSize
  let leafVersion := control.headD 0 &&& 0xfe
  let tapleafHash := computeTapleafHash crypto leafVersion script
  let committed ← verifyTaprootCommitment crypto control program tapleafHash
  failIf (!committed) .witnessProgramMismatch
  if leafVersion.toNat=TAPROOT_LEAF_TAPSCRIPT then
    executeWitnessScript crypto checker flags stack script .tapscript {execdata with
      tapleafHash := some tapleafHash
      validationWeightLeft := some (witnessSerializeSize witness+VALIDATION_WEIGHT_OFFSET)}
  else do
    failIf (flags.has .discourageUpgradableTaprootVersion) .discourageUpgradableTaprootVersion
    reportOk

/- SpanPopBack asserts that there is an element. -/
def spanPopBack : List Bytes → Code (Bytes×List Bytes)
  | [] => assertFails
  | back::span => pure (back,span)

/- The span is kept with its last element first. -/
def verifyTaproot (program : Bytes) : Code Unit :=
  if flags.has .taproot then do
    failIf (witness.length == 0) .witnessProgramWitnessEmpty
    let (annex,stack) := splitAnnex witness.reverse
    let annexHash := annex.map (fun a => crypto.sha256 (writeCompactSize a.length++a))
    let execdata : ScriptExecutionData := {annexHash := some annexHash}
    if stack.length=1 then do
      let sig ← stacktop stack 1
      let _ ← ofResult (checker.checkSchnorrSignature sig program .taproot execdata)
      reportOk
    else do
      let (control,stack) ← spanPopBack stack
      let (script,stack) ← spanPopBack stack
      verifyTapLeaf crypto checker flags witness stack control script program execdata
  else reportOk

def verifyWitnessV0 (program : Bytes) : Code Unit :=
  if program.length=32 then do
    failIf (witness.length == 0) .witnessProgramWitnessEmpty
    let (scriptBytes,stack) ← spanPopBack witness.reverse
    failIf (crypto.sha256 scriptBytes != program) .witnessProgramMismatch
    executeWitnessScript crypto checker flags stack scriptBytes .witnessV0 {}
  else if program.length=20 then do
    failIf (witness.length != 2) .witnessProgramMismatch
    executeWitnessScript crypto checker flags witness.reverse
      (0x76::0xa9::(pushData program++[0x88,0xac])) .witnessV0 {}
  else failWith .witnessProgramWrongLength

/-- VerifyWitnessProgram. Programs of the future return true with whatever was reported last. -/
def verifyWitnessProgram (witversion : Nat) (program : Bytes) (isP2SH : Bool) : Code Unit :=
  if witversion=0 then verifyWitnessV0 crypto checker flags witness program
  else if witversion=1 ∧ program.length=32 ∧ isP2SH=false then
    verifyTaproot crypto checker flags witness program
  else failIf (flags.has .discourageUpgradableWitnessProgram) .discourageUpgradableWitnessProgram

def verifyWitness (script : Bytes) (malleated : Bool) (serror : ScriptError)
    (isP2SH : Bool) (stack : List Bytes) : Code (Bool×List Bytes) :=
  match isWitnessProgram script with
  | none => pure (false,stack)
  | some (witnessversion,witnessprogram) => do
    failIf malleated serror
    verifyWitnessProgram crypto checker flags witness witnessversion witnessprogram isP2SH
    pure (true,stack.drop (stack.length-1))

def verifyP2SH (scriptSig : Bytes) (witness : List Bytes) (hadWitness : Bool)
    (stackCopy : List Bytes) :
    Code (Bool×List Bytes) := do
  failIf (!isPushOnly scriptSig) .sigPushOnly
  assertHolds (!stackCopy.isEmpty)
  let pubKey2 ← stacktop stackCopy 1
  let stack ← popstack stackCopy
  let stack ← evalScript crypto checker flags stack pubKey2 .base {}
  requireTrueTop stack
  if flags.has .witness then do
    let (found,stack) ← verifyWitness crypto checker flags witness pubKey2
        (scriptSig != pushData pubKey2)
      .witnessMalleatedP2SH true stack
    pure (hadWitness || found,stack)
  else pure (hadWitness,stack)

def finalChecks (hadWitness : Bool) (stack : List Bytes) : Code Unit := do
  (if flags.has .cleanStack then do
    assertHolds (flags.has .p2sh)
    assertHolds (flags.has .witness)
    failIf (stack.length != 1) .cleanStack
  else pure ())
  (if flags.has .witness then do
    assertHolds (flags.has .p2sh)
    failIf (!hadWitness && !witness.isEmpty) .witnessUnexpected
  else pure ())

def verifyScript (scriptSig scriptPubKey : Bytes) (witness : List Bytes) : Code Unit := do
  reportError .unknownError
  failIf (flags.has .sigPushOnly && !isPushOnly scriptSig) .sigPushOnly
  let stackCopy ← evalScript crypto checker flags [] scriptSig .base {}
  let stack ← evalScript crypto checker flags stackCopy scriptPubKey .base {}
  requireTrueTop stack
  let (hadWitness,stack) ← (if flags.has .witness then
      verifyWitness crypto checker flags witness scriptPubKey (!scriptSig.isEmpty) .witnessMalleated
        false stack
    else pure (false,stack))
  let (hadWitness,stack) ← (if flags.has .p2sh && isPayToScriptHash scriptPubKey then
      verifyP2SH crypto checker flags scriptSig witness hadWitness stackCopy
    else pure (hadWitness,stack))
  finalChecks flags witness hadWitness stack
  reportOk
end
end Code
end Xero
