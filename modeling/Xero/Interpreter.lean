import Xero.Script
import Xero.TxRules

/-! The script interpreter: EvalScript with every opcode, signature checks before and in tapscript,
witness programs, and VerifyScript. Stacks are lists, top first. -/
namespace Xero
open Library

/-- Script verification flags, one bit each of an unsigned int. -/
inductive ScriptFlag where
  | p2sh | strictEnc | derSig | lowS | nullDummy | sigPushOnly | minimalData
  | discourageUpgradableNops | cleanStack | checkLockTimeVerify | checkSequenceVerify | witness
  | discourageUpgradableWitnessProgram | minimalIf | nullFail | witnessPubkeyType
  | constScriptCode | taproot | discourageUpgradableTaprootVersion | discourageOpSuccess
  | discourageUpgradablePubkeyType
deriving Repr, DecidableEq

def ScriptFlag.bit : ScriptFlag → Nat
  | .p2sh => 0
  | .strictEnc => 1
  | .derSig => 2
  | .lowS => 3
  | .nullDummy => 4
  | .sigPushOnly => 5
  | .minimalData => 6
  | .discourageUpgradableNops => 7
  | .cleanStack => 8
  | .checkLockTimeVerify => 9
  | .checkSequenceVerify => 10
  | .witness => 11
  | .discourageUpgradableWitnessProgram => 12
  | .minimalIf => 13
  | .nullFail => 14
  | .witnessPubkeyType => 15
  | .constScriptCode => 16
  | .taproot => 17
  | .discourageUpgradableTaprootVersion => 18
  | .discourageOpSuccess => 19
  | .discourageUpgradablePubkeyType => 20

structure ScriptFlags where
  bits : Nat
deriving Repr, DecidableEq

def ScriptFlags.has (flags : ScriptFlags) (flag : ScriptFlag) : Bool := flags.bits.testBit flag.bit

inductive SigVersion where
  | base
  | witnessV0
  | taproot
  | tapscript
deriving Repr, DecidableEq

/- A field with its init flag is an Option. -/
structure ScriptExecutionData where
  tapleafHash : Option Bytes := none
  codeseparatorPos : Option Nat := none
  annexHash : Option (Option Bytes) := none
  validationWeightLeft : Option Int := none
  outputHash : Option Bytes := none
deriving Repr, DecidableEq

/-- BaseSignatureChecker. The Schnorr check may fill in the execution data it hashes. -/
structure SignatureChecker where
  checkECDSASignature : Bytes → Bytes → Bytes → SigVersion → Bool
  checkSchnorrSignature : Bytes → Bytes → SigVersion → ScriptExecutionData →
      ScriptResult ScriptExecutionData
  checkLockTime : Int → Bool
  checkSequence : Int → Bool

/- The hash functions and the curve arithmetic scripts rest on. -/
structure ScriptCrypto where
  ripemd160 : Bytes → Bytes
  sha1 : Bytes → Bytes
  sha256 : Bytes → Bytes
  checkLowS : Bytes → Bool
  taggedSHA256 : String → Bytes → Bytes
  checkTapTweak : Bytes → Bytes → Bytes → Bool → Bool

def ScriptCrypto.hash160 (crypto : ScriptCrypto) (vch : Bytes) : Bytes :=
    crypto.ripemd160 (crypto.sha256 vch)
def ScriptCrypto.hash256 (crypto : ScriptCrypto) (vch : Bytes) : Bytes :=
    crypto.sha256 (crypto.sha256 vch)

/-- The implied stack of IF branches: its size and the position of its first false value. -/
structure ConditionStack where
  stackSize : Nat := 0
  firstFalsePos : Option Nat := none
deriving Repr, DecidableEq

namespace ConditionStack
variable (vfExec : ConditionStack)

def empty : Bool := vfExec.stackSize == 0
def allTrue : Bool := vfExec.firstFalsePos.isNone
def pushBack (f : Bool) : ConditionStack where
  stackSize := vfExec.stackSize+1
  firstFalsePos := if vfExec.firstFalsePos=none ∧ f=false then some vfExec.stackSize
    else vfExec.firstFalsePos

def popBack : ScriptResult ConditionStack :=
  if vfExec.stackSize=0 then .error .asserts
  else .ok {
    stackSize := vfExec.stackSize-1
    firstFalsePos := if vfExec.firstFalsePos=some (vfExec.stackSize-1) then none
      else vfExec.firstFalsePos}

def toggleTop : ScriptResult ConditionStack :=
  if vfExec.stackSize=0 then .error .asserts
  else .ok {vfExec with
    firstFalsePos := if vfExec.firstFalsePos=none then some (vfExec.stackSize-1)
      else if vfExec.firstFalsePos=some (vfExec.stackSize-1) then none
      else vfExec.firstFalsePos}
end ConditionStack

inductive StackOp where
  | drop2 | dup2 | dup3 | over2 | rot2 | swap2 | ifDup | depth | drop | dup | nip | over | rot | swap
  | tuck | size
deriving Repr, DecidableEq

inductive UnaryOp where
  | add1 | sub1 | negate | abs | not | notEqual0
deriving Repr, DecidableEq

inductive BinaryOp where
  | add | sub | boolAnd | boolOr | numEqual | numEqualVerify | numNotEqual | lessThan | greaterThan
  | lessThanOrEqual | greaterThanOrEqual | min | max
deriving Repr, DecidableEq

inductive HashOp where
  | ripemd160 | sha1 | sha256 | hash160 | hash256
deriving Repr, DecidableEq

/-- The cases of the switch in EvalScript. A flag tells the verifying form of an opcode, OP_ROLL
from OP_PICK and OP_NOTIF from OP_IF. -/
inductive Op where
  | pushNum (n : Int)
  | nop
  | checkLockTimeVerify
  | checkSequenceVerify
  | upgradableNop
  | opIf (notIf : Bool)
  | opElse
  | opEndIf
  | verify
  | opReturn
  | toAltStack
  | fromAltStack
  | stack (op : StackOp)
  | pick (roll : Bool)
  | equal (verify : Bool)
  | unary (op : UnaryOp)
  | binary (op : BinaryOp)
  | within
  | hash (op : HashOp)
  | codeSeparator
  | checkSig (verify : Bool)
  | checkSigAdd
  | checkMultisig (verify : Bool)
  | bad
deriving Repr, DecidableEq

/- The case of the switch an opcode above OP_PUSHDATA4 goes to; the others are the default. -/
def decodeOp (opcode : Nat) : Op :=
  if opcode=0x4f ∨ OP_1≤opcode ∧ opcode≤OP_16 then .pushNum ((opcode : Int)-(OP_1-1))
  else if opcode=0xb0 ∨ 0xb3≤opcode ∧ opcode≤0xb9 then .upgradableNop
  else match opcode with
    | 0x61 => .nop
    | 0x63 => .opIf false
    | 0x64 => .opIf true
    | 0x67 => .opElse
    | 0x68 => .opEndIf
    | 0x69 => .verify
    | 0x6a => .opReturn
    | 0x6b => .toAltStack
    | 0x6c => .fromAltStack
    | 0x6d => .stack .drop2
    | 0x6e => .stack .dup2
    | 0x6f => .stack .dup3
    | 0x70 => .stack .over2
    | 0x71 => .stack .rot2
    | 0x72 => .stack .swap2
    | 0x73 => .stack .ifDup
    | 0x74 => .stack .depth
    | 0x75 => .stack .drop
    | 0x76 => .stack .dup
    | 0x77 => .stack .nip
    | 0x78 => .stack .over
    | 0x79 => .pick false
    | 0x7a => .pick true
    | 0x7b => .stack .rot
    | 0x7c => .stack .swap
    | 0x7d => .stack .tuck
    | 0x82 => .stack .size
    | 0x87 => .equal false
    | 0x88 => .equal true
    | 0x8b => .unary .add1
    | 0x8c => .unary .sub1
    | 0x8f => .unary .negate
    | 0x90 => .unary .abs
    | 0x91 => .unary .not
    | 0x92 => .unary .notEqual0
    | 0x93 => .binary .add
    | 0x94 => .binary .sub
    | 0x9a => .binary .boolAnd
    | 0x9b => .binary .boolOr
    | 0x9c => .binary .numEqual
    | 0x9d => .binary .numEqualVerify
    | 0x9e => .binary .numNotEqual
    | 0x9f => .binary .lessThan
    | 0xa0 => .binary .greaterThan
    | 0xa1 => .binary .lessThanOrEqual
    | 0xa2 => .binary .greaterThanOrEqual
    | 0xa3 => .binary .min
    | 0xa4 => .binary .max
    | 0xa5 => .within
    | 0xa6 => .hash .ripemd160
    | 0xa7 => .hash .sha1
    | 0xa8 => .hash .sha256
    | 0xa9 => .hash .hash160
    | 0xaa => .hash .hash256
    | 0xab => .codeSeparator
    | 0xac => .checkSig false
    | 0xad => .checkSig true
    | 0xae => .checkMultisig false
    | 0xaf => .checkMultisig true
    | 0xb1 => .checkLockTimeVerify
    | 0xb2 => .checkSequenceVerify
    | 0xba => .checkSigAdd
    | _ => .bad

/- OP_CAT, OP_SUBSTR, OP_LEFT, OP_RIGHT, OP_INVERT, OP_AND, OP_OR, OP_XOR, OP_2MUL, OP_2DIV,
   OP_MUL, OP_DIV, OP_MOD, OP_LSHIFT and OP_RSHIFT. -/
def isDisabledOpcode (opcode : Nat) : Bool :=
  [0x7e,0x7f,0x80,0x81,0x83,0x84,0x85,0x86,0x8d,0x8e,0x95,0x96,0x97,0x98,0x99].contains opcode

def vchFalse : Bytes := []
def vchTrue : Bytes := [1]
def ofBool (b : Bool) : Bytes := if b then vchTrue else vchFalse
def stackError {α : Type} : ScriptResult α := .error (.fails .invalidStackOperation)

/-- The opcodes that only move elements of the stack, or push its depth or an element's size. -/
def stackOp : StackOp → List Bytes → ScriptResult (List Bytes)
  | .drop2, _::_::s => .ok s
  | .dup2, x2::x1::s => .ok (x2::x1::x2::x1::s)
  | .dup3, x3::x2::x1::s => .ok (x3::x2::x1::x3::x2::x1::s)
  | .over2, x4::x3::x2::x1::s => .ok (x2::x1::x4::x3::x2::x1::s)
  | .rot2, x6::x5::x4::x3::x2::x1::s => .ok (x2::x1::x6::x5::x4::x3::s)
  | .swap2, x4::x3::x2::x1::s => .ok (x2::x1::x4::x3::s)
  | .ifDup, x::s => .ok (if castToBool x then x::x::s else x::s)
  | .depth, s => .ok (serializeNum s.length::s)
  | .drop, _::s => .ok s
  | .dup, x::s => .ok (x::x::s)
  | .nip, x2::_::s => .ok (x2::s)
  | .over, x2::x1::s => .ok (x1::x2::x1::s)
  | .rot, x3::x2::x1::s => .ok (x1::x3::x2::s)
  | .swap, x2::x1::s => .ok (x1::x2::s)
  | .tuck, x2::x1::s => .ok (x2::x1::x2::s)
  | .size, x::s => .ok (serializeNum x.length::x::s)
  | _, _ => stackError

def unaryOp (op : UnaryOp) (bn : Int) : Int :=
  match op with
  | .add1 => bn+1
  | .sub1 => bn-1
  | .negate => -bn
  | .abs => if bn<0 then -bn else bn
  | .not => if bn=0 then 1 else 0
  | .notEqual0 => if bn≠0 then 1 else 0

def binaryOp (op : BinaryOp) (bn1 bn2 : Int) : Int :=
  match op with
  | .add => bn1+bn2
  | .sub => bn1-bn2
  | .boolAnd => if bn1≠0 ∧ bn2≠0 then 1 else 0
  | .boolOr => if bn1≠0 ∨ bn2≠0 then 1 else 0
  | .numEqual => if bn1=bn2 then 1 else 0
  | .numEqualVerify => if bn1=bn2 then 1 else 0
  | .numNotEqual => if bn1≠bn2 then 1 else 0
  | .lessThan => if bn1<bn2 then 1 else 0
  | .greaterThan => if bn2<bn1 then 1 else 0
  | .lessThanOrEqual => if bn1≤bn2 then 1 else 0
  | .greaterThanOrEqual => if bn2≤bn1 then 1 else 0
  | .min => if bn1<bn2 then bn1 else bn2
  | .max => if bn2<bn1 then bn1 else bn2

def hashOp (crypto : ScriptCrypto) (op : HashOp) (vch : Bytes) : Bytes :=
  match op with
  | .ripemd160 => crypto.ripemd160 vch
  | .sha1 => crypto.sha1 vch
  | .sha256 => crypto.sha256 vch
  | .hash160 => crypto.hash160 vch
  | .hash256 => crypto.hash256 vch

/- The end of the opcodes with a verifying form: the result is pushed, and then popped again
   or reported. -/
def pushOrVerify (verify fSuccess : Bool) (serror : ScriptError) (stack : List Bytes) :
    ScriptResult (List Bytes) :=
  if verify then
    if fSuccess then .ok stack else .error (.fails serror)
  else .ok (ofBool fSuccess::stack)

/-- The variables of EvalScript that opcodes change. -/
structure EvalState where
  pbegincodehash : Bytes
  stack : List Bytes
  altstack : List Bytes := []
  vfExec : ConditionStack := {}
  nOpCount : Nat := 0
  opcodePos : Nat := 0
  execdata : ScriptExecutionData

section
variable (crypto : ScriptCrypto) (flags : ScriptFlags)

def isLowDERSignature (vchSig : Bytes) : ScriptResult Unit := do
  setErrorIf (!isValidSignatureEncoding vchSig) .sigDer
  setErrorIf (!crypto.checkLowS (vchSig.take (vchSig.length-1))) .sigHighS

def checkSignatureEncoding (vchSig : Bytes) : ScriptResult Unit :=
  if vchSig.length=0 then .ok ()
  else do
    setErrorIf ((flags.has .derSig || flags.has .lowS || flags.has .strictEnc) &&
      !isValidSignatureEncoding vchSig) .sigDer
    (if flags.has .lowS then isLowDERSignature crypto vchSig else .ok ())
    setErrorIf (flags.has .strictEnc && !isDefinedHashtypeSignature vchSig) .sigHashtype

def checkPubKeyEncoding (sigversion : SigVersion) (vchPubKey : Bytes) : ScriptResult Unit := do
  setErrorIf (flags.has .strictEnc && !isCompressedOrUncompressedPubKey vchPubKey) .pubkeyType
  setErrorIf (flags.has .witnessPubkeyType && sigversion ==
      .witnessV0 && !isCompressedPubKey vchPubKey)
    .witnessPubkeyType
end
section
variable (crypto : ScriptCrypto) (checker : SignatureChecker) (flags : ScriptFlags)
    (sigversion : SigVersion)

def dropSignature (scriptCode vchSig : Bytes) : ScriptResult Bytes :=
  if sigversion=.base then do
    let (result,found) := findAndDelete scriptCode (pushData vchSig)
    setErrorIf (decide (0<found) && flags.has .constScriptCode) .sigFindAndDelete
    pure result
  else .ok scriptCode

def evalChecksigPreTapscript (vchSig vchPubKey pbegincodehash : Bytes) : ScriptResult Bool := do
  let scriptCode ← dropSignature flags sigversion pbegincodehash vchSig
  checkSignatureEncoding crypto flags vchSig
  checkPubKeyEncoding flags sigversion vchPubKey
  let fSuccess := checker.checkECDSASignature vchSig vchPubKey scriptCode sigversion
  setErrorIf (!fSuccess && flags.has .nullFail && vchSig.length != 0) .sigNullFail
  pure fSuccess

def VALIDATION_WEIGHT_PER_SIGOP_PASSED : Int := 50

/- The sigops/witnesssize ratio test of a non-empty signature. -/
def spendValidationWeight (execdata : ScriptExecutionData) : ScriptResult ScriptExecutionData :=
  match execdata.validationWeightLeft with
  | none => .error .asserts
  | some left =>
    let left := left-VALIDATION_WEIGHT_PER_SIGOP_PASSED
    if left<0 then .error (.fails .tapscriptValidationWeight)
    else .ok {execdata with validationWeightLeft := some left}

def evalChecksigTapscript (sig pubkey : Bytes) (execdata : ScriptExecutionData) :
    ScriptResult (Bool×ScriptExecutionData) := do
  let success := !sig.isEmpty
  let execdata ← (if success then spendValidationWeight execdata else pure execdata)
  if pubkey.length=0 then .error (.fails .pubkeyType)
  else if pubkey.length=32 then
    if success then do
      let execdata ← checker.checkSchnorrSignature sig pubkey sigversion execdata
      pure (success,execdata)
    else pure (success,execdata)
  else do
    setErrorIf (flags.has .discourageUpgradablePubkeyType) .discourageUpgradablePubkeyType
    pure (success,execdata)

def evalChecksig (sig pubkey pbegincodehash : Bytes) (execdata : ScriptExecutionData) :
    ScriptResult (Bool×ScriptExecutionData) :=
  match sigversion with
  | .base | .witnessV0 => do
    let success ← evalChecksigPreTapscript crypto checker flags sigversion sig pubkey pbegincodehash
    pure (success,execdata)
  | .tapscript => evalChecksigTapscript checker flags sigversion sig pubkey execdata
  | .taproot => .error .asserts

def dropSignatures (scriptCode : Bytes) : List Bytes → ScriptResult Bytes
  | [] => .ok scriptCode
  | vchSig::sigs => do
    let scriptCode ← dropSignature flags sigversion scriptCode vchSig
    dropSignatures scriptCode sigs

/- The loop of CHECKMULTISIG over the signatures and keys that are left. It stops once more
signatures than keys are left, so the keys do not run out first. -/
def matchSignatures (scriptCode : Bytes) : List Bytes → List Bytes → ScriptResult Bool
  | [], _ => .ok true
  | _::_, [] => .ok false
  | vchSig::sigs, vchPubKey::keys => do
    checkSignatureEncoding crypto flags vchSig
    checkPubKeyEncoding flags sigversion vchPubKey
    let left := if checker.checkECDSASignature vchSig vchPubKey scriptCode sigversion then sigs
      else vchSig::sigs
    if keys.length<left.length then .ok false else matchSignatures scriptCode left keys

/- Pops `n` arguments; the ones after the first `ikey2` are signatures. -/
def cleanArguments (fSuccess : Bool) : Nat → Nat → List Bytes → ScriptResult (List Bytes)
  | 0, _, stack => .ok stack
  | _+1, _, [] => .error (.fails .unknownError)
  | n+1, ikey2, top::stack => do
    setErrorIf (!fSuccess && flags.has .nullFail && ikey2 == 0 && top.length != 0) .sigNullFail
    cleanArguments fSuccess n (ikey2-1) stack
end
section
variable (crypto : ScriptCrypto) (checker : SignatureChecker) (flags : ScriptFlags)
    (sigversion : SigVersion)
variable (st : EvalState)

/- CHECKLOCKTIMEVERIFY; without its flag a NOP2. -/
def execCheckLockTimeVerify : ScriptResult EvalState :=
  if flags.has .checkLockTimeVerify then
    match st.stack with
    | [] => stackError
    | top::_ => do
      let nLockTime ← scriptNum (flags.has .minimalData) 5 top
      setErrorIf (decide (nLockTime<0)) .negativeLocktime
      setErrorIf (!checker.checkLockTime nLockTime) .unsatisfiedLocktime
      pure st
  else .ok st

def SEQUENCE_LOCKTIME_DISABLE_BIT : Nat := 31

/- CHECKSEQUENCEVERIFY; without its flag a NOP3. -/
def execCheckSequenceVerify : ScriptResult EvalState :=
  if flags.has .checkSequenceVerify then
    match st.stack with
    | [] => stackError
    | top::_ => do
      let nSequence ← scriptNum (flags.has .minimalData) 5 top
      setErrorIf (decide (nSequence<0)) .negativeLocktime
      if nSequence.toNat.testBit SEQUENCE_LOCKTIME_DISABLE_BIT then pure st
      else do
        setErrorIf (!checker.checkSequence nSequence) .unsatisfiedLocktime
        pure st
  else .ok st

def popCondition (notIf : Bool) (st : EvalState) : ScriptResult (Bool×EvalState) :=
  match st.stack with
  | [] => .error (.fails .unbalancedConditional)
  | vch::stack => do
    let minimal := vch.isEmpty || vch == [1]
    setErrorIf (sigversion == .tapscript && !minimal) .tapscriptMinimalIf
    setErrorIf (sigversion == .witnessV0 && flags.has .minimalIf && !minimal) .minimalIf
    pure (castToBool vch != notIf,{st with stack := stack})

def execIf (notIf : Bool) (st : EvalState) : ScriptResult EvalState := do
  let (fValue,st) ← (if st.vfExec.allTrue then popCondition flags sigversion notIf st
    else pure (false,st))
  pure {st with vfExec := st.vfExec.pushBack fValue}

def execVerify : ScriptResult EvalState :=
  match st.stack with
  | [] => stackError
  | top::stack =>
    if castToBool top then .ok {st with stack := stack} else .error (.fails .verify)

def execPick (roll : Bool) (st : EvalState) : ScriptResult EvalState :=
  match st.stack with
  | top::next::rest => do
    let n ← scriptNum (flags.has .minimalData) 4 top
    let n := getInt n
    let stack := next::rest
    setErrorIf (decide (n<0 ∨ (stack.length : Int)≤n)) .invalidStackOperation
    match stack[n.toNat]? with
    | none => .error (.fails .unknownError)
    | some vch => pure {st with stack := vch::(if roll then stack.eraseIdx n.toNat else stack)}
  | _ => stackError

def execEqual (verify : Bool) (st : EvalState) : ScriptResult EvalState :=
  match st.stack with
  | vch2::vch1::rest => do
    let stack ← pushOrVerify verify (vch1 == vch2) .equalVerify rest
    pure {st with stack := stack}
  | _ => stackError

def execUnary (op : UnaryOp) (st : EvalState) : ScriptResult EvalState :=
  match st.stack with
  | top::rest => do
    let bn ← scriptNum (flags.has .minimalData) 4 top
    pure {st with stack := serializeNum (unaryOp op bn)::rest}
  | _ => stackError

def execBinary (op : BinaryOp) (st : EvalState) : ScriptResult EvalState :=
  match st.stack with
  | second::first::rest => do
    let bn1 ← scriptNum (flags.has .minimalData) 4 first
    let bn2 ← scriptNum (flags.has .minimalData) 4 second
    let result := serializeNum (binaryOp op bn1 bn2)
    if op=.numEqualVerify then
      if castToBool result then pure {st with stack := rest} else .error (.fails .numEqualVerify)
    else pure {st with stack := result::rest}
  | _ => stackError

def execWithin : ScriptResult EvalState :=
  match st.stack with
  | third::second::first::rest => do
    let bn1 ← scriptNum (flags.has .minimalData) 4 first
    let bn2 ← scriptNum (flags.has .minimalData) 4 second
    let bn3 ← scriptNum (flags.has .minimalData) 4 third
    pure {st with stack := ofBool (decide (bn2≤bn1 ∧ bn1<bn3))::rest}
  | _ => stackError

def execHash (op : HashOp) (st : EvalState) : ScriptResult EvalState :=
  match st.stack with
  | vch::rest => .ok {st with stack := hashOp crypto op vch::rest}
  | _ => stackError

def execCheckSig (verify : Bool) (st : EvalState) : ScriptResult EvalState :=
  match st.stack with
  | vchPubKey::vchSig::rest => do
    let (fSuccess,execdata) ←
      evalChecksig crypto checker flags sigversion vchSig vchPubKey st.pbegincodehash st.execdata
    let stack ← pushOrVerify verify fSuccess .checkSigVerify rest
    pure {st with stack := stack, execdata := execdata}
  | _ => stackError

def execCheckSigAdd : ScriptResult EvalState :=
  if sigversion=.base ∨ sigversion=.witnessV0 then .error (.fails .badOpcode)
  else match st.stack with
    | pubkey::num::sig::rest => do
      let num ← scriptNum (flags.has .minimalData) 4 num
      let (success,execdata) ←
        evalChecksig crypto checker flags sigversion sig pubkey st.pbegincodehash st.execdata
      pure {st with stack := serializeNum (num+if success then 1 else 0)::rest, execdata := execdata}
    | _ => stackError

def readCount (stack : List Bytes) (i : Nat) (max : Nat) (serror : ScriptError) :
    ScriptResult Nat :=
  match stack[i]? with
  | none => stackError
  | some vch => do
    let n ← scriptNum (flags.has .minimalData) 4 vch
    let n := getInt n
    setErrorIf (decide (n<0 ∨ (max : Int)<n)) serror
    pure n.toNat

/- Removes the element below the arguments, which CHECKMULTISIG consumes by mistake. -/
def popDummy (stack : List Bytes) : ScriptResult (List Bytes) :=
  match stack with
  | [] => stackError
  | dummy::stack => do
    setErrorIf (flags.has .nullDummy && dummy.length != 0) .sigNullDummy
    pure stack

def execCheckMultisig (verify : Bool) (st : EvalState) : ScriptResult EvalState := do
  setErrorIf (sigversion == .tapscript) .tapscriptCheckMultisig
  let nKeysCount ← readCount flags st.stack 0 MAX_PUBKEYS_PER_MULTISIG .pubkeyCount
  let nOpCount := st.nOpCount+nKeysCount
  setErrorIf (decide (MAX_OPS_PER_SCRIPT<nOpCount)) .opCount
  let nSigsCount ← readCount flags st.stack (nKeysCount+1) nKeysCount .sigCount
  setErrorIf (decide (st.stack.length<nKeysCount+nSigsCount+3)) .invalidStackOperation
  let keys := (st.stack.drop 1).take nKeysCount
  let sigs := (st.stack.drop (nKeysCount+2)).take nSigsCount
  let scriptCode ← dropSignatures flags sigversion st.pbegincodehash sigs
  let fSuccess ← matchSignatures crypto checker flags sigversion scriptCode sigs keys
  let stack ← cleanArguments flags fSuccess (nKeysCount+nSigsCount+2) (nKeysCount+2) st.stack
  let stack ← popDummy flags stack
  let stack ← pushOrVerify verify fSuccess .checkMultisigVerify stack
  pure {st with stack := stack, nOpCount := nOpCount}

/-- The switch of EvalScript; `pc` is the script after the opcode. -/
def execOp (op : Op) (pc : Bytes) (st : EvalState) : ScriptResult EvalState :=
  match op with
  | .pushNum n => .ok {st with stack := serializeNum n::st.stack}
  | .nop => .ok st
  | .checkLockTimeVerify => execCheckLockTimeVerify checker flags st
  | .checkSequenceVerify => execCheckSequenceVerify checker flags st
  | .upgradableNop => do
    setErrorIf (flags.has .discourageUpgradableNops) .discourageUpgradableNops
    pure st
  | .opIf notIf => execIf flags sigversion notIf st
  | .opElse => do
    setErrorIf st.vfExec.empty .unbalancedConditional
    let vfExec ← st.vfExec.toggleTop
    pure {st with vfExec := vfExec}
  | .opEndIf => do
    setErrorIf st.vfExec.empty .unbalancedConditional
    let vfExec ← st.vfExec.popBack
    pure {st with vfExec := vfExec}
  | .verify => execVerify st
  | .opReturn => .error (.fails .opReturn)
  | .toAltStack =>
    match st.stack with
    | [] => stackError
    | top::stack => .ok {st with stack := stack, altstack := top::st.altstack}
  | .fromAltStack =>
    match st.altstack with
    | [] => .error (.fails .invalidAltstackOperation)
    | top::altstack => .ok {st with stack := top::st.stack, altstack := altstack}
  | .stack op => do
    let stack ← stackOp op st.stack
    pure {st with stack := stack}
  | .pick roll => execPick flags roll st
  | .equal verify => execEqual verify st
  | .unary op => execUnary flags op st
  | .binary op => execBinary flags op st
  | .within => execWithin flags st
  | .hash op => execHash crypto op st
  | .codeSeparator =>
    .ok {st with
      pbegincodehash := pc
      execdata := {st.execdata with codeseparatorPos := some st.opcodePos}}
  | .checkSig verify => execCheckSig crypto checker flags sigversion verify st
  | .checkSigAdd => execCheckSigAdd crypto checker flags sigversion st
  | .checkMultisig verify => execCheckMultisig crypto checker flags sigversion verify st
  | .bad => .error (.fails .badOpcode)
end
section
variable (crypto : ScriptCrypto) (checker : SignatureChecker) (flags : ScriptFlags)

/- The opcode count of scripts before tapscript; OP_RESERVED is below the limit. -/
def countOp (sigversion : SigVersion) (opcode : Nat) (st : EvalState) : ScriptResult EvalState :=
  if (sigversion=.base ∨ sigversion=.witnessV0) ∧ OP_16<opcode then do
    setErrorIf (decide (MAX_OPS_PER_SCRIPT < st.nOpCount+1)) .opCount
    pure {st with nOpCount := st.nOpCount+1}
  else .ok st

def execInstruction (sigversion : SigVersion) (opcode : Nat) (vchPushValue pc : Bytes)
    (st : EvalState) :
    ScriptResult EvalState :=
  if st.vfExec.allTrue ∧ opcode≤OP_PUSHDATA4 then do
    setErrorIf (flags.has .minimalData && !checkMinimalPush vchPushValue opcode) .minimalData
    pure {st with stack := vchPushValue::st.stack}
  else if st.vfExec.allTrue ∨ OP_IF≤opcode ∧ opcode≤OP_ENDIF then
    execOp crypto checker flags sigversion (decodeOp opcode) pc st
  else .ok st

/-- One turn of the loop of EvalScript, after the instruction has been read. -/
def evalStep (sigversion : SigVersion) (opcode : Nat) (vchPushValue pc : Bytes) (st : EvalState) :
    ScriptResult EvalState := do
  setErrorIf (decide (MAX_SCRIPT_ELEMENT_SIZE<vchPushValue.length)) .pushSize
  let st ← countOp sigversion opcode st
  setErrorIf (isDisabledOpcode opcode) .disabledOpcode
  setErrorIf (opcode == OP_CODESEPARATOR && sigversion == .base && flags.has .constScriptCode)
    .opCodeSeparator
  let st ← execInstruction crypto checker flags sigversion opcode vchPushValue pc st
  setErrorIf (decide (MAX_STACK_SIZE < st.stack.length+st.altstack.length)) .stackSize
  pure {st with opcodePos := st.opcodePos+1}

def evalLoop (sigversion : SigVersion) (pc : Bytes) (st : EvalState) : ScriptResult EvalState :=
  if pc=[] then .ok st
  else
    match _h : getScriptOp pc with
    | none => .error (.fails .badOpcode)
    | some (opcode,vchPushValue,rest) => do
      let st ← evalStep crypto checker flags sigversion opcode vchPushValue rest st
      evalLoop sigversion rest st
termination_by pc.length
decreasing_by exact getScriptOp_length _h

@[simp] lemma evalLoop_nil (sigversion : SigVersion) (st : EvalState) :
    evalLoop crypto checker flags sigversion [] st=.ok st := by
  rw [evalLoop,if_pos rfl]

lemma evalLoop_none {pc : Bytes} (hp : pc≠[]) (h : getScriptOp pc=none) (sigversion : SigVersion)
    (st : EvalState) : evalLoop crypto checker flags sigversion pc st=.error
    (.fails .badOpcode) := by
  rw [evalLoop,if_neg hp]
  split <;> simp_all

lemma evalLoop_some {pc d r : Bytes} {opcode : Nat}
    (h : getScriptOp pc=some (opcode,d,r)) (sigversion : SigVersion) (st : EvalState) :
    evalLoop crypto checker flags sigversion pc st=
      (evalStep crypto checker flags sigversion opcode d r st >>=
        evalLoop crypto checker flags sigversion r) := by
  rw [evalLoop,if_neg (ne_nil_of_getScriptOp h)]
  split <;> simp_all

def evalScript (stack : List Bytes) (script : Bytes) (sigversion : SigVersion)
    (execdata : ScriptExecutionData) : ScriptResult (List Bytes) := do
  rejectIf (sigversion == .taproot) .asserts
  setErrorIf ((sigversion == .base || sigversion == .witnessV0) && decide (MAX_SCRIPT_SIZE <
      script.length))
    .scriptSize
  let st ← evalLoop crypto checker flags sigversion script
    {pbegincodehash := script, stack := stack, execdata := {execdata with codeseparatorPos := some 0xFFFFFFFF}}
  setErrorIf (!st.vfExec.empty) .unbalancedConditional
  pure st.stack

/- The scan for OP_SUCCESSx, which ends the script before anything is executed: whether one was
   found. -/
def findOpSuccess (pc : Bytes) : ScriptResult Bool :=
  if pc=[] then .ok false
  else
    match _h : getScriptOp pc with
    | none => .error (.fails .badOpcode)
    | some (opcode,_,rest) =>
      if isOpSuccess opcode then do
        setErrorIf (flags.has .discourageOpSuccess) .discourageOpSuccess
        pure true
      else findOpSuccess rest
termination_by pc.length
decreasing_by exact getScriptOp_length _h

@[simp] lemma findOpSuccess_nil : findOpSuccess flags []=.ok false := by
  rw [findOpSuccess,if_pos rfl]

lemma findOpSuccess_none {pc : Bytes} (hp : pc≠[]) (h : getScriptOp pc=none) :
    findOpSuccess flags pc=.error (.fails .badOpcode) := by
  rw [findOpSuccess,if_neg hp]
  split <;> simp_all

lemma findOpSuccess_some {pc d r : Bytes} {opcode : Nat} (h : getScriptOp pc=some (opcode,d,r)) :
    findOpSuccess flags pc=if isOpSuccess opcode then (do
        setErrorIf (flags.has .discourageOpSuccess) .discourageOpSuccess
        pure true)
      else findOpSuccess flags r := by
  rw [findOpSuccess,if_neg (ne_nil_of_getScriptOp h)]
  split <;> simp_all

def requireTrueTop (stack : List Bytes) : ScriptResult Unit :=
  match stack with
  | [] => .error (.fails .evalFalse)
  | top::_ => setErrorIf (!castToBool top) .evalFalse

def runWitnessScript (stack : List Bytes) (execScript : Bytes) (sigversion : SigVersion)
    (execdata : ScriptExecutionData) : ScriptResult Unit := do
  setErrorIf (stack.any (fun elem => decide (MAX_SCRIPT_ELEMENT_SIZE<elem.length))) .pushSize
  let stack ← evalScript crypto checker flags stack execScript sigversion execdata
  setErrorIf (stack.length != 1) .cleanStack
  requireTrueTop stack

def executeWitnessScript (stack : List Bytes) (execScript : Bytes) (sigversion : SigVersion)
    (execdata : ScriptExecutionData) : ScriptResult Unit :=
  if sigversion=.tapscript then do
    let success ← findOpSuccess flags execScript
    if success then pure ()
    else do
      setErrorIf (decide (MAX_STACK_SIZE < stack.length)) .stackSize
      runWitnessScript crypto checker flags stack execScript sigversion execdata
  else runWitnessScript crypto checker flags stack execScript sigversion execdata
end

def writeCompactSize (n : Nat) : Bytes :=
  if n<253 then writeLE 1 n
  else if n≤0xffff then 253::writeLE 2 n
  else if n≤0xffffffff then 254::writeLE 4 n
  else 255::writeLE 8 n

section
variable (crypto : ScriptCrypto)

def TAPROOT_CONTROL_BASE_SIZE : Nat := 33
def TAPROOT_CONTROL_NODE_SIZE : Nat := 32
def TAPROOT_CONTROL_MAX_SIZE : Nat := 33+32*128
def TAPROOT_LEAF_TAPSCRIPT : Nat := 0xc0
def ANNEX_TAG : UInt8 := 0x50
def VALIDATION_WEIGHT_OFFSET : Int := 50
def computeTapleafHash (leafVersion : UInt8) (script : Bytes) : Bytes :=
  crypto.taggedSHA256 "TapLeaf" (leafVersion::(writeCompactSize script.length++script))

def computeTapbranchHash (a b : Bytes) : Bytes :=
  if a<b then crypto.taggedSHA256 "TapBranch" (a++b) else crypto.taggedSHA256 "TapBranch" (b++a)

def foldTapPath : Nat → Bytes → Bytes → Bytes
  | 0, _, k => k
  | n+1, path, k =>
    foldTapPath n (path.drop TAPROOT_CONTROL_NODE_SIZE)
      (computeTapbranchHash crypto k (path.take TAPROOT_CONTROL_NODE_SIZE))

def computeTaprootMerkleRoot (control tapleafHash : Bytes) : ScriptResult Bytes := do
  rejectIf (decide (control.length<TAPROOT_CONTROL_BASE_SIZE)) .asserts
  rejectIf (decide (TAPROOT_CONTROL_MAX_SIZE < control.length)) .asserts
  rejectIf ((control.length-TAPROOT_CONTROL_BASE_SIZE)%TAPROOT_CONTROL_NODE_SIZE != 0) .asserts
  pure (foldTapPath crypto ((control.length-TAPROOT_CONTROL_BASE_SIZE)/TAPROOT_CONTROL_NODE_SIZE)
    (control.drop TAPROOT_CONTROL_BASE_SIZE) tapleafHash)

def verifyTaprootCommitment (control program tapleafHash : Bytes) : ScriptResult Bool := do
  rejectIf (decide (control.length<TAPROOT_CONTROL_BASE_SIZE)) .asserts
  rejectIf (decide (program.length<32)) .asserts
  let merkleRoot ← computeTaprootMerkleRoot crypto control tapleafHash
  pure (crypto.checkTapTweak program ((control.drop 1).take
      (TAPROOT_CONTROL_BASE_SIZE-1)) merkleRoot
    (byteAt control 0%2 == 1))
end

def witnessSerializeSize (stack : List Bytes) : Nat :=
  getSizeOfCompactSize stack.length+(stack.map scriptSerializeSize).sum

/- The annex, when the witness has one, and the rest of the stack. -/
def splitAnnex (stack : List Bytes) : Option Bytes×List Bytes :=
  match stack with
  | top::next::rest =>
    if top.head? = some ANNEX_TAG then (some top,next::rest) else (none,top::next::rest)
  | _ => (none,stack)

section
variable (crypto : ScriptCrypto) (checker : SignatureChecker) (flags : ScriptFlags)
variable (witness : List Bytes)

/- Script path spending: the leaf, and what its version allows. -/
def verifyTapLeaf (stack : List Bytes) (control script program : Bytes)
    (execdata : ScriptExecutionData) : ScriptResult Unit := do
  setErrorIf (decide (control.length<TAPROOT_CONTROL_BASE_SIZE ∨
      TAPROOT_CONTROL_MAX_SIZE < control.length ∨
    (control.length-TAPROOT_CONTROL_BASE_SIZE)%TAPROOT_CONTROL_NODE_SIZE≠0))
        .taprootWrongControlSize
  let leafVersion := control.headD 0 &&& 0xfe
  let tapleafHash := computeTapleafHash crypto leafVersion script
  let committed ← verifyTaprootCommitment crypto control program tapleafHash
  setErrorIf (!committed) .witnessProgramMismatch
  if leafVersion.toNat=TAPROOT_LEAF_TAPSCRIPT then
    executeWitnessScript crypto checker flags stack script .tapscript {execdata with
      tapleafHash := some tapleafHash
      validationWeightLeft := some (witnessSerializeSize witness+VALIDATION_WEIGHT_OFFSET)}
  else setErrorIf (flags.has .discourageUpgradableTaprootVersion)
         .discourageUpgradableTaprootVersion

def verifyTaproot (program : Bytes) : ScriptResult Unit :=
  if flags.has .taproot then do
    setErrorIf witness.isEmpty .witnessProgramWitnessEmpty
    let (annex,stack) := splitAnnex witness.reverse
    let annexHash := annex.map (fun a => crypto.sha256 (writeCompactSize a.length++a))
    let execdata : ScriptExecutionData := {annexHash := some annexHash}
    match stack with
    | [] => .error .asserts
    | [sig] => do
      let _ ← checker.checkSchnorrSignature sig program .taproot execdata
      pure ()
    | control::script::stack =>
      verifyTapLeaf crypto checker flags witness stack control script program execdata
  else .ok ()

def verifyWitnessV0 (program : Bytes) : ScriptResult Unit :=
  if program.length=32 then
    match witness.reverse with
    | [] => .error (.fails .witnessProgramWitnessEmpty)
    | scriptBytes::stack => do
      setErrorIf (crypto.sha256 scriptBytes != program) .witnessProgramMismatch
      executeWitnessScript crypto checker flags stack scriptBytes .witnessV0 {}
  else if program.length=20 then do
    setErrorIf (witness.length != 2) .witnessProgramMismatch
    executeWitnessScript crypto checker flags witness.reverse
      (0x76::0xa9::(pushData program++[0x88,0xac])) .witnessV0 {}
  else .error (.fails .witnessProgramWrongLength)

def verifyWitnessProgram (witversion : Nat) (program : Bytes) (isP2SH : Bool) : ScriptResult Unit :=
  if witversion=0 then verifyWitnessV0 crypto checker flags witness program
  else if witversion=1 ∧ program.length=32 ∧ isP2SH=false then
    verifyTaproot crypto checker flags witness program
  else setErrorIf (flags.has .discourageUpgradableWitnessProgram)
         .discourageUpgradableWitnessProgram

/- The witness program in `script`, when there is one: `malleated` says that the scriptSig is not
   exactly what it has to be. Afterwards the stack counts as clean. -/
def verifyWitness (script : Bytes) (malleated : Bool) (serror : ScriptError)
    (isP2SH : Bool) (stack : List Bytes) : ScriptResult (Bool×List Bytes) :=
  match isWitnessProgram script with
  | none => .ok (false,stack)
  | some (witnessversion,witnessprogram) => do
    setErrorIf malleated serror
    verifyWitnessProgram crypto checker flags witness witnessversion witnessprogram isP2SH
    -- stack.resize(1) keeps the bottom element.
    pure (true,stack.drop (stack.length-1))

/- The evaluation of the redeem script, from the stack the scriptSig left. -/
def verifyP2SH (scriptSig : Bytes) (witness : List Bytes) (hadWitness : Bool)
    (stackCopy : List Bytes) :
    ScriptResult (Bool×List Bytes) := do
  setErrorIf (!isPushOnly scriptSig) .sigPushOnly
  match stackCopy with
  | [] => .error .asserts
  | pubKey2::stack => do
    let stack ← evalScript crypto checker flags stack pubKey2 .base {}
    requireTrueTop stack
    if flags.has .witness then do
      let (found,stack) ← verifyWitness crypto checker flags witness pubKey2
          (scriptSig != pushData pubKey2)
        .witnessMalleatedP2SH true stack
      pure (hadWitness || found,stack)
    else pure (hadWitness,stack)

def finalChecks (hadWitness : Bool) (stack : List Bytes) : ScriptResult Unit := do
  (if flags.has .cleanStack then do
    rejectIf (!flags.has .p2sh) .asserts
    rejectIf (!flags.has .witness) .asserts
    setErrorIf (stack.length != 1) .cleanStack
  else .ok ())
  (if flags.has .witness then do
    rejectIf (!flags.has .p2sh) .asserts
    setErrorIf (!hadWitness && !witness.isEmpty) .witnessUnexpected
  else .ok ())

/-- VerifyScript. A missing witness is the empty one. -/
def verifyScript (scriptSig scriptPubKey : Bytes) (witness : List Bytes) : ScriptResult Unit := do
  setErrorIf (flags.has .sigPushOnly && !isPushOnly scriptSig) .sigPushOnly
  let stackCopy ← evalScript crypto checker flags [] scriptSig .base {}
  let stack ← evalScript crypto checker flags stackCopy scriptPubKey .base {}
  requireTrueTop stack
  let (hadWitness,stack) ← (if flags.has .witness then
      verifyWitness crypto checker flags witness scriptPubKey (!scriptSig.isEmpty) .witnessMalleated
        false stack
    else pure (false,stack))
  let (hadWitness,stack) ← (if flags.has .p2sh && isPayToScriptHash scriptPubKey then
      verifyP2SH crypto checker flags scriptSig witness hadWitness stackCopy
    else pure (hadWitness,stack))
  finalChecks flags witness hadWitness stack
end
end Xero
