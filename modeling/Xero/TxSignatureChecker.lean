import Xero.InterpreterCode

/-! The signature checker of an input: the signature hashes of old scripts, BIP143 and BIP341 with
the data they share, and the checks of signatures and lock times. A read beyond the end of a vector
counts as a crash, like a failed assert. -/
namespace Xero
open Library

def SIGHASH_DEFAULT : Nat := 0
def SIGHASH_ALL : Nat := 1
def SIGHASH_NONE : Nat := 2
def SIGHASH_SINGLE : Nat := 3
def SIGHASH_ANYONECANPAY : Nat := 0x80
def SIGHASH_OUTPUT_MASK : Nat := 3
def SIGHASH_INPUT_MASK : Nat := 0x80

def vectorAt {α : Type} (v : List α) (i : Nat) : ScriptResult α :=
  match v[i]? with
  | some a => .ok a
  | none => .error .asserts
def writeInt (n : Nat) (value : Int) : Bytes := writeLE n (value%2^(8*n)).toNat
def serializeOutPoint (prevout : OutPoint) : Bytes := writeLE 32 prevout.hash++writeLE 4 prevout.n
def serializeScript (script : Bytes) : Bytes := writeCompactSize script.length++script
def serializeTxOut (out : TxOut) : Bytes := writeInt 8 out.nValue++serializeScript out.scriptPubKey

section
variable (tx : Transaction) (scriptCode : Bytes) (nIn nHashType : Nat)

def fAnyoneCanPay : Bool := nHashType &&& SIGHASH_ANYONECANPAY != 0
def fHashSingle : Bool := nHashType &&& 0x1f == SIGHASH_SINGLE
def fHashNone : Bool := nHashType &&& 0x1f == SIGHASH_NONE

def countCodeSeparators (pc : Bytes) : Nat :=
  match h : getScriptOp pc with
  | none => 0
  | some (opcode,_,rest) => (if opcode=OP_CODESEPARATOR then 1 else 0)+countCodeSeparators rest
termination_by pc.length
decreasing_by exact getScriptOp_length h

/- Where a GetOp that fails leaves its iterator: after the opcode and the size it has read. -/
def afterFailedOp : Bytes → Bytes
  | [] => []
  | b::pc =>
    let opcode := b.toNat
    if opcode<OP_PUSHDATA1 then pc
    else if opcode=OP_PUSHDATA1 then pc.drop 1
    else if opcode=OP_PUSHDATA2 then if pc.length<2 then pc else pc.drop 2
    else if pc.length<4 then pc else pc.drop 4

/- The second loop of SerializeScriptCode: `itBegin` is the part that has not been written. -/
def writeBetweenSeparators (itBegin pc : Bytes) : Bytes :=
  match _h : getScriptOp pc with
  | none => itBegin.take (itBegin.length-(afterFailedOp pc).length)
  | some (opcode,_,rest) =>
    if opcode=OP_CODESEPARATOR then
      itBegin.take (itBegin.length-rest.length-1)++writeBetweenSeparators rest rest
    else writeBetweenSeparators itBegin rest
termination_by pc.length
decreasing_by all_goals exact getScriptOp_length _h

/-- The script code without its OP_CODESEPARATORs. -/
def serializeScriptCode : Bytes :=
  writeCompactSize (scriptCode.length-countCodeSeparators scriptCode)++
    writeBetweenSeparators scriptCode scriptCode

def serializeInput (nInput : Nat) : ScriptResult Bytes := do
  let nInput := if fAnyoneCanPay nHashType then nIn else nInput
  let txin ← vectorAt tx.vin nInput
  let script := if nInput≠nIn then serializeScript [] else serializeScriptCode scriptCode
  let nSequence := if nInput≠nIn ∧ (fHashSingle nHashType || fHashNone nHashType) then 0
    else txin.nSequence
  pure (serializeOutPoint txin.prevout++script++writeLE 4 nSequence)

def serializeOutput (nOutput : Nat) : ScriptResult Bytes :=
  if fHashSingle nHashType ∧ nOutput≠nIn then .ok (serializeTxOut TxOut.null)
  else do
    let out ← vectorAt tx.vout nOutput
    pure (serializeTxOut out)

def serializeEach (serialize : Nat → ScriptResult Bytes) : Nat → ScriptResult Bytes
  | 0 => .ok []
  | n+1 => do
    let bytes ← serializeEach serialize n
    let last ← serialize n
    pure (bytes++last)

def serializeForSignature : ScriptResult Bytes := do
  let nInputs := if fAnyoneCanPay nHashType then 1 else tx.vin.length
  let inputs ← serializeEach (serializeInput tx scriptCode nIn nHashType) nInputs
  let nOutputs := if fHashNone nHashType then 0 else if fHashSingle nHashType then nIn+1
      else tx.vout.length
  let outputs ← serializeEach (serializeOutput tx nIn nHashType) nOutputs
  pure (writeInt 4 tx.nVersion++writeCompactSize nInputs++inputs++
    writeCompactSize nOutputs++outputs++writeLE 4 tx.nLockTime)
end

def getPrevoutsSHA256 (crypto : ScriptCrypto) (tx : Transaction) : Bytes :=
  crypto.sha256 (tx.vin.map fun txin => serializeOutPoint txin.prevout).flatten
def getSequencesSHA256 (crypto : ScriptCrypto) (tx : Transaction) : Bytes :=
  crypto.sha256 (tx.vin.map fun txin => writeLE 4 txin.nSequence).flatten
def getOutputsSHA256 (crypto : ScriptCrypto) (tx : Transaction) : Bytes :=
  crypto.sha256 (tx.vout.map serializeTxOut).flatten
def getSpentAmountsSHA256 (crypto : ScriptCrypto) (spent : List TxOut) : Bytes :=
  crypto.sha256 (spent.map fun out => writeInt 8 out.nValue).flatten
def getSpentScriptsSHA256 (crypto : ScriptCrypto) (spent : List TxOut) : Bytes :=
  crypto.sha256 (spent.map fun out => serializeScript out.scriptPubKey).flatten

def nullHash : Bytes := writeLE 32 0

structure PrecomputedTransactionData where
  prevoutsSingleHash : Bytes := nullHash
  sequencesSingleHash : Bytes := nullHash
  outputsSingleHash : Bytes := nullHash
  spentAmountsSingleHash : Bytes := nullHash
  spentScriptsSingleHash : Bytes := nullHash
  bip341TaprootReady : Bool := false
  hashPrevouts : Bytes := nullHash
  hashSequence : Bytes := nullHash
  hashOutputs : Bytes := nullHash
  bip143SegwitReady : Bool := false
  spentOutputs : List TxOut := []
  spentOutputsReady : Bool := false
deriving Repr, DecidableEq

def WITNESS_V1_TAPROOT_SIZE : Nat := 32

/- The loop over the inputs that looks for spends of BIP143 and of BIP341; `uses` is what was found
so far. -/
def scanFeatures (spentOutputsReady : Bool) : List TxIn → List TxOut → Bool×Bool → Bool×Bool
  | [], _, uses => uses
  | txin::vin, spent, (usesSegwit,usesTaproot) =>
    if usesSegwit && usesTaproot then (usesSegwit,usesTaproot)
    else if txin.scriptWitness.isEmpty then
      scanFeatures spentOutputsReady vin spent.tail (usesSegwit,usesTaproot)
    else
      let script := (spent.headD TxOut.null).scriptPubKey
      if spentOutputsReady && script.length ==
          2+WITNESS_V1_TAPROOT_SIZE && byteAt script 0 == OP_1 then
        scanFeatures spentOutputsReady vin spent.tail (usesSegwit,true)
      else scanFeatures spentOutputsReady vin spent.tail (true,usesTaproot)

def PrecomputedTransactionData.init (crypto : ScriptCrypto) (txdata : PrecomputedTransactionData)
    (txTo : Transaction) (spentOutputs : List TxOut) (force : Bool) :
    ScriptResult PrecomputedTransactionData := do
  rejectIf txdata.spentOutputsReady .asserts
  rejectIf (!spentOutputs.isEmpty && spentOutputs.length != txTo.vin.length) .asserts
  let ready := !spentOutputs.isEmpty
  let uses := scanFeatures ready txTo.vin spentOutputs (force,force)
  let txdata := {txdata with spentOutputs := spentOutputs, spentOutputsReady := ready}
  let txdata := if uses.1 || uses.2 then {txdata with
      prevoutsSingleHash := getPrevoutsSHA256 crypto txTo
      sequencesSingleHash := getSequencesSHA256 crypto txTo
      outputsSingleHash := getOutputsSHA256 crypto txTo}
    else txdata
  let txdata := if uses.1 then {txdata with
      hashPrevouts := crypto.sha256 txdata.prevoutsSingleHash
      hashSequence := crypto.sha256 txdata.sequencesSingleHash
      hashOutputs := crypto.sha256 txdata.outputsSingleHash
      bip143SegwitReady := true}
    else txdata
  pure (if uses.2 && ready then {txdata with
      spentAmountsSingleHash := getSpentAmountsSHA256 crypto spentOutputs
      spentScriptsSingleHash := getSpentScriptsSHA256 crypto spentOutputs
      bip341TaprootReady := true}
    else txdata)

inductive MissingDataBehavior where
  | assertFail
  | fail
deriving Repr, DecidableEq

def handleMissingData : MissingDataBehavior → ScriptResult Bool
  | .assertFail => .error .asserts
  | .fail => .ok false

section
variable (crypto : ScriptCrypto) (tx : Transaction)

/- The hashes of BIP143 that cover more than the input itself. -/
def segwitHashPrevouts (nHashType : Nat) (cache : PrecomputedTransactionData) : Bytes :=
  if fAnyoneCanPay nHashType then nullHash
  else if cache.bip143SegwitReady then cache.hashPrevouts
      else crypto.sha256 (getPrevoutsSHA256 crypto tx)

def segwitHashSequence (nHashType : Nat) (cache : PrecomputedTransactionData) : Bytes :=
  if fAnyoneCanPay nHashType || fHashSingle nHashType || fHashNone nHashType then nullHash
  else if cache.bip143SegwitReady then cache.hashSequence
      else crypto.sha256 (getSequencesSHA256 crypto tx)

def segwitHashOutputs (nIn nHashType : Nat) (cache : PrecomputedTransactionData) :
    ScriptResult Bytes :=
  if !fHashSingle nHashType && !fHashNone nHashType then
    .ok (if cache.bip143SegwitReady then cache.hashOutputs
        else crypto.sha256 (getOutputsSHA256 crypto tx))
  else if fHashSingle nHashType ∧ nIn<tx.vout.length then do
    let out ← vectorAt tx.vout nIn
    pure (crypto.hash256 (serializeTxOut out))
  else .ok nullHash

def signatureHash (scriptCode : Bytes) (tx : Transaction) (nIn nHashType : Nat) (amount : Int)
    (sigversion : SigVersion) (cache : PrecomputedTransactionData) : ScriptResult Bytes := do
  rejectIf (decide (tx.vin.length≤nIn)) .asserts
  if sigversion=.witnessV0 then do
    let hashOutputs ← segwitHashOutputs crypto tx nIn nHashType cache
    let txin ← vectorAt tx.vin nIn
    pure (crypto.hash256 (writeInt 4 tx.nVersion++segwitHashPrevouts crypto tx nHashType cache++
      segwitHashSequence crypto tx nHashType cache++serializeOutPoint txin.prevout++
      serializeScript scriptCode++writeInt 8 amount++writeLE 4 txin.nSequence++hashOutputs++
      writeLE 4 tx.nLockTime++writeLE 4 nHashType))
  else if fHashSingle nHashType ∧ tx.vout.length≤nIn then pure (writeLE 32 1)
  else do
    let bytes ← serializeForSignature tx scriptCode nIn nHashType
    pure (crypto.hash256 (bytes++writeLE 4 nHashType))

/- ext_flag; other signature versions are an assert. -/
def extFlag : SigVersion → ScriptResult Nat
  | .taproot => .ok 0
  | .tapscript => .ok 1
  | _ => .error .asserts

def schnorrInputData (inPos inputType : Nat) (cache : PrecomputedTransactionData) :
    ScriptResult Bytes :=
  if inputType=SIGHASH_ANYONECANPAY then do
    let txin ← vectorAt tx.vin inPos
    let spent ← vectorAt cache.spentOutputs inPos
    pure (serializeOutPoint txin.prevout++serializeTxOut spent++writeLE 4 txin.nSequence)
  else .ok (writeLE 4 inPos)

/- The data about the output, which execdata remembers; `none` when there is no such output. -/
def schnorrOutputData (inPos outputType : Nat) (execdata : ScriptExecutionData) :
    ScriptResult (Option (Bytes×ScriptExecutionData)) :=
  if outputType=SIGHASH_SINGLE then
    if tx.vout.length ≤ inPos then .ok none
    else
      match execdata.outputHash with
      | some hash => .ok (some (hash,execdata))
      | none => do
        let out ← vectorAt tx.vout inPos
        let hash := crypto.sha256 (serializeTxOut out)
        pure (some (hash,{execdata with outputHash := some hash}))
  else .ok (some ([],execdata))

/- The data of BIP342 signatures, with key_version 0. -/
def tapscriptData (sigversion : SigVersion) (execdata : ScriptExecutionData) : ScriptResult Bytes :=
  if sigversion=.tapscript then
    match execdata.tapleafHash, execdata.codeseparatorPos with
    | some tapleafHash, some codeseparatorPos => .ok (tapleafHash++[0]++writeLE 4 codeseparatorPos)
    | _, _ => .error .asserts
  else .ok []

def schnorrTxData (inputType outputType : Nat) (cache : PrecomputedTransactionData) : Bytes :=
  writeInt 4 tx.nVersion++writeLE 4 tx.nLockTime++
    (if inputType≠SIGHASH_ANYONECANPAY then cache.prevoutsSingleHash++cache.spentAmountsSingleHash++
      cache.spentScriptsSingleHash++cache.sequencesSingleHash else [])++
    (if outputType=SIGHASH_ALL then cache.outputsSingleHash else [])

/-- SignatureHashSchnorr, with the execution data it leaves; `none` is the return of false. -/
def signatureHashSchnorr (execdata : ScriptExecutionData) (tx : Transaction) (inPos hashType : Nat)
    (sigversion : SigVersion) (cache : PrecomputedTransactionData) (mdb : MissingDataBehavior) :
    ScriptResult (Option (Bytes×ScriptExecutionData)) := do
  let extFlag ← extFlag sigversion
  rejectIf (decide (tx.vin.length ≤ inPos)) .asserts
  if !(cache.bip341TaprootReady && cache.spentOutputsReady) then do
    let _ ← handleMissingData mdb
    pure none
  else if ¬(hashType≤0x03 ∨ 0x81≤hashType ∧ hashType≤0x83) then pure none
  else
    let outputType := if hashType=SIGHASH_DEFAULT then SIGHASH_ALL
        else hashType &&& SIGHASH_OUTPUT_MASK
    let inputType := hashType &&& SIGHASH_INPUT_MASK
    match execdata.annexHash with
    | none => .error .asserts
    | some annexHash => do
      let input ← schnorrInputData tx inPos inputType cache
      match ← schnorrOutputData crypto tx inPos outputType execdata with
      | none => pure none
      | some (output,execdata) => do
        let tapscript ← tapscriptData sigversion execdata
        let spendType := 2*extFlag+if annexHash.isSome then 1 else 0
        pure (some (crypto.taggedSHA256 "TapSighash" (writeLE 1 0++writeLE 1 hashType++
          schnorrTxData tx inputType outputType cache++writeLE 1 spendType++input++
          annexHash.getD []++output++tapscript),execdata))
end

/- CPubKey::GetLen, and whether a key of these bytes is valid. -/
def pubKeyLen (chHeader : Nat) : Nat :=
  if chHeader=2 ∨ chHeader=3 then COMPRESSED_SIZE
  else if chHeader=4 ∨ chHeader=6 ∨ chHeader=7 then PUBKEY_SIZE
  else 0

def isValidPubKey : Bytes → Bool
  | [] => false
  | chHeader::vch => pubKeyLen chHeader.toNat == vch.length+1

/- CPubKey::Verify and XOnlyPubKey::VerifySchnorr, of a key, a hash and a signature. -/
structure SignatureScheme where
  verifyECDSA : Bytes → Bytes → Bytes → Bool
  verifySchnorr : Bytes → Bytes → Bytes → Bool

def LOCKTIME_THRESHOLD : Nat := 500000000
def SEQUENCE_FINAL : Nat := 0xffffffff
def SEQUENCE_LOCKTIME_TYPE_FLAG : Nat := 1<<<22
def SEQUENCE_LOCKTIME_MASK : Nat := 0xffff

/-- GenericTransactionSignatureChecker, with its precomputed data. -/
structure TransactionSignatureChecker where
  txTo : Transaction
  nIn : Nat
  amount : Int
  txdata : PrecomputedTransactionData
  mdb : MissingDataBehavior

namespace TransactionSignatureChecker
variable (crypto : ScriptCrypto) (scheme : SignatureScheme) (c : TransactionSignatureChecker)

def checkECDSASignature (vchSigIn vchPubKey scriptCode : Bytes) (sigversion : SigVersion) :
    ScriptResult Bool :=
  if !isValidPubKey vchPubKey then .ok false
  else
    match vchSigIn.getLast? with
    | none => .ok false
    | some nHashType =>
      if sigversion=.witnessV0 ∧ c.amount<0 then handleMissingData c.mdb
      else do
        let sighash ←
          signatureHash crypto scriptCode c.txTo c.nIn nHashType.toNat c.amount sigversion c.txdata
        pure (scheme.verifyECDSA vchPubKey sighash vchSigIn.dropLast)

def schnorrHashType (sig : Bytes) : ScriptResult (Nat×Bytes) :=
  match sig.length, sig.getLast? with
  | 65, some hashtype => do
    setErrorIf (hashtype.toNat == SIGHASH_DEFAULT) .schnorrSigHashtype
    pure (hashtype.toNat,sig.dropLast)
  | _, _ => .ok (SIGHASH_DEFAULT,sig)

def checkSchnorrSignature (sig pubkey : Bytes) (sigversion : SigVersion)
    (execdata : ScriptExecutionData) :
    ScriptResult ScriptExecutionData := do
  rejectIf (decide (sigversion≠.taproot ∧ sigversion≠.tapscript)) .asserts
  rejectIf (pubkey.length != 32) .asserts
  setErrorIf (sig.length != 64 && sig.length != 65) .schnorrSigSize
  let (hashtype,sig) ← schnorrHashType sig
  match ← signatureHashSchnorr crypto execdata c.txTo c.nIn hashtype sigversion c.txdata c.mdb with
  | none => .error (.fails .schnorrSigHashtype)
  | some (sighash,execdata) => do
    setErrorIf (!scheme.verifySchnorr pubkey sighash sig) .schnorrSig
    pure execdata

def checkLockTime (nLockTime : Int) : ScriptResult Bool :=
  if ¬((c.txTo.nLockTime<LOCKTIME_THRESHOLD ∧ nLockTime<LOCKTIME_THRESHOLD) ∨
      (LOCKTIME_THRESHOLD ≤ c.txTo.nLockTime ∧ (LOCKTIME_THRESHOLD : Int)≤nLockTime)) then .ok false
  else if (c.txTo.nLockTime : Int)<nLockTime then .ok false
  else do
    let txin ← vectorAt c.txTo.vin c.nIn
    pure (txin.nSequence != SEQUENCE_FINAL)

/- The operand as the two's complement of 64 bits. -/
def checkSequence (nSequence : Int) : ScriptResult Bool := do
  let txin ← vectorAt c.txTo.vin c.nIn
  if c.txTo.nVersion%2^32<2 then pure false
  else if txin.nSequence.testBit SEQUENCE_LOCKTIME_DISABLE_BIT then pure false
  else
    let nLockTimeMask := SEQUENCE_LOCKTIME_TYPE_FLAG ||| SEQUENCE_LOCKTIME_MASK
    let txToSequenceMasked := txin.nSequence &&& nLockTimeMask
    let nSequenceMasked := (nSequence%2^64).toNat &&& nLockTimeMask
    if ¬((txToSequenceMasked<SEQUENCE_LOCKTIME_TYPE_FLAG ∧
        nSequenceMasked<SEQUENCE_LOCKTIME_TYPE_FLAG) ∨
        (SEQUENCE_LOCKTIME_TYPE_FLAG≤txToSequenceMasked ∧
            SEQUENCE_LOCKTIME_TYPE_FLAG≤nSequenceMasked)) then
      pure false
    else pure (decide (nSequenceMasked≤txToSequenceMasked))

/-- The checker as VerifyScript calls it. -/
def toCode : Code.SignatureChecker where
  checkECDSASignature := c.checkECDSASignature crypto scheme
  checkSchnorrSignature := c.checkSchnorrSignature crypto scheme
  checkLockTime := c.checkLockTime
  checkSequence := c.checkSequence
end TransactionSignatureChecker
end Xero
