import Xero.CoinsCache
import Xero.Library.Checks

/-! The consensus rules of a single transaction: CheckTransaction, which needs no
context, CheckTxInputs, which reads the coins it spends, and the block subsidy. -/
namespace Xero
open Library

inductive TxValidationResult where
  | txConsensus
  | txMissingInputs
  | txPrematureSpend
  deriving DecidableEq, Repr

inductive BlockValidationResult where
  | blockConsensus
  | blockMutated
  | blockInvalidHeader
  | blockCheckpoint
  | blockTimeFuture
  deriving DecidableEq, Repr

/- How validation code can stop: a rejection with its reason, a shutdown, a failed
   assert, the runtime_error of GetValueOut, or an exception of the coins view. -/
inductive ValidationError where
  | txInvalid (result : TxValidationResult) (rejectReason : String)
  | blockInvalid (result : BlockValidationResult) (rejectReason : String)
  | abortNode (message : String)
  | assertion
  | valueOutOfRange
  | coins (e : CoinsError)
  deriving DecidableEq, Repr

def MAX_BLOCK_WEIGHT : Nat := 4000000
def MAX_BLOCK_SIGOPS_COST : Nat := 80000
def COINBASE_MATURITY : Int := 20
def WITNESS_SCALE_FACTOR : Nat := 4
def getSizeOfCompactSize (nSize : Nat) : Nat :=
  if nSize<253 then 1 else if nSize≤0xffff then 3 else if nSize≤0xffffffff then 5 else 9
def scriptSerializeSize (script : Bytes) : Nat :=
  getSizeOfCompactSize script.length+script.length

def TxIn.serializeSize (txin : TxIn) : Nat := 36+scriptSerializeSize txin.scriptSig+4
def TxOut.serializeSize (txout : TxOut) : Nat := 8+scriptSerializeSize txout.scriptPubKey

variable (tx : Transaction)

def Transaction.serializeSizeNoWitness : Nat :=
  4+getSizeOfCompactSize tx.vin.length+(tx.vin.map TxIn.serializeSize).sum+
    getSizeOfCompactSize tx.vout.length+(tx.vout.map TxOut.serializeSize).sum+4
def consensusReject (reason : String) : ValidationError := .txInvalid .txConsensus reason

def checkOutputValues (nValueOut : Int) : List TxOut → Except ValidationError Unit
  | [] => .ok ()
  | txout::vout => do
    rejectIf (decide (txout.nValue<0)) (consensusReject "bad-txns-vout-negative")
    rejectIf (decide (MAX_MONEY<txout.nValue)) (consensusReject "bad-txns-vout-toolarge")
    rejectIf (!moneyRange (nValueOut+txout.nValue))
      (consensusReject "bad-txns-txouttotal-toolarge")
    checkOutputValues (nValueOut+txout.nValue) vout

def checkDuplicateInputs (vInOutPoints : List OutPoint) : List TxIn → Except ValidationError Unit
  | [] => .ok ()
  | txin::vin => do
    rejectIf (vInOutPoints.contains txin.prevout) (consensusReject "bad-txns-inputs-duplicate")
    checkDuplicateInputs (txin.prevout::vInOutPoints) vin

def checkTransaction : Except ValidationError Unit := do
  rejectIf tx.vin.isEmpty (consensusReject "bad-txns-vin-empty")
  rejectIf tx.vout.isEmpty (consensusReject "bad-txns-vout-empty")
  rejectIf (decide (MAX_BLOCK_WEIGHT<tx.serializeSizeNoWitness*WITNESS_SCALE_FACTOR))
    (consensusReject "bad-txns-oversize")
  checkOutputValues 0 tx.vout
  checkDuplicateInputs [] tx.vin
  if tx.isCoinBase then
    rejectIf (tx.vin.head?.any (fun txin => decide (txin.scriptSig.length<2) ||
      decide (100<txin.scriptSig.length))) (consensusReject "bad-cb-length")
  else
    rejectIf (tx.vin.any (fun txin => txin.prevout.isNull))
      (consensusReject "bad-txns-prevout-null")

/- The loop over the spent coins; every AccessCoin may fill the cache. -/
def checkInputCoins (nSpendHeight : Nat) (view : CoinsViewCache) (nValueIn : Int) :
    List TxIn → Except ValidationError (CoinsViewCache×Int)
  | [] => .ok (view,nValueIn)
  | txin::vin => do
    let r := view.accessCoin txin.prevout
    rejectIf r.2.isSpent .assertion
    rejectIf (r.2.fCoinBase && decide ((nSpendHeight : Int)-(r.2.nHeight : Int)<COINBASE_MATURITY))
      (.txInvalid .txPrematureSpend "bad-txns-premature-spend-of-coinbase")
    rejectIf (!moneyRange r.2.out.nValue || !moneyRange (nValueIn+r.2.out.nValue))
      (consensusReject "bad-txns-inputvalues-outofrange")
    checkInputCoins nSpendHeight r.1 (nValueIn+r.2.out.nValue) vin

def valueOutOrThrow : Except ValidationError Int :=
  match tx.getValueOut with
  | some v => .ok v
  | none => .error .valueOutOfRange

/-- Returns the view with what the lookups cached, and the transaction fee. -/
def checkTxInputs (inputs : CoinsViewCache) (nSpendHeight : Nat) :
    Except ValidationError (CoinsViewCache×Int) := do
  let avail := inputs.haveInputs tx
  rejectIf (!avail.2) (.txInvalid .txMissingInputs "bad-txns-inputs-missingorspent")
  let r ← checkInputCoins nSpendHeight avail.1 0 tx.vin
  let valueOut ← valueOutOrThrow tx
  rejectIf (decide (r.2<valueOut)) (consensusReject "bad-txns-in-belowout")
  rejectIf (!moneyRange (r.2-valueOut)) (consensusReject "bad-txns-fee-outofrange")
  pure (r.1,r.2-valueOut)

structure ConsensusParams where
  hashGenesisBlock : Uint256
  nSubsidyHalvingInterval : Nat
  BIP34Height : Nat
  BIP34Hash : Uint256
  signetBlocks : Bool := false
  deriving DecidableEq, Repr

def getBlockSubsidy (nHeight : Nat) (params : ConsensusParams) : Int :=
  let halvings := nHeight/params.nSubsidyHalvingInterval
  if 64≤halvings then 0 else (10*COIN) >>> halvings
end Xero
