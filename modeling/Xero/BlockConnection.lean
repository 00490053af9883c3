import Xero.TxRules

/-! ConnectBlock and DisconnectBlock on a coins view. The checks that do not concern coins and
amounts (proof of work, merkle root, sigop counts, sequence locks, scripts) are arbitrary
parameters. -/
namespace Xero
open Library

structure Block where
  hash : Uint256
  hashMerkleRoot : Uint256
  nBits : Nat
  vtx : List Transaction
  deriving DecidableEq, Repr

/- An entry of the block index: its hash, and those of its ancestors from the parent to genesis. -/
structure BlockIndex where
  hash : Uint256
  pprev : List Uint256
  deriving DecidableEq, Repr

namespace BlockIndex
variable (pindex : BlockIndex)

def nHeight : Nat := pindex.pprev.length
def prevHash : Uint256 := pindex.pprev.head?.getD 0
def prevAncestor (height : Nat) : Option Uint256 :=
  pindex.pprev.reverse[height]?
end BlockIndex

abbrev TxUndo := List Coin
abbrev BlockUndo := List TxUndo

/-- The node around ConnectBlock. Functions of the spent coins get them in input order. -/
structure ConnectEnv where
  params : ConsensusParams
  checkProofOfWork : Uint256 → Nat → Bool
  checkSignetBlockSolution : Block → Bool
  blockMerkleRoot : List Transaction → Uint256×Bool
  getLegacySigOpCount : Transaction → Nat
  fScriptChecks : BlockIndex → Bool
  parallelScriptChecks : Bool
  sequenceLocks : Transaction → List Nat → BlockIndex → Bool
  getTransactionSigOpCost : Transaction → List Coin → BlockIndex → Nat
  checkInputScripts : Transaction → List Coin → BlockIndex → Except String Unit

def Block.serializeSizeNoWitness (block : Block) : Nat :=
  80+getSizeOfCompactSize block.vtx.length+
    (block.vtx.map Transaction.serializeSizeNoWitness).sum
def blockReject (reason : String) : ValidationError := .blockInvalid .blockConsensus reason

/- CheckBlock asserts that CheckTransaction only fails with TX_CONSENSUS. -/
def checkBlockTxError : ValidationError → ValidationError
  | .txInvalid .txConsensus reason => blockReject reason
  | .txInvalid _ _ => .assertion
  | e => e

/- Any transaction validation failure in ConnectBlock is a block consensus failure. -/
def connectBlockTxError : ValidationError → ValidationError
  | .txInvalid _ reason => blockReject reason
  | e => e

def checkTransactions : List Transaction → Except ValidationError Unit
  | [] => .ok ()
  | tx::vtx => do
    (checkTransaction tx).mapError checkBlockTxError
    checkTransactions vtx

/-- CheckBlock with fCheckPOW and fCheckMerkleRoot, on a block not checked before. -/
def ConnectEnv.checkBlock (env : ConnectEnv) (block : Block) : Except ValidationError Unit := do
  rejectIf (!env.checkProofOfWork block.hash block.nBits)
    (.blockInvalid .blockInvalidHeader "high-hash")
  rejectIf (env.params.signetBlocks && !env.checkSignetBlockSolution block)
    (blockReject "bad-signet-blksig")
  let root := env.blockMerkleRoot block.vtx
  rejectIf (block.hashMerkleRoot != root.1) (.blockInvalid .blockMutated "bad-txnmrklroot")
  rejectIf root.2 (.blockInvalid .blockMutated "bad-txns-duplicate")
  rejectIf (block.vtx.isEmpty || decide (MAX_BLOCK_WEIGHT<block.vtx.length*WITNESS_SCALE_FACTOR) ||
      decide (MAX_BLOCK_WEIGHT<block.serializeSizeNoWitness*WITNESS_SCALE_FACTOR))
    (blockReject "bad-blk-length")
  rejectIf (!block.vtx.head?.any Transaction.isCoinBase) (blockReject "bad-cb-missing")
  rejectIf (block.vtx.tail.any Transaction.isCoinBase) (blockReject "bad-cb-multiple")
  checkTransactions block.vtx
  -- nSigOps is an unsigned int
  let nSigOps := (block.vtx.map env.getLegacySigOpCount).sum%2^32
  rejectIf (decide (MAX_BLOCK_SIGOPS_COST<nSigOps*WITNESS_SCALE_FACTOR%2^32))
    (blockReject "bad-blk-sigops")

def isBIP30Repeat (pindex : BlockIndex) : Bool :=
  (pindex.nHeight==91842 &&
    pindex.hash==0x00000000000a4d0a398161ffc163c503763b1f4360639393e0e4c8e300e0caec) ||
  (pindex.nHeight==91880 &&
    pindex.hash==0x00000000000743f190a18c5577a3c2d2a1f610ae9601ac046a38084ccb7cd721)

def isBIP30Unspendable (pindex : BlockIndex) : Bool :=
  (pindex.nHeight==91722 &&
    pindex.hash==0x00000000000271a2dc26e7667f8419f2e15416dc6955e5a6c6cdf3f2574dd08e) ||
  (pindex.nHeight==91812 &&
    pindex.hash==0x00000000000af0aed4792b1acee3d966af36cf5def14935db8de83d6f9306f2f)
def BIP34_IMPLIES_BIP30_LIMIT : Nat := 1983702

/-- Whether ConnectBlock looks for existing coins of the block's transactions. -/
def ConsensusParams.enforceBIP30 (params : ConsensusParams) (pindex : BlockIndex) : Bool :=
  (!isBIP30Repeat pindex &&
    (match pindex.prevAncestor params.BIP34Height with
      | none => true
      | some hash => hash != params.BIP34Hash)) ||
  decide (BIP34_IMPLIES_BIP30_LIMIT≤pindex.nHeight)

def Transaction.outpoint (tx : Transaction) (n : Nat) : OutPoint := ⟨tx.hash,n⟩
def Transaction.outpoints (tx : Transaction) : List OutPoint :=
  (List.range tx.vout.length).map tx.outpoint

def CoinsViewCache.haveAny (c : CoinsViewCache) : List OutPoint → CoinsViewCache×Bool
  | [] => (c,false)
  | o::os =>
    let r := c.haveCoin o
    if r.2 then (r.1,true) else r.1.haveAny os

def CoinsViewCache.accessCoins (c : CoinsViewCache) : List TxIn → CoinsViewCache×List Coin
  | [] => (c,[])
  | txin::vin =>
    let r := c.accessCoin txin.prevout
    let rs := r.1.accessCoins vin
    (rs.1,r.2::rs.2)

/- The first half of UpdateCoins: the inputs move into the undo record. -/
def spendInputs (inputs : CoinsViewCache) :
    List TxIn → Except ValidationError (CoinsViewCache×TxUndo)
  | [] => .ok (inputs,[])
  | txin::vin =>
    let r := inputs.spendCoin txin.prevout
    match r.2 with
    | none => .error .assertion
    | some coin => do
      let rs ← spendInputs r.1 vin
      pure (rs.1,coin::rs.2)

def addCoinsFrom (tx : Transaction) (nHeight : Nat) (checkForOverwrite : Bool)
    (cache : CoinsViewCache) (i : Nat) : List TxOut → Except CoinsError CoinsViewCache
  | [] => .ok cache
  | out::vout => do
    let found := cache.haveCoin (tx.outpoint i)
    let cache' := if checkForOverwrite then found.1 else cache
    let overwrite := if checkForOverwrite then found.2 else tx.isCoinBase
    let added ← cache'.addCoin (tx.outpoint i) ⟨out,tx.isCoinBase,nHeight⟩ overwrite
    addCoinsFrom tx nHeight checkForOverwrite added (i+1) vout

def addCoins (cache : CoinsViewCache) (tx : Transaction) (nHeight : Nat)
    (checkForOverwrite : Bool) : Except CoinsError CoinsViewCache :=
  addCoinsFrom tx nHeight checkForOverwrite cache 0 tx.vout

def updateCoins (tx : Transaction) (inputs : CoinsViewCache) (nHeight : Nat) :
    Except ValidationError (CoinsViewCache×TxUndo) := do
  let spent ← (if tx.isCoinBase then pure (inputs,[]) else spendInputs inputs tx.vin)
  let added ← (addCoins spent.1 tx nHeight false).mapError .coins
  pure (added,spent.2)

/-- What ConnectBlock carries through its loop. `control` is the verdict so far of the script checks
of other threads. -/
structure ConnectState where
  view : CoinsViewCache
  nFees : Int
  nSigOpsCost : Nat
  vtxundo : BlockUndo
  control : Bool

/- The part of the loop body for transactions other than coinbases, before the sigop count: fees and
sequence locks, and the coins spent. -/
def ConnectEnv.connectInputs (env : ConnectEnv) (pindex : BlockIndex) (st : ConnectState)
    (tx : Transaction) : Except ValidationError (ConnectState×List Coin) := do
  let r ← (checkTxInputs tx st.view pindex.nHeight).mapError connectBlockTxError
  rejectIf (!moneyRange (st.nFees+r.2)) (blockReject "bad-txns-accumulated-fee-outofrange")
  let spent := r.1.accessCoins tx.vin
  rejectIf (!env.sequenceLocks tx (spent.2.map Coin.nHeight) pindex)
    (blockReject "bad-txns-nonfinal")
  pure ({st with view := spent.1, nFees := st.nFees+r.2},spent.2)

def ConnectEnv.connectScripts (env : ConnectEnv) (pindex : BlockIndex) (st : ConnectState)
    (tx : Transaction) (spent : List Coin) : Except ValidationError ConnectState :=
  if !env.fScriptChecks pindex then .ok st
  else match env.checkInputScripts tx spent pindex with
    | .ok _ => .ok st
    | .error reason =>
      if env.parallelScriptChecks then .ok {st with control := false}
      else .error (blockReject reason)

def ConnectEnv.connectTx (env : ConnectEnv) (pindex : BlockIndex) (i : Nat) (st : ConnectState)
    (tx : Transaction) : Except ValidationError ConnectState := do
  let r ← (if tx.isCoinBase then pure (st,[]) else env.connectInputs pindex st tx)
  let nSigOpsCost := r.1.nSigOpsCost+env.getTransactionSigOpCost tx r.2 pindex
  rejectIf (decide (MAX_BLOCK_SIGOPS_COST<nSigOpsCost)) (blockReject "bad-blk-sigops")
  let st' ← (if tx.isCoinBase then pure r.1 else env.connectScripts pindex r.1 tx r.2)
  let u ← updateCoins tx st'.view pindex.nHeight
  let vtxundo := if i=0 then st'.vtxundo else st'.vtxundo++[u.2]
  pure {st' with view := u.1, nSigOpsCost := nSigOpsCost, vtxundo := vtxundo}

def ConnectEnv.connectTxs (env : ConnectEnv) (pindex : BlockIndex) (i : Nat)
    (st : ConnectState) : List Transaction → Except ValidationError ConnectState
  | [] => .ok st
  | tx::vtx => do
    let st' ← env.connectTx pindex i st tx
    env.connectTxs pindex (i+1) st' vtx
def checkBlockAbort : ValidationError → ValidationError
  | .blockInvalid .blockMutated _ => .abortNode
      "Corrupt block found indicating potential hardware failure; shutting down"
  | e => e

/- From the BIP30 check on: the part that the genesis block skips. -/
def ConnectEnv.connectTransactions (env : ConnectEnv) (block : Block) (pindex : BlockIndex)
    (view : CoinsViewCache) : Except ValidationError (CoinsViewCache×BlockUndo) := do
  rejectIf pindex.pprev.isEmpty .assertion
  let old := if env.params.enforceBIP30 pindex
    then view.haveAny (block.vtx.flatMap Transaction.outpoints) else (view,false)
  rejectIf old.2 (blockReject "bad-txns-BIP30")
  let st ← env.connectTxs pindex 0 ⟨old.1,0,0,[],true⟩ block.vtx
  let blockReward := st.nFees+getBlockSubsidy pindex.nHeight env.params
  let valueOut ← (match block.vtx with
    | [] => .error .assertion
    | coinbase::_ => valueOutOrThrow coinbase)
  rejectIf (decide (blockReward<valueOut)) (blockReject "bad-cb-amount")
  rejectIf (!st.control) (blockReject "block-validation-failed")
  pure (st.view.setBestBlock pindex.hash,st.vtxundo)

/-- ConnectBlock with fJustCheck false. The undo data is what WriteUndoDataForBlock gets;
the genesis block has none. -/
def ConnectEnv.connectBlock (env : ConnectEnv) (block : Block) (pindex : BlockIndex)
    (view : CoinsViewCache) : Except ValidationError (CoinsViewCache×Option BlockUndo) := do
  rejectIf (pindex.hash != block.hash) .assertion
  (env.checkBlock block).mapError checkBlockAbort
  let best := view.getBestBlock
  rejectIf (pindex.prevHash != best.2) .assertion
  if block.hash=env.params.hashGenesisBlock then pure (best.1.setBestBlock pindex.hash,none)
  else do
    let r ← env.connectTransactions block pindex best.1
    pure (r.1,some r.2)

inductive DisconnectResult where
  | disconnectOk
  | disconnectUnclean
  deriving DecidableEq, Repr

/- DISCONNECT_FAILED leaves the view in an indeterminate state, so it is an error here. -/
inductive DisconnectError where
  | disconnectFailed
  | coins (e : CoinsError)
  | assertion
  deriving DecidableEq, Repr

def MAX_OUTPUTS_PER_BLOCK : Nat := MAX_BLOCK_WEIGHT/(WITNESS_SCALE_FACTOR*TxOut.null.serializeSize)

/- The search of AccessByTxid from `n` on, with `left` outputs to look at. -/
def accessByTxidFrom (view : CoinsViewCache) (txid : Uint256) (n : Nat) : Nat → CoinsViewCache×Coin
  | 0 => (view,Coin.empty)
  | left+1 =>
    let r := view.accessCoin ⟨txid,n⟩
    if !r.2.isSpent then r else accessByTxidFrom r.1 txid (n+1) left

def accessByTxid (view : CoinsViewCache) (txid : Uint256) : CoinsViewCache×Coin :=
  accessByTxidFrom view txid 0 MAX_OUTPUTS_PER_BLOCK

/- Missing undo metadata: it must be present for another output of the same transaction. -/
def restoreMetadata (undo : Coin) (view : CoinsViewCache) (txid : Uint256) :
    Except DisconnectError (CoinsViewCache×Coin) :=
  let alternate := accessByTxid view txid
  if !alternate.2.isSpent then
    .ok (alternate.1,⟨undo.out,alternate.2.fCoinBase,alternate.2.nHeight⟩)
  else .error .disconnectFailed

/-- The returned flag is true for DISCONNECT_OK and false for DISCONNECT_UNCLEAN. -/
def applyTxInUndo (undo : Coin) (view : CoinsViewCache) (out : OutPoint) :
    Except DisconnectError (CoinsViewCache×Bool) := do
  let r := view.haveCoin out
  let fClean := !r.2
  let restored ← (if undo.nHeight=0 then restoreMetadata undo r.1 out.hash else pure (r.1,undo))
  let view' ← (restored.1.addCoin out restored.2 (!fClean)).mapError .coins
  pure (view',fClean)

def outputMatches (tx : Transaction) (nHeight : Nat) (out : TxOut) : Option Coin → Bool
  | none => false
  | some coin => out==coin.out && nHeight==coin.nHeight && tx.isCoinBase==coin.fCoinBase

/- Spends the outputs of `tx` from output `o` on, and compares them with the block. -/
def disconnectOutputs (tx : Transaction) (nHeight : Nat) (isBip30Exception : Bool)
    (view : CoinsViewCache) (fClean : Bool) (o : Nat) : List TxOut → CoinsViewCache×Bool
  | [] => (view,fClean)
  | out::vout =>
    if isUnspendable out.scriptPubKey then
      disconnectOutputs tx nHeight isBip30Exception view fClean (o+1) vout
    else
      let r := view.spendCoin (tx.outpoint o)
      disconnectOutputs tx nHeight isBip30Exception r.1
        (fClean && (outputMatches tx nHeight out r.2 || isBip30Exception)) (o+1) vout

/- Restores the inputs in the order given, which is the reverse of the transaction's. -/
def disconnectInputs (view : CoinsViewCache) (fClean : Bool) :
    List (OutPoint×Coin) → Except DisconnectError (CoinsViewCache×Bool)
  | [] => .ok (view,fClean)
  | (out,undo)::rest => do
    let r ← applyTxInUndo undo view out
    disconnectInputs r.1 (fClean && r.2) rest

/-- One transaction of the block; the coinbase has no undo record. -/
def disconnectTx (pindex : BlockIndex) (view : CoinsViewCache) (fClean : Bool)
    (tx : Transaction) (txundo : Option TxUndo) :
    Except DisconnectError (CoinsViewCache×Bool) := do
  let r := disconnectOutputs tx pindex.nHeight (tx.isCoinBase && isBIP30Unspendable pindex)
    view fClean 0 tx.vout
  match txundo with
  | none => pure r
  | some vprevout => do
    rejectIf (vprevout.length != tx.vin.length) .disconnectFailed
    disconnectInputs r.1 r.2 ((tx.vin.map TxIn.prevout).zip vprevout).reverse

def disconnectTxs (pindex : BlockIndex) (view : CoinsViewCache) (fClean : Bool) :
    List (Transaction×Option TxUndo) → Except DisconnectError (CoinsViewCache×Bool)
  | [] => .ok (view,fClean)
  | (tx,txundo)::rest => do
    let r ← disconnectTx pindex view fClean tx txundo
    disconnectTxs pindex r.1 r.2 rest

/-- `undo` is the answer of UndoReadFromDisk. -/
def disconnectBlock (block : Block) (undo : Option BlockUndo) (pindex : BlockIndex)
    (view : CoinsViewCache) : Except DisconnectError (DisconnectResult×CoinsViewCache) := do
  match undo with
  | none => .error .disconnectFailed
  | some blockUndo => do
    rejectIf (blockUndo.length+1 != block.vtx.length) .disconnectFailed
    let r ← disconnectTxs pindex view true
      (block.vtx.zip (none::blockUndo.map some)).reverse
    match pindex.pprev with
    | [] => .error .assertion
    | prev::_ => pure (if r.2 then .disconnectOk else .disconnectUnclean,r.1.setBestBlock prev)
end Xero
