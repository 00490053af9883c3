import Xero.MempoolRemoval
import Xero.TxSignatureChecker
import Xero.Library.Loop
import Xero.Library.StdSort

/-! The selection of transactions for a new block: packages of an entry with its ancestors, by the
fee rate of what is not in the block yet. The orders by fee rate compare doubles, so they are
arbitrary. -/
namespace Xero
open Library

def isFinalTx (tx : Transaction) (nBlockHeight nBlockTime : Int) : Bool :=
  tx.nLockTime==0 ||
  decide ((tx.nLockTime : Int) < if tx.nLockTime<LOCKTIME_THRESHOLD then nBlockHeight
      else nBlockTime) ||
  tx.vin.all fun txin => txin.nSequence==SEQUENCE_FINAL
def DEFAULT_BLOCK_MAX_WEIGHT : Nat := MAX_BLOCK_WEIGHT-4000
def MAX_CONSECUTIVE_FAILURES : Nat := 1000

/-- The options of the assembler. `getFee` is blockMinFeeRate.GetFee. -/
structure AssemblerOptions where
  nBlockMaxWeight : Nat := DEFAULT_BLOCK_MAX_WEIGHT
  getFee : Int → Int

def clampOptions (options : AssemblerOptions) : AssemblerOptions :=
  {options with nBlockMaxWeight := max 4000 (min options.nBlockMaxWeight DEFAULT_BLOCK_MAX_WEIGHT)}

/-- CTxMemPoolModifiedEntry without its iterator, which is its key. -/
structure ModifiedEntry where
  nSizeWithAncestors : Int
  nModFeesWithAncestors : Int
  nSigOpCostWithAncestors : Int
  deriving DecidableEq, Repr

def ModifiedEntry.ofEntry (e : TxMemPoolEntry) : ModifiedEntry :=
  ⟨e.withAncestors.nSize,e.withAncestors.nModFees,e.nSigOpCostWithAncestors⟩
def updateForParentInclusion (parent : TxMemPoolEntry) (e : ModifiedEntry) : ModifiedEntry where
  nModFeesWithAncestors := e.nModFeesWithAncestors-parent.modifiedFee
  nSizeWithAncestors := e.nSizeWithAncestors-parent.nTxSize
  nSigOpCostWithAncestors := e.nSigOpCostWithAncestors-parent.sigOpCost

/-- indexed_modified_transaction_set. `entry` is read at the keys only. -/
structure ModifiedSet where
  keys : Finset Uint256
  entry : Uint256 → ModifiedEntry

namespace ModifiedSet
def empty : ModifiedSet := ⟨∅,fun _ => ⟨0,0,0⟩⟩

def erase (it : Uint256) (m : ModifiedSet) : ModifiedSet := {m with keys := m.keys.erase it}

/- What is known of `desc` here, or what its pool entry says. -/
def findOrNew (s : TxMemPool) (desc : Uint256) (m : ModifiedSet) : ModifiedEntry :=
  if desc∈m.keys then m.entry desc else .ofEntry (s.entry desc)

def updateDescendant (s : TxMemPool) (it desc : Uint256) (m : ModifiedSet) : ModifiedSet where
  keys := insert desc m.keys
  entry := Function.update m.entry desc (updateForParentInclusion (s.entry it) (m.findOrNew s desc))
end ModifiedSet

/-- The two orders by ancestor fee rate: `mapTx` lists the index of the pool, `first` is the first
modified entry, and `better` compares one with an entry of the pool. -/
structure AncestorScore (s : TxMemPool) where
  mapTx : List Uint256
  nodup : mapTx.Nodup
  mem_iff : ∀ h, h∈mapTx ↔ h∈s.mapTx
  first : ModifiedSet → Uint256
  first_mem : ∀ m : ModifiedSet, m.keys.Nonempty → first m∈m.keys
  better : Uint256×ModifiedEntry → Uint256×ModifiedEntry → Bool

structure EntryWeights (s : TxMemPool) where
  weight : Uint256 → Nat
  bytesPerSigOp : Nat
  nTxSize : ∀ h∈s.mapTx,
    (s.entry h).nTxSize=getVirtualTransactionSize (weight h) (s.entry h).sigOpCost bytesPerSigOp

/-- What the assembler collects. `vtx` names the transactions by the entries they come from. -/
structure BlockAssembler where
  vtx : List Uint256
  vTxFees : List Int
  vTxSigOpsCost : List Nat
  nBlockWeight : Nat
  nBlockTx : Nat
  nBlockSigOpsCost : Nat
  nFees : Int
  inBlock : Finset Uint256

inductive AssemblyAssert where
  | noEntry
  | alreadyInBlock
  deriving DecidableEq, Repr

abbrev AssemblyResult := Except AssemblyAssert

/-- The local variables of addPackageTxs. Of `mi` the rest of the index is kept. -/
structure PackageSearch where
  assembler : BlockAssembler
  mapModifiedTx : ModifiedSet
  failedTx : Finset Uint256
  mi : List Uint256
  nConsecutiveFailed : Nat
  nPackagesSelected : Nat
  nDescendantsUpdated : Nat

/-- What stays the same while a block is assembled; the options are as given by the caller. -/
structure Assembly (s : TxMemPool) where
  options : AssemblerOptions
  nHeight : Int
  lockTimeCutoff : Int
  weights : EntryWeights s
  score : AncestorScore s
  sorting : StdSort Uint256

namespace BlockAssembler
def resetBlock : BlockAssembler where
  vtx := []
  vTxFees := []
  vTxSigOpsCost := []
  nBlockWeight := 4000
  nBlockTx := 0
  nBlockSigOpsCost := 400
  nFees := 0
  inBlock := ∅

def onlyUnconfirmed (a : BlockAssembler) (testSet : Finset Uint256) : Finset Uint256 :=
  testSet.filter fun it => it∉a.inBlock

def testPackage (options : AssemblerOptions) (packageSize packageSigOpsCost : Int)
    (a : BlockAssembler) :
    Bool :=
  if (options.nBlockMaxWeight : Int)≤a.nBlockWeight+WITNESS_SCALE_FACTOR*packageSize then false
  else if (MAX_BLOCK_SIGOPS_COST : Int)≤a.nBlockSigOpsCost+packageSigOpsCost then false
  else true

def addToBlock (iter : Uint256) (e : TxMemPoolEntry) (nTxWeight : Nat) (a : BlockAssembler) :
    BlockAssembler where
  vtx := a.vtx++[iter]
  vTxFees := a.vTxFees++[e.nFee]
  vTxSigOpsCost := a.vTxSigOpsCost++[e.sigOpCost]
  nBlockWeight := a.nBlockWeight+nTxWeight
  nBlockTx := a.nBlockTx+1
  nBlockSigOpsCost := a.nBlockSigOpsCost+e.sigOpCost
  nFees := a.nFees+e.nFee
  inBlock := insert iter a.inBlock
end BlockAssembler

def compareTxIterByAncestorCount (s : TxMemPool) (a b : Uint256) : Bool :=
  if (s.entry a).withAncestors.nCount≠(s.entry b).withAncestors.nCount then
    decide ((s.entry a).withAncestors.nCount<(s.entry b).withAncestors.nCount)
  else decide (a<b)

def updateDescendantsOf (s : TxMemPool) (alreadyAdded : Finset Uint256) (it : Uint256)
    (r : Nat×ModifiedSet) : AssemblyResult (Nat×ModifiedSet) :=
  forEach (s.calculateDescendants it ∅) (fun desc r =>
    if desc∈alreadyAdded then pure r
    else pure (r.1+1,r.2.updateDescendant s it desc)) r
def updatePackagesForAdded (s : TxMemPool) (alreadyAdded : Finset Uint256)
    (mapModifiedTx : ModifiedSet) :
    AssemblyResult (Nat×ModifiedSet) :=
  forEach alreadyAdded (updateDescendantsOf s alreadyAdded) (0,mapModifiedTx)

namespace PackageSearch
/- A modified entry that failed is not looked at again; an entry of the index is passed already. -/
def forget (fUsingModified : Bool) (iter : Uint256) (t : PackageSearch) : PackageSearch :=
  if fUsingModified then
    {t with mapModifiedTx := t.mapModifiedTx.erase iter, failedTx := insert iter t.failedTx}
  else t
end PackageSearch
namespace Assembly
variable {s : TxMemPool} (c : Assembly s)

def mOptions : AssemblerOptions := clampOptions c.options

variable (package : Finset Uint256)

def testPackageTransactions : Bool :=
  decide (∀ it∈package, isFinalTx (s.entry it).tx c.nHeight c.lockTimeCutoff)
def sortForBlock : List Uint256 :=
  c.sorting.sort (compareTxIterByAncestorCount s) package.sort

/- AddToBlock of the sorted entries, each then erased from the modified set. -/
def addSorted (sortedEntries : List Uint256) (a : BlockAssembler) (m : ModifiedSet) :
    BlockAssembler×ModifiedSet :=
  sortedEntries.foldl
    (fun r it => (r.1.addToBlock it (s.entry it) (c.weights.weight it),r.2.erase it)) (a,m)

def addPackage (t : PackageSearch) : AssemblyResult PackageSearch := do
  let (assembler,mapModifiedTx) := c.addSorted (c.sortForBlock package) t.assembler t.mapModifiedTx
  let (updated,mapModifiedTx) ← updatePackagesForAdded s package mapModifiedTx
  return {t with
    assembler, mapModifiedTx, nConsecutiveFailed := 0, nPackagesSelected := t.nPackagesSelected+1,
    nDescendantsUpdated := t.nDescendantsUpdated+updated}

/- The round once its entry is chosen. On the left the search is over. -/
def evaluate (iter : Uint256) (fUsingModified : Bool) (t : PackageSearch) :
    AssemblyResult (PackageSearch ⊕ PackageSearch) := do
  rejectIf (decide (iter∈t.assembler.inBlock)) .alreadyInBlock
  let package := if fUsingModified then t.mapModifiedTx.entry iter else .ofEntry (s.entry iter)
  if package.nModFeesWithAncestors < c.mOptions.getFee package.nSizeWithAncestors then return .inl t
  if !t.assembler.testPackage c.mOptions package.nSizeWithAncestors
      package.nSigOpCostWithAncestors then
    let t := t.forget fUsingModified iter
    let t := {t with nConsecutiveFailed := t.nConsecutiveFailed+1}
    if MAX_CONSECUTIVE_FAILURES<t.nConsecutiveFailed ∧
        c.mOptions.nBlockMaxWeight-4000<t.assembler.nBlockWeight then return .inl t
    return .inr t
  let ancestors := t.assembler.onlyUnconfirmed
      (s.assumeCalculateMemPoolAncestors (s.entry iter) false)
  let ancestors := insert iter ancestors
  if !c.testPackageTransactions ancestors then return .inr (t.forget fUsingModified iter)
  return .inr (← c.addPackage ancestors t)

def round (t : PackageSearch) : AssemblyResult (PackageSearch ⊕ PackageSearch) := do
  let best := c.score.first t.mapModifiedTx
  match t.mi with
  | [] => if t.mapModifiedTx.keys=∅ then return .inl t else c.evaluate best true t
  | it::mi =>
    rejectIf (decide (it∉s.mapTx)) .noEntry
    if it∈t.mapModifiedTx.keys ∨ it∈t.assembler.inBlock ∨ it∈t.failedTx then
      return .inr {t with mi}
    if t.mapModifiedTx.keys.Nonempty ∧
        c.score.better (best,t.mapModifiedTx.entry best) (it,.ofEntry (s.entry it)) then
      c.evaluate best true t
    else c.evaluate it false {t with mi}

def start : PackageSearch where
  assembler := .resetBlock
  mapModifiedTx := .empty
  failedTx := ∅
  mi := c.score.mapTx
  nConsecutiveFailed := 0
  nPackagesSelected := 0
  nDescendantsUpdated := 0

/-- addPackageTxs for a fresh assembler, with a bound on the rounds of its loop. -/
def addPackageTxs (rounds : Nat) : Option (AssemblyResult PackageSearch) :=
  runRounds c.round rounds c.start
end Assembly
end Xero
