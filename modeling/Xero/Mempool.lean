import Xero.TxRules
import Xero.Library.Worklist
import Xero.Library.SetLoop

/-! The memory pool: its entries with the links and package totals they cache, and the operations
that add, remove and prioritise. Counters are unbounded except where the code saturates or narrows
them. A failed assert ends the operation. -/
namespace Xero
open Library Function

def int64Max : Int := 2^63-1
def int64Min : Int := -2^63
def saturatingAdd (i j : Int) : Int :=
  if 0 < i ∧ int64Max-i<j then int64Max
  else if i<0 ∧ j < int64Min-i then int64Min
  else i+j
def toInt32 (x : Int) : Int := x.bmod (2^32)

def MAX_STANDARD_TX_SIGOPS_COST : Nat := MAX_BLOCK_SIGOPS_COST/5
def getVirtualTransactionSize (nWeight nSigOpCost bytesPerSigOp : Nat) : Nat :=
  (max nWeight (nSigOpCost*bytesPerSigOp)+WITNESS_SCALE_FACTOR-1)/WITNESS_SCALE_FACTOR
def mallocUsage (alloc : Nat) : Nat := if alloc=0 then 0 else (alloc+31)/16*16

/- IncrementalDynamicUsage of a set of entry references: a tree node with a colour, three pointers
   and the reference. -/
def linkUsage : Int := mallocUsage 40

/-- What an entry caches about its ancestors or its descendants, itself included. -/
structure PackageTotals where
  nCount : Int
  nSize : Int
  nModFees : Int
  deriving DecidableEq, Repr

/-- CTxMemPoolEntry. `nTxSize` is the value of GetTxSize, whose arguments never change. -/
structure TxMemPoolEntry where
  tx : Transaction
  witnessHash : Uint256
  nFee : Int
  nTxSize : Nat
  nUsageSize : Nat
  nTime : Int
  sigOpCost : Nat
  modifiedFee : Int
  withDescendants : PackageTotals
  withAncestors : PackageTotals
  nSigOpCostWithAncestors : Int
  parents : Finset Uint256
  children : Finset Uint256
  vTxHashesIdx : Nat
  nTxSize_pos : 0<nTxSize

lemma getVirtualTransactionSize_pos {nw : Nat} (h : 0<nw) (n b : Nat) :
    0<getVirtualTransactionSize nw n b := by
  unfold getVirtualTransactionSize WITNESS_SCALE_FACTOR
  omega

/-- The constructor. Every serialized transaction has a positive weight. -/
def TxMemPoolEntry.make (tx : Transaction) (witnessHash : Uint256) (fee time : Int)
    (sigopsCost weight usage bytesPerSigOp : Nat) (hweight : 0<weight) : TxMemPoolEntry :=
  let size := getVirtualTransactionSize weight sigopsCost bytesPerSigOp
  {tx, witnessHash, nFee := fee, nTxSize := size, nUsageSize := usage, nTime := time,
    sigOpCost := sigopsCost, modifiedFee := fee,
    withDescendants := ⟨1,size,fee⟩, withAncestors := ⟨1,size,fee⟩,
    nSigOpCostWithAncestors := sigopsCost, parents := ∅, children := ∅, vTxHashesIdx := 0,
    nTxSize_pos := getVirtualTransactionSize_pos hweight ..}

inductive MempoolAssert where
  | sizeWithDescendants
  | countWithDescendants
  | sizeWithAncestors
  | countWithAncestors
  | sigOpCostWithAncestors
  | nextTxNotInPool
  deriving DecidableEq, Repr

abbrev MempoolResult := Except MempoolAssert

namespace TxMemPoolEntry
def hash (e : TxMemPoolEntry) : Uint256 := e.tx.hash

def prevouts (e : TxMemPoolEntry) : List OutPoint := e.tx.vin.map TxIn.prevout

def updateDescendantState (modifySize modifyFee modifyCount : Int) (e : TxMemPoolEntry) :
    MempoolResult TxMemPoolEntry := do
  let nSize := e.withDescendants.nSize+modifySize
  rejectIf (decide (nSize≤0)) .sizeWithDescendants
  let nModFees := saturatingAdd e.withDescendants.nModFees modifyFee
  let nCount := e.withDescendants.nCount+modifyCount
  rejectIf (decide (nCount≤0)) .countWithDescendants
  return {e with withDescendants := ⟨nCount,nSize,nModFees⟩}

def updateAncestorState (modifySize modifyFee modifyCount modifySigOps : Int) (e : TxMemPoolEntry) :
    MempoolResult TxMemPoolEntry := do
  let nSize := e.withAncestors.nSize+modifySize
  rejectIf (decide (nSize≤0)) .sizeWithAncestors
  let nModFees := saturatingAdd e.withAncestors.nModFees modifyFee
  let nCount := e.withAncestors.nCount+modifyCount
  rejectIf (decide (nCount≤0)) .countWithAncestors
  let nSigOpCost := e.nSigOpCostWithAncestors+modifySigOps
  rejectIf (decide (toInt32 nSigOpCost<0)) .sigOpCostWithAncestors
  return {e with withAncestors := ⟨nCount,nSize,nModFees⟩, nSigOpCostWithAncestors := nSigOpCost}

def updateModifiedFee (feeDiff : Int) (e : TxMemPoolEntry) : TxMemPoolEntry :=
  {e with
    withDescendants.nModFees := saturatingAdd e.withDescendants.nModFees feeDiff
    withAncestors.nModFees := saturatingAdd e.withAncestors.nModFees feeDiff
    modifiedFee := saturatingAdd e.modifiedFee feeDiff}
end TxMemPoolEntry

/-- CTxMemPool. `mapTx` holds the txids of the entries, and `entry` is read at those only. -/
structure TxMemPool where
  mapTx : Finset Uint256
  entry : Uint256 → TxMemPoolEntry
  mapNextTx : OutPoint → Option Uint256
  mapDeltas : Uint256 → Option Int
  vTxHashes : List (Uint256×Uint256)
  totalTxSize : Int
  totalFee : Int
  cachedInnerUsage : Int

instance : Inhabited TxMemPoolEntry :=
  ⟨.make {vin := [], vout := [], hash := 0} 0 0 0 0 1 0 0 Nat.one_pos⟩

def TxMemPool.empty : TxMemPool where
  mapTx := ∅
  entry _ := default
  mapNextTx _ := none
  mapDeltas _ := none
  vTxHashes := []
  totalTxSize := 0
  totalFee := 0
  cachedInnerUsage := 0

/- Of a limit that is not set (NoLimits) the code makes the largest int64_t. -/
structure MemPoolLimits where
  ancestorCount : Option Nat
  ancestorSizeVbytes : Option Nat
  descendantCount : Option Nat
  descendantSizeVbytes : Option Nat

def MemPoolLimits.noLimits : MemPoolLimits := ⟨none,none,none,none⟩

inductive LimitError where
  | descendantSize (txid : Uint256) (limit : Nat)
  | descendantCount (txid : Uint256) (limit : Nat)
  | ancestorSize (limit : Nat)
  | ancestorCount (limit : Nat)
  | parentCount (limit : Nat)
  deriving DecidableEq, Repr

def LimitError.message (hex : Uint256 → String) : LimitError → String
  | .descendantSize txid limit =>
    "exceeds descendant size limit for tx "++hex txid++" [limit: "++toString limit++"]"
  | .descendantCount txid limit =>
    "too many descendants for tx "++hex txid++" [limit: "++toString limit++"]"
  | .ancestorSize limit => "exceeds ancestor size limit [limit: "++toString limit++"]"
  | .ancestorCount limit => "too many unconfirmed ancestors [limit: "++toString limit++"]"
  | .parentCount limit => "too many unconfirmed parents [limit: "++toString limit++"]"

def checkLimit (n : Int) (limit : Option Nat) (e : Nat → LimitError) : Except LimitError Unit :=
  match limit with
  | none => .ok ()
  | some l => rejectIf (decide ((l : Int)<n)) (e l)

namespace TxMemPool
variable (it : Uint256)

def modify (f : TxMemPoolEntry → MempoolResult TxMemPoolEntry) (s : TxMemPool) :
    MempoolResult TxMemPool := do
  let e ← f (s.entry it)
  return {s with entry := update s.entry it e}

/- A set of links after an insertion or an erasure, and by how many links it has grown. -/
def changeLinks (links : Finset Uint256) (link : Uint256) (add : Bool) : Finset Uint256×Int :=
  if add then
    if link∈links then (links,0) else (insert link links,1)
  else
    if link∈links then (links.erase link,-1) else (links,0)

def updateChild (child : Uint256) (add : Bool) (s : TxMemPool) : TxMemPool :=
  let changed := changeLinks (s.entry it).children child add
  {s with
    entry := update s.entry it {s.entry it with children := changed.1}
    cachedInnerUsage := s.cachedInnerUsage+changed.2*linkUsage}

def updateParent (parent : Uint256) (add : Bool) (s : TxMemPool) : TxMemPool :=
  let changed := changeLinks (s.entry it).parents parent add
  {s with
    entry := update s.entry it {s.entry it with parents := changed.1}
    cachedInnerUsage := s.cachedInnerUsage+changed.2*linkUsage}

/-- The loop of CalculateAncestorsAndCheckLimits. The number of ancestors grows with each parent,
so it is checked after the last one. -/
def ancestorsWithinLimits (s : TxMemPool) (limits : MemPoolLimits) (entrySize entryCount : Nat) :
    Nat → Nat → Finset Uint256 → Finset Uint256 → Except LimitError (Finset Uint256)
  | 0, _, _, ancestors => .ok ancestors
  | n+1, totalSize, staged, ancestors =>
    if h : staged.Nonempty then do
      let stage := staged.min' h
      let e := s.entry stage
      let totalSize := totalSize+e.nTxSize
      checkLimit (e.withDescendants.nSize+entrySize) limits.descendantSizeVbytes
          (.descendantSize stage)
      checkLimit (e.withDescendants.nCount+entryCount) limits.descendantCount
          (.descendantCount stage)
      checkLimit totalSize limits.ancestorSizeVbytes .ancestorSize
      let ancestors := insert stage ancestors
      let staged := staged.erase stage ∪ (e.parents \ ancestors)
      if e.parents.Nonempty then
        checkLimit (staged.card+ancestors.card+entryCount) limits.ancestorCount .ancestorCount
      ancestorsWithinLimits s limits entrySize entryCount n totalSize staged ancestors
    else .ok ancestors

/- GetIterSet of the transactions that `e` spends from. -/
def parentsInPool (s : TxMemPool) (e : TxMemPoolEntry) : Finset Uint256 :=
  s.mapTx.filter fun h => h∈e.prevouts.map OutPoint.hash

def calculateMemPoolAncestors (e : TxMemPoolEntry) (limits : MemPoolLimits)
    (fSearchForParents : Bool)
    (s : TxMemPool) : Except LimitError (Finset Uint256) := do
  let staged := if fSearchForParents then s.parentsInPool e else e.parents
  if fSearchForParents && decide staged.Nonempty then
    checkLimit (staged.card+1) limits.ancestorCount .parentCount
  s.ancestorsWithinLimits limits e.nTxSize 1 s.mapTx.card e.nTxSize staged ∅

def assumeCalculateMemPoolAncestors (e : TxMemPoolEntry) (fSearchForParents : Bool)
    (s : TxMemPool) :
    Finset Uint256 :=
  match s.calculateMemPoolAncestors e .noLimits fSearchForParents with
  | .ok ancestors => ancestors
  | .error _ => ∅
def calculateDescendants (s : TxMemPool) (it : Uint256) (setDescendants : Finset Uint256) :
    Finset Uint256 :=
  explore (fun h => (s.entry h).children) s.mapTx.card
    (if it∈setDescendants then ∅ else {it}) setDescendants

def calculateAllDescendants (s : TxMemPool) (its : Finset Uint256) : Finset Uint256 :=
  its.sort.foldl (fun setAllRemoves it => s.calculateDescendants it setAllRemoves) ∅

def updateAncestorsOf (add : Bool) (it : Uint256) (setAncestors : Finset Uint256) (s : TxMemPool) :
    MempoolResult TxMemPool := do
  let s ← forEach (s.entry it).parents (fun parent s => pure (s.updateChild parent it add)) s
  let updateCount : Int := if add then 1 else -1
  let updateSize := updateCount*(s.entry it).nTxSize
  let updateFee := updateCount*(s.entry it).modifiedFee
  forEach setAncestors
    (fun ancestor => modify ancestor (·.updateDescendantState updateSize updateFee updateCount)) s

def updateEntryForAncestors (setAncestors : Finset Uint256) (s : TxMemPool) :
    MempoolResult TxMemPool :=
  let updateSize := ∑ ancestor∈setAncestors, ((s.entry ancestor).nTxSize : Int)
  let updateFee := ∑ ancestor∈setAncestors, (s.entry ancestor).modifiedFee
  let updateSigOpsCost := ∑ ancestor∈setAncestors, ((s.entry ancestor).sigOpCost : Int)
  s.modify it (·.updateAncestorState updateSize updateFee setAncestors.card updateSigOpsCost)
def updateChildrenForRemoval (s : TxMemPool) : MempoolResult TxMemPool :=
  forEach (s.entry it).children (fun child s => pure (s.updateParent child it false)) s

/- The first loop of UpdateForRemoveFromMempool, for one of the entries. -/
def updateDescendantsForRemoval (removeIt : Uint256) (s : TxMemPool) : MempoolResult TxMemPool :=
  let setDescendants := (s.calculateDescendants removeIt ∅).erase removeIt
  let modifySize := -((s.entry removeIt).nTxSize : Int)
  let modifyFee := -(s.entry removeIt).modifiedFee
  let modifySigOps := toInt32 (-(s.entry removeIt).sigOpCost)
  forEach setDescendants
    (fun dit => modify dit (·.updateAncestorState modifySize modifyFee (-1) modifySigOps)) s

def updateAncestorsForRemoval (removeIt : Uint256) (s : TxMemPool) : MempoolResult TxMemPool :=
  s.updateAncestorsOf false removeIt (s.assumeCalculateMemPoolAncestors (s.entry removeIt) false)

def updateForRemoveFromMempool (entriesToRemove : Finset Uint256) (updateDescendants : Bool)
    (s : TxMemPool) : MempoolResult TxMemPool := do
  let s ← (if updateDescendants then forEach entriesToRemove updateDescendantsForRemoval s
      else pure s)
  let s ← forEach entriesToRemove updateAncestorsForRemoval s
  forEach entriesToRemove updateChildrenForRemoval s

/- The last hash takes the place of the removed one. -/
def removeTxHash (s : TxMemPool) : TxMemPool :=
  let idx := (s.entry it).vTxHashesIdx
  match s.vTxHashes.getLast? with
  | none => s
  | some back =>
    if 1 < s.vTxHashes.length then
      {s with
        vTxHashes := (s.vTxHashes.set idx back).dropLast
        entry := update s.entry back.2 {s.entry back.2 with vTxHashesIdx := idx}}
    else {s with vTxHashes := []}

def removeUnchecked (s : TxMemPool) : TxMemPool :=
  let e := s.entry it
  let s := removeTxHash it
    {s with mapNextTx := fun o => if o∈e.prevouts then none else s.mapNextTx o}
  {s with
    mapTx := s.mapTx.erase it
    totalTxSize := s.totalTxSize-e.nTxSize
    totalFee := s.totalFee-e.nFee
    cachedInnerUsage :=
      s.cachedInnerUsage-e.nUsageSize-(linkUsage*e.parents.card+linkUsage*e.children.card)}

def removeStaged (stage : Finset Uint256) (updateDescendants : Bool) (s : TxMemPool) :
    MempoolResult TxMemPool := do
  let s ← s.updateForRemoveFromMempool stage updateDescendants
  forEach stage (fun it s => pure (s.removeUnchecked it)) s

/- The entry that addUnchecked inserts, with the fee delta of an earlier PrioritiseTransaction. -/
def withDelta (s : TxMemPool) (e : TxMemPoolEntry) : TxMemPoolEntry :=
  let delta := (s.mapDeltas e.hash).getD 0
  if delta=0 then e else e.updateModifiedFee delta

/- The new entry and what it spends. An outpoint that is spent already keeps its spender. -/
def insertEntry (e : TxMemPoolEntry) (s : TxMemPool) : TxMemPool :=
  {s with
    mapTx := insert e.hash s.mapTx
    entry := update s.entry e.hash (s.withDelta e)
    cachedInnerUsage := s.cachedInnerUsage+e.nUsageSize
    mapNextTx := fun o => if o∈e.prevouts then some ((s.mapNextTx o).getD e.hash)
        else s.mapNextTx o}

def recordEntry (e : TxMemPoolEntry) (s : TxMemPool) : TxMemPool :=
  {s with
    totalTxSize := s.totalTxSize+e.nTxSize
    totalFee := s.totalFee+e.nFee
    vTxHashes := s.vTxHashes++[(e.witnessHash,e.hash)]
    entry := update s.entry e.hash {s.entry e.hash with vTxHashesIdx := s.vTxHashes.length}}

/-- addUnchecked for an entry that is not in the pool yet. -/
def addUnchecked (e : TxMemPoolEntry) (setAncestors : Finset Uint256) (s : TxMemPool) :
    MempoolResult TxMemPool := do
  let newit := e.hash
  let s := s.insertEntry e
  let s ← forEach (s.parentsInPool e) (fun pit s => pure (s.updateParent newit pit true)) s
  let s ← s.updateAncestorsOf true newit setAncestors
  let s ← s.updateEntryForAncestors newit setAncestors
  return s.recordEntry e

def clearPrioritisation (hash : Uint256) (s : TxMemPool) : TxMemPool :=
  {s with mapDeltas := update s.mapDeltas hash none}

def removeRecursive (origTx : Transaction) (s : TxMemPool) : MempoolResult TxMemPool := do
  -- Without origTx in the pool, the entries that spend its outputs go.
  let spenders := (List.range origTx.vout.length).filterMap fun i => s.mapNextTx ⟨origTx.hash,i⟩
  rejectIf (decide (origTx.hash∉s.mapTx) && spenders.any fun next => decide (next∉s.mapTx))
    .nextTxNotInPool
  let txToRemove := if origTx.hash∈s.mapTx then {origTx.hash} else spenders.toFinset
  s.removeStaged (s.calculateAllDescendants txToRemove) false

def removeConflict (tx : Transaction) (txin : TxIn) (s : TxMemPool) : MempoolResult TxMemPool :=
  match s.mapNextTx txin.prevout with
  | none => pure s
  | some conflict =>
    if (s.entry conflict).hash≠tx.hash then
      (s.clearPrioritisation (s.entry conflict).hash).removeRecursive (s.entry conflict).tx
    else pure s

def removeConflicts (tx : Transaction) (s : TxMemPool) : MempoolResult TxMemPool :=
  tx.vin.foldlM (fun s txin => s.removeConflict tx txin) s
def removeConfirmed (tx : Transaction) (s : TxMemPool) : MempoolResult TxMemPool := do
  let s ← (if tx.hash∈s.mapTx then s.removeStaged {tx.hash} true else pure s)
  let s ← s.removeConflicts tx
  return s.clearPrioritisation tx.hash
def removeForBlock (vtx : List Transaction) (s : TxMemPool) : MempoolResult TxMemPool :=
  vtx.foldlM (fun s tx => s.removeConfirmed tx) s

def prioritiseTransaction (hash : Uint256) (nFeeDelta : Int) (s : TxMemPool) :
    MempoolResult TxMemPool := do
  let delta := saturatingAdd ((s.mapDeltas hash).getD 0) nFeeDelta
  let s := {s with mapDeltas := update s.mapDeltas hash (some delta)}
  if hash∈s.mapTx then
    let s ← s.modify hash (fun e => pure (e.updateModifiedFee nFeeDelta))
    let ancestors := s.assumeCalculateMemPoolAncestors (s.entry hash) false
    let s ← forEach ancestors (fun a => modify a (·.updateDescendantState 0 nFeeDelta 0)) s
    let setDescendants := (s.calculateDescendants hash ∅).erase hash
    forEach setDescendants (fun d => modify d (·.updateAncestorState 0 nFeeDelta 0 0)) s
  else return s

/-- Expire also returns the number of transactions that it removes. -/
def expire (time : Int) (s : TxMemPool) : MempoolResult (Nat×TxMemPool) := do
  let toremove := s.mapTx.filter fun h => (s.entry h).nTime<time
  let stage := s.calculateAllDescendants toremove
  let s ← s.removeStaged stage false
  return (stage.card,s)

/-- The first entry of the descendant_score index. Its order compares doubles; all that matters
here is that it is an entry of the pool. -/
structure DescendantScoreIndex where
  first : TxMemPool → Uint256
  first_mem : ∀ s : TxMemPool, s.mapTx.Nonempty → first s∈s.mapTx

/- The outpoints that the removed transactions spent and that no entry creates. -/
def noSpendsRemaining (removed : List TxMemPoolEntry) (s : TxMemPool) : List OutPoint :=
  (removed.flatMap TxMemPoolEntry.prevouts).filter fun o => o.hash∉s.mapTx

/- Each round removes an entry, so there are at most as many rounds as entries. -/
def trimRounds (index : DescendantScoreIndex) (dynamicMemoryUsage : TxMemPool → Nat)
    (sizelimit : Nat) :
    Nat → List OutPoint → TxMemPool → MempoolResult (List OutPoint×TxMemPool)
  | 0, pvNoSpendsRemaining, s => pure (pvNoSpendsRemaining,s)
  | n+1, pvNoSpendsRemaining, s =>
    if s.mapTx.Nonempty ∧ sizelimit<dynamicMemoryUsage s then do
      let stage := s.calculateDescendants (index.first s) ∅
      let txn := stage.sort.map s.entry
      let s ← s.removeStaged stage false
      trimRounds index dynamicMemoryUsage sizelimit n
          (pvNoSpendsRemaining++s.noSpendsRemaining txn) s
    else pure (pvNoSpendsRemaining,s)

def trimToSize (index : DescendantScoreIndex) (dynamicMemoryUsage : TxMemPool → Nat)
    (sizelimit : Nat)
    (s : TxMemPool) : MempoolResult (List OutPoint×TxMemPool) :=
  s.trimRounds index dynamicMemoryUsage sizelimit s.mapTx.card []
end TxMemPool
end Xero
