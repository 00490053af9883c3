import Xero.Library.Ranking
import Xero.SkipList
import Mathlib.Algebra.BigOperators.Group.Finset.Basic
import Mathlib.Algebra.Order.Ring.Int

/-! The block index with the chainstate that works on it, and how headers and blocks enter. An entry
is named by its block followed by its `pprev` chain down to genesis, so `pprev` is the tail and
ancestors are suffixes. -/
namespace Xero
open Library Function
variable {B : Type}

/-- What a run of the node takes as given: proofs of work, block sizes, where entries lie in memory,
and the verdict of ConnectBlock on each block. -/
structure ChainParams (B : Type) where
  genesis : B
  blockProof : List B → Nat
  vtxSize : List B → Nat
  address : List B → Nat
  connects : List B → Bool
  minimumChainWork : Nat
  -- CheckBlockHeader has checked the target, so GetBlockProof is not 0
  blockProof_pos : ∀ b, 0<blockProof b
  -- CheckBlock refuses a block without a coinbase
  vtxSize_pos : ∀ b, 0<vtxSize b
  -- nor one whose transactions could not fit into its weight
  vtxSize_le : ∀ b, vtxSize b≤1000000
  address_inj : Function.Injective address

/-- The transactions of a block and of all below it. -/
def ChainParams.branchTxs (params : ChainParams B) : List B → Nat
  | [] => 0
  | x::prev => branchTxs params prev+params.vtxSize (x::prev)

abbrev blockValidTree : Nat := 2
abbrev blockValidTransactions : Nat := 3
abbrev blockValidChain : Nat := 4
abbrev blockValidScripts : Nat := 5

/-- The fields of every CBlockIndex, and the members of Chainstate, BlockManager and
ChainstateManager that refer to them. `valid` is `nStatus & BLOCK_VALID_MASK`. -/
structure BlockIndexState (B : Type) where
  index : List (List B)
  pskip : List B → List B
  nHeight : List B → Nat
  nChainWork : List B → Nat
  nTx : List B → Nat
  nChainTx : List B → Nat
  nSequenceId : List B → Int
  valid : List B → Nat
  haveData : List B → Bool
  haveUndo : List B → Bool
  failedValid : List B → Bool
  failedChild : List B → Bool
  -- the last block of m_chain, whose other blocks are the ancestors of this one
  tip : List B
  setBlockIndexCandidates : List (List B)
  -- the values of m_blocks_unlinked; the key of a value is its pprev
  blocksUnlinked : List (List B)
  failedBlocks : List (List B)
  bestHeader : List B
  bestInvalid : Option (List B)
  nBlockSequenceId : Int
  nBlockReverseSequenceId : Int
  nLastPreciousChainwork : Nat

namespace BlockIndexState
/-- CBlockIndexWorkComparator: whether `pa` sorts worse than `pb`. -/
def workComparator (params : ChainParams B) (nChainWork : List B → Nat)
    (nSequenceId : List B → Int) (pa pb : List B) : Bool :=
  if nChainWork pa>nChainWork pb then false
  else if nChainWork pa<nChainWork pb then true
  else if nSequenceId pa<nSequenceId pb then false
  else if nSequenceId pa>nSequenceId pb then true
  else if params.address pa<params.address pb then false
  else if params.address pa>params.address pb then true
  else false

def sortsWorse (params : ChainParams B) (s : BlockIndexState B) : List B → List B → Bool :=
  workComparator params s.nChainWork s.nSequenceId
def failed (s : BlockIndexState B) (b : List B) : Bool := s.failedValid b || s.failedChild b
def isValid (s : BlockIndexState B) (b : List B) (nUpTo : Nat) : Bool :=
  !s.failed b && decide (nUpTo ≤ s.valid b)
def haveTxsDownloaded (s : BlockIndexState B) (b : List B) : Bool := s.nChainTx b != 0

variable [DecidableEq B]

def raiseValidity (s : BlockIndexState B) (b : List B) (nUpTo : Nat) : BlockIndexState B :=
  {s with
    valid := update s.valid b
      (if s.failed b then s.valid b else if s.valid b<nUpTo then nUpTo else s.valid b)}

def initial (params : ChainParams B) : BlockIndexState B where
  index := [[params.genesis]]
  pskip _ := []
  nHeight _ := 0
  nChainWork _ := params.blockProof [params.genesis]
  nTx _ := params.vtxSize [params.genesis]
  nChainTx _ := params.vtxSize [params.genesis]
  nSequenceId _ := 1
  valid _ := blockValidTransactions
  haveData _ := true
  haveUndo _ := false
  failedValid _ := false
  failedChild _ := false
  tip := [params.genesis]
  setBlockIndexCandidates := [[params.genesis]]
  blocksUnlinked := []
  failedBlocks := []
  bestHeader := [params.genesis]
  bestInvalid := none
  nBlockSequenceId := 2
  nBlockReverseSequenceId := -1
  nLastPreciousChainwork := 0

/-- AddToBlockIndex: a new entry has no data and the sequence id 0. BuildSkip cannot fail on the
entries that are there. -/
def addToBlockIndex (params : ChainParams B) (s : BlockIndexState B) (b : List B) :
    BlockIndexState B :=
  if b∈s.index then s
  else
    let nChainWork := s.nChainWork b.tail+params.blockProof b
    {s with
      index := b::s.index
      pskip := update s.pskip b ((buildSkip s.pskip b.tail).getD [])
      nHeight := update s.nHeight b (s.nHeight b.tail+1)
      nChainWork := update s.nChainWork b nChainWork
      nTx := update s.nTx b 0
      nChainTx := update s.nChainTx b 0
      nSequenceId := update s.nSequenceId b 0
      valid := update s.valid b blockValidTree
      haveData := update s.haveData b false
      haveUndo := update s.haveUndo b false
      failedValid := update s.failedValid b false
      failedChild := update s.failedChild b false
      bestHeader := if s.nChainWork s.bestHeader<nChainWork then b else s.bestHeader}

/- Marks every block from `walk` down to, and without, `stop` as BLOCK_FAILED_CHILD. -/
def markFailedChild (stop : List B) : List B → BlockIndexState B → BlockIndexState B
  | [], s => s
  | x::prev, s =>
    if x::prev=stop then s
    else markFailedChild stop prev
      {s with failedChild := update s.failedChild (x::prev) true}

/- The first ancestor in m_failed_blocks, which is ordered by address. -/
def failedAncestor (params : ChainParams B) (s : BlockIndexState B) (b : List B) :
    Option (List B) :=
  best (fun pa pb => decide (params.address pb<params.address pa))
    (s.failedBlocks.filter (fun f => decide (f <:+ b)))

structure HeaderChecks where
  checkBlockHeader : Bool
  contextualCheckBlockHeader : Bool
  minPowChecked : Bool

/-- AcceptBlockHeader, with whether the header was accepted. -/
def acceptBlockHeader (params : ChainParams B) (checks : HeaderChecks) (b : List B)
    (s : BlockIndexState B) : Bool×BlockIndexState B :=
  let add := if checks.minPowChecked then (true,s.addToBlockIndex params b) else (false,s)
  if b=[params.genesis] then add
  else if b∈s.index then (!s.failed b,s)
  else if !checks.checkBlockHeader then (false,s)
  else if b.tail∉s.index then (false,s)
  else if s.failed b.tail then (false,s)
  else if !checks.contextualCheckBlockHeader then (false,s)
  else if s.isValid b.tail blockValidScripts then add
  else
    match s.failedAncestor params b.tail with
    | some stop => (false,s.markFailedChild stop b.tail)
    | none => add

/- What m_blocks_unlinked holds under the key `b`, and what is left without it. -/
def unlinkedUnder (s : BlockIndexState B) (b : List B) : List (List B) :=
  s.blocksUnlinked.filter (fun c => decide (c.tail=b))

def unlinkedElsewhere (s : BlockIndexState B) (b : List B) : List (List B) :=
  s.blocksUnlinked.filter (fun c => !decide (c.tail=b))

lemma length_unlinkedUnder_add (s : BlockIndexState B) (b : List B) :
    s.blocksUnlinked.length=(s.unlinkedUnder b).length+(s.unlinkedElsewhere b).length :=
  List.length_eq_length_filter_add _

/- ReceivedBlockTransactions: one round of its queue for a block whose ancestors all have data. -/
def linkBlock (params : ChainParams B) (s : BlockIndexState B) (b : List B) : BlockIndexState B :=
  let linked : BlockIndexState B := {s with
    -- an unsigned int
    nChainTx := update s.nChainTx b
      (((if b.tail=[] then 0 else s.nChainTx b.tail)+s.nTx b)%2^32)
    nSequenceId := update s.nSequenceId b s.nBlockSequenceId
    nBlockSequenceId := s.nBlockSequenceId+1
    blocksUnlinked := s.unlinkedElsewhere b}
  {linked with
    setBlockIndexCandidates :=
      if linked.sortsWorse params b s.tip then s.setBlockIndexCandidates
      else s.setBlockIndexCandidates.insert b}

lemma linkBlock_blocksUnlinked (params : ChainParams B) (s : BlockIndexState B) (b : List B) :
    (s.linkBlock params b).blocksUnlinked=s.unlinkedElsewhere b := rfl

def linkQueue (params : ChainParams B) (s : BlockIndexState B) (queue : List (List B)) :
    BlockIndexState B :=
  match queue with
  | [] => s
  | b::rest => linkQueue params (s.linkBlock params b) (rest++s.unlinkedUnder b)
termination_by queue.length+s.blocksUnlinked.length
decreasing_by
  have h := s.length_unlinkedUnder_add b
  simp only [linkBlock_blocksUnlinked,List.length_append,List.length_cons]
  omega

def receivedBlockTransactions (params : ChainParams B) (s : BlockIndexState B) (b : List B) :
    BlockIndexState B :=
  let stored := raiseValidity {s with
    nTx := update s.nTx b (params.vtxSize b)
    nChainTx := update s.nChainTx b 0
    haveData := update s.haveData b true} b blockValidTransactions
  if b.tail=[] ∨ stored.haveTxsDownloaded b.tail then stored.linkQueue params [b]
  else if stored.isValid b.tail blockValidTree then
    {stored with blocksUnlinked := stored.blocksUnlinked++[b]}
  else stored

inductive BlockCheck where
  | ok
  | invalid
  | mutated
  deriving DecidableEq, Repr

/-- The inputs of AcceptBlock; `saved` is whether SaveBlockToDisk found a position. -/
structure BlockChecks extends HeaderChecks where
  requested : Bool
  check : BlockCheck
  saved : Bool

abbrev minBlocksToKeep : Nat := 288
def unwanted (params : ChainParams B) (s : BlockIndexState B) (b : List B) : Bool :=
  decide (s.nTx b≠0 ∨ s.nChainWork b < s.nChainWork s.tip ∨
    s.nHeight s.tip+minBlocksToKeep < s.nHeight b ∨ s.nChainWork b<params.minimumChainWork)

/-- AcceptBlock once the header is in the index. -/
def storeBlock (params : ChainParams B) (checks : BlockChecks) (b : List B)
    (s : BlockIndexState B) : BlockIndexState B :=
  if s.haveData b then s
  else if !checks.requested && s.unwanted params b then s
  else
    match checks.check with
    | .invalid => {s with failedValid := update s.failedValid b true}
    | .mutated => s
    | .ok => if checks.saved then s.receivedBlockTransactions params b else s

def acceptBlock (params : ChainParams B) (checks : BlockChecks) (b : List B)
    (s : BlockIndexState B) : BlockIndexState B :=
  match s.acceptBlockHeader params checks.toHeaderChecks b with
  | (true,s') => s'.storeBlock params checks b
  | (false,s') => s'
end BlockIndexState
end Xero
