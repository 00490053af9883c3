import Xero.ChainSelection

/-! The calls that mark, clear and prefer blocks, the self check of the block index, and runs
of calls on one chainstate. -/
namespace Xero
open Library Function
variable {B : Type} [DecidableEq B]
attribute [local instance] lawfulBEq_path
namespace BlockIndexState
/- The entries that InvalidateBlock may turn into candidates while it disconnects. -/
def candidateBlocksByWork (params : ChainParams B) (s : BlockIndexState B) (b : List B) :
    List (List B) :=
  s.index.filter (fun c => !decide (c <:+ s.tip) && !s.sortsWorse params c b.tail &&
    s.isValid c blockValidTransactions && s.haveTxsDownloaded c)

/- One disconnected block of InvalidateBlock. An entry of the map stays in it: inserting it again
changes nothing. -/
def invalidateTip (params : ChainParams B) (byWork : List (List B)) (toMarkFailed : List B)
    (s : BlockIndexState B) : BlockIndexState B :=
  let walkTip := s.tip
  let newTip := walkTip.tail
  let failedValid := update s.failedValid walkTip true
  let demote := newTip=toMarkFailed ∧ failedValid toMarkFailed
  {s with
    tip := newTip
    failedValid := if demote then update failedValid toMarkFailed false else failedValid
    failedChild :=
      if demote then update s.failedChild toMarkFailed true else s.failedChild
    setBlockIndexCandidates :=
      (s.setBlockIndexCandidates.filter (fun c => !decide (c=walkTip))).insert newTip ∪
        byWork.filter (fun c => !s.sortsWorse params c newTip)}

/- The loop of InvalidateBlock; the list is the tip, from which each round takes a block. -/
def invalidateLoop (params : ChainParams B) (byWork : List (List B)) (b : List B) :
    List B → List B → BlockIndexState B → List B×BlockIndexState B
  | [], toMarkFailed, s => (toMarkFailed,s)
  | x::prev, toMarkFailed, s =>
    if b <:+ x::prev then
      invalidateLoop params byWork b prev (x::prev)
        (s.invalidateTip params byWork toMarkFailed)
    else (toMarkFailed,s)

/- The end of InvalidateBlock: a look at all entries for missing candidates. -/
def markInvalid (params : ChainParams B) (b : List B) (s : BlockIndexState B) : BlockIndexState B :=
  let marked := s.setFailedValid b
  {marked with
    failedBlocks := s.failedBlocks.insert b
    setBlockIndexCandidates :=
      s.setBlockIndexCandidates.filter (fun c => !decide (c=b)) ∪
        s.index.filter (fun c => marked.isValid c blockValidTransactions &&
          s.haveTxsDownloaded c && !s.sortsWorse params c s.tip)}.invalidChainFound b

def invalidateBlock (params : ChainParams B) (b : List B) (s : BlockIndexState B) :
    BlockIndexState B :=
  if s.nHeight b=0 then s
  else
    match invalidateLoop params (s.candidateBlocksByWork params b) b s.tip b s with
    | (toMarkFailed,s') =>
      if toMarkFailed <:+ s'.tip then s' else s'.markInvalid params toMarkFailed

variable (s : BlockIndexState B) (b : List B)

/- The entries whose marks the first loop of ResetBlockFailureFlags clears. -/
def resetByDescent (c : List B) : Bool :=
  decide (c∈s.index) && !s.isValid c blockValidTransactions && decide (b <:+ c)

/-- ResetBlockFailureFlags. The first loop treats each entry on its own, the second clears marks of
ancestors. -/
def resetBlockFailureFlags (params : ChainParams B) (b : List B) (s : BlockIndexState B) :
    BlockIndexState B :=
  let first := {s with
    failedValid := fun c => s.failedValid c && !s.resetByDescent b c
    failedChild := fun c => s.failedChild c && !s.resetByDescent b c
    setBlockIndexCandidates := s.setBlockIndexCandidates ∪
      s.index.filter (fun c => s.resetByDescent b c &&
        decide (blockValidTransactions ≤ s.valid c) && s.haveTxsDownloaded c &&
        s.sortsWorse params s.tip c)
    bestInvalid := s.bestInvalid.filter (fun c => !s.resetByDescent b c)
    failedBlocks := s.failedBlocks.filter (fun c => !s.resetByDescent b c)}
  {first with
    failedValid := fun c => first.failedValid c && !decide (c <:+ b)
    failedChild := fun c => first.failedChild c && !decide (c <:+ b)
    failedBlocks := first.failedBlocks.filter (fun c => !(first.failed c && decide (c <:+ b)))}

/- The sequence id that PreciousBlock gives; the counter starts again when the chain has been
extended since the last call. -/
def preciousSequenceId : Int :=
  if s.nLastPreciousChainwork < s.nChainWork s.tip then -1 else s.nBlockReverseSequenceId

def withPreciousId : BlockIndexState B :=
  {s with
    nLastPreciousChainwork := s.nChainWork s.tip
    nSequenceId := update s.nSequenceId b s.preciousSequenceId
    nBlockReverseSequenceId :=
      if -2^31 < s.preciousSequenceId then s.preciousSequenceId-1 else s.preciousSequenceId}

/- PreciousBlock before it activates the best chain. -/
def makePrecious (params : ChainParams B) (b : List B) (s : BlockIndexState B) :
    Option (BlockIndexState B) :=
  let moved := (s.eraseCandidate b).withPreciousId b
  if moved.isValid b blockValidTransactions && moved.haveTxsDownloaded b then
    (moved.insertCandidate b).pruneBlockIndexCandidates params
  else some moved

def preciousBlock (params : ChainParams B) (fuel : Nat) (b : List B) (s : BlockIndexState B) :
    Option (BlockIndexState B) :=
  if s.nChainWork b < s.nChainWork s.tip then some s
  else (s.makePrecious params b).bind (activateBestChain params fuel)

/-- The oldest entry from genesis to `b` that has the property. -/
def firstWith (has : List B → Bool) : List B → Option (List B)
  | [] => none
  | x::prev =>
    match firstWith has prev with
    | some c => some c
    | none => if has (x::prev) then some (x::prev) else none

def firstBelow (level : Nat) : List B → Option (List B) :=
  firstWith (fun c => decide (c.tail≠[] ∧ s.valid c<level))
def firstInvalid : List B → Option (List B) := firstWith s.failedValid
def firstMissing : List B → Option (List B) :=
  firstWith (fun c => !s.haveData c)
def firstNeverProcessed : List B → Option (List B) :=
  firstWith (fun c => s.nTx c == 0)

/- CheckBlockIndex on one entry: what is recorded about its data and its place. -/
def checkData : Bool :=
  (s.haveTxsDownloaded b || decide (s.nSequenceId b≤0)) &&
  ((!s.haveData b) == (s.nTx b == 0)) &&
  decide (s.firstMissing b=s.firstNeverProcessed b) &&
  (!s.haveUndo b || s.haveData b) &&
  (decide (blockValidTransactions ≤ s.valid b) == decide (0 < s.nTx b)) &&
  ((s.firstNeverProcessed b).isNone == s.haveTxsDownloaded b) &&
  ((s.firstBelow blockValidTransactions b).isNone == s.haveTxsDownloaded b) &&
  decide (s.nHeight b+1=b.length) &&
  (decide (b.tail=[]) || decide (s.nChainWork b.tail ≤ s.nChainWork b)) &&
  (decide (b.length-1<2) || decide (s.pskip b≠[] ∧ s.nHeight (s.pskip b)<b.length-1))

/- The levels of validity, and the failure marks. -/
def checkValidity : Bool :=
  (s.firstBelow blockValidTree b).isNone &&
  (decide (s.valid b<blockValidChain) || (s.firstBelow blockValidChain b).isNone) &&
  (decide (s.valid b<blockValidScripts) || (s.firstBelow blockValidScripts b).isNone) &&
  ((s.firstInvalid b).isSome || !s.failed b)

def checkCandidate (params : ChainParams B) (s : BlockIndexState B) (b : List B) : Bool :=
  if !s.sortsWorse params b s.tip && (s.firstNeverProcessed b).isNone then
    (s.firstInvalid b).isSome || ((s.firstMissing b).isSome && decide (b≠s.tip)) ||
      decide (b∈s.setBlockIndexCandidates)
  else decide (b∉s.setBlockIndexCandidates)

def checkUnlinked : Bool :=
  (decide (b.tail=[]) || !s.haveData b || (s.firstNeverProcessed b).isNone ||
    (s.firstInvalid b).isSome || decide (b∈s.blocksUnlinked)) &&
  (s.haveData b || decide (b∉s.blocksUnlinked)) &&
  ((s.firstMissing b).isSome || decide (b∉s.blocksUnlinked)) &&
  -- never pruned: data that was there once is still there
  (decide (b.tail=[]) || !s.haveData b || (s.firstNeverProcessed b).isSome ||
    (s.firstMissing b).isNone)

/-- CheckBlockIndex on a chainstate that has a tip and was never pruned. The traversal from genesis
reaches every entry when all parents are entries. -/
def checkBlockIndex (params : ChainParams B) (s : BlockIndexState B) : Bool :=
  decide (s.index.filter (fun b => decide (b.tail=[]))=[[params.genesis]]) &&
  decide ([params.genesis] <:+ s.tip) &&
  s.index.all (fun b =>
    decide (b.tail=[] ∨ b.tail∈s.index) && s.checkData b && s.checkValidity b &&
      s.checkCandidate params b && s.checkUnlinked b)
end BlockIndexState

inductive ChainCall (B : Type) where
  | acceptBlockHeader (checks : BlockIndexState.HeaderChecks) (b : List B)
  | acceptBlock (checks : BlockIndexState.BlockChecks) (b : List B)
  | activateBestChain
  | invalidateBlock (b : List B)
  | resetBlockFailureFlags (b : List B)
  | preciousBlock (b : List B)

/-- The state after a call. The last three calls are given an entry of the index. -/
def ChainCall.run (params : ChainParams B) (fuel : Nat) (s : BlockIndexState B) :
    ChainCall B → Option (BlockIndexState B)
  | acceptBlockHeader checks b => some (s.acceptBlockHeader params checks b).2
  | acceptBlock checks b => some (s.acceptBlock params checks b)
  | activateBestChain => s.activateBestChain params fuel
  | invalidateBlock b => if b∈s.index then some (s.invalidateBlock params b) else none
  | resetBlockFailureFlags b =>
    if b∈s.index then some (s.resetBlockFailureFlags params b) else none
  | preciousBlock b => if b∈s.index then s.preciousBlock params fuel b else none
end Xero
