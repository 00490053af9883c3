import Mathlib.Data.List.Sort
import Xero.CompactTarget
import Xero.TxRules

/-! The proof-of-work rules of a header: the legacy retarget, ASERT from its activation height on,
the envelope of headers presync, and the contextual check. -/
namespace Xero
open Library

structure BlockHeader where
  nVersion : Int
  nTime : UInt32
  nBits : Nat
deriving Repr, DecidableEq

def BlockHeader.getBlockTime (h : BlockHeader) : Int := h.nTime.toNat

/- A block index entry seen through its pprev pointers: the entry first, genesis last. -/
abbrev HeaderChain := List BlockHeader

variable (chain : HeaderChain)

def HeaderChain.nHeight : Int := (chain.length : Int)-1

/- GetAncestor, without the skip pointers that only shorten the walk. -/
def HeaderChain.getAncestor (height : Int) : Option BlockHeader :=
  if chain.nHeight<height ∨ height<0 then none else chain[(chain.nHeight-height).toNat]?

def nMedianTimeSpan : Nat := 11
def HeaderChain.getMedianTimePast : Int :=
  let times := (chain.take nMedianTimeSpan).map BlockHeader.getBlockTime
  (times.insertionSort (·≤·)).getD (times.length/2) 0

variable {chain} in
lemma median_of_times {P : Int → Prop} (hz : P 0) (h : ∀ b∈chain, P b.getBlockTime) :
    P chain.getMedianTimePast := by
  unfold HeaderChain.getMedianTimePast
  rw [List.getD_eq_getElem?_getD]
  cases hg : (((chain.take nMedianTimeSpan).map BlockHeader.getBlockTime).insertionSort
      (·≤·))[((chain.take nMedianTimeSpan).map BlockHeader.getBlockTime).length/2]? with
  | none => exact hz
  | some t =>
    have hm := (List.mem_insertionSort _).1 (List.mem_of_getElem? hg)
    obtain ⟨b,hb,rfl⟩ := List.mem_map.1 hm
    exact h b (List.mem_of_mem_take hb)

structure PowParams where
  powLimit : Nat
  nPowTargetTimespan : Int
  nPowTargetSpacing : Int
  fPowAllowMinDifficultyBlocks : Bool
  fPowNoRetargeting : Bool
  nASERTActivationHeight : Int
  nASERTStartBits : Nat
  nASERTHalfLife : Int
  BIP34Height : Int
  BIP66Height : Int
  BIP65Height : Int
  genesis : BlockHeader

namespace PowParams
def difficultyAdjustmentInterval (params : PowParams) : Int :=
  params.nPowTargetTimespan/params.nPowTargetSpacing

def isASERTActive (params : PowParams) (height : Int) : Bool :=
  decide (params.nASERTActivationHeight≤height)

def main : PowParams where
  powLimit := 2^236-1
  nPowTargetTimespan := 120*60
  nPowTargetSpacing := 10*60
  fPowAllowMinDifficultyBlocks := false
  fPowNoRetargeting := false
  nASERTActivationHeight := 4920
  nASERTStartBits := 0x1a44b82f
  nASERTHalfLife := 2*24*60*60
  BIP34Height := 0
  BIP66Height := 0
  BIP65Height := 0
  genesis := ⟨1,1765296310,0x1e0ffff0⟩
end PowParams

def assertThat (b : Bool) : Except ValidationError Unit := rejectIf (!b) .assertion

/- The shift by the integral part of the exponent, with its overflow check. The operators take
   32-bit counts. -/
def shiftTarget (powLimit nextTarget : Nat) (shifts : Int) : Nat :=
  if shifts≤0 then nextTarget >>> ((-shifts).toNat%2^32)
  else
    let nextTargetShifted := (nextTarget <<< (shifts.toNat%2^32))%2^256
    if nextTargetShifted >>> (shifts.toNat%2^32)≠nextTarget then powLimit else nextTargetShifted

def clampTarget (powLimit nextTarget : Nat) : Nat :=
  if nextTarget=0 then 1 else if powLimit<nextTarget then powLimit else nextTarget

def calculateASERT (refTarget : Nat) (nPowTargetSpacing nTimeDiff nHeightDiff : Int)
    (powLimit : Nat)
    (nHalfLife : Int) : Except ValidationError Nat := do
  assertThat (decide (0 < refTarget ∧ refTarget≤powLimit))
  assertThat (decide (0<powLimit))
  assertThat (decide (0≤nHeightDiff))
  assertThat (decide ((nTimeDiff-nPowTargetSpacing*nHeightDiff).natAbs<2^47))
  let exponent := ((nTimeDiff-nPowTargetSpacing*(nHeightDiff+1))*65536).tdiv nHalfLife
  let shifts := exponent >>> (16 : Nat)
  let frac := (exponent%65536).toNat
  assertThat (decide (exponent=shifts*65536+frac))
  let factor := (65536+(195766423245049*frac+971821376*frac*frac+5127*frac*frac*frac+2^47)%2^64/2^48)%2^32
  let nextTarget := refTarget*factor%2^256
  pure (clampTarget powLimit (shiftTarget powLimit nextTarget (shifts-16)))

/- SetCompact, a multiplication, a division and the clamp at powLimit, as the retarget and both
   bounds of the permitted transition compute them. -/
def scaledTarget (params : PowParams) (nBits : Nat) (timespan : Int) : Nat :=
  min ((setCompact nBits).value*(timespan.toNat%2^32)%2^256/params.nPowTargetTimespan.toNat)
    params.powLimit

def clampTimespan (params : PowParams) (nActualTimespan : Int) : Int :=
  let t := if nActualTimespan<params.nPowTargetTimespan/4 then params.nPowTargetTimespan/4
    else nActualTimespan
  if params.nPowTargetTimespan*4<t then params.nPowTargetTimespan*4 else t

def calculateNextWorkRequired (params : PowParams) (pindexLast : BlockHeader)
    (nFirstBlockTime : Int) :
    Nat :=
  if params.fPowNoRetargeting then pindexLast.nBits
  else getCompact (scaledTarget params pindexLast.nBits
    (clampTimespan params (pindexLast.getBlockTime-nFirstBlockTime)))

/- The walk of the test networks back to the last block without the minimum difficulty. -/
def lastRegularBits (params : PowParams) : HeaderChain → Except ValidationError Nat
  | [] => .error .assertion
  | [pindex] => .ok pindex.nBits
  | pindex::pprev::rest =>
    if HeaderChain.nHeight (pindex::pprev::rest)%params.difficultyAdjustmentInterval≠0 ∧
        pindex.nBits=getCompact params.powLimit then lastRegularBits params (pprev::rest)
    else .ok pindex.nBits

def legacyWorkRequired (params : PowParams) (chain : HeaderChain)
    (pindexLast pblock : BlockHeader) :
    Except ValidationError Nat :=
  if (chain.nHeight+1)%params.difficultyAdjustmentInterval≠0 then
    if params.fPowAllowMinDifficultyBlocks then
      if pindexLast.getBlockTime+params.nPowTargetSpacing*2<pblock.getBlockTime then
        .ok (getCompact params.powLimit)
      else lastRegularBits params chain
    else .ok pindexLast.nBits
  else
    let nHeightFirst := chain.nHeight-(params.difficultyAdjustmentInterval-1)
    match chain.getAncestor nHeightFirst with
    | none => .error .assertion
    | some pindexFirst => .ok (calculateNextWorkRequired params pindexLast pindexFirst.getBlockTime)

/- GetNextWorkRequired above the activation height: ASERT anchored at the activation block. -/
def asertWorkRequired (params : PowParams) (chain : HeaderChain) (pindexLast : BlockHeader) :
    Except ValidationError Nat :=
  match chain.getAncestor (params.nASERTActivationHeight-1) with
  | none => .ok (getCompact params.powLimit)
  | some pAnchorParent =>
    (calculateASERT (setCompact params.nASERTStartBits).value params.nPowTargetSpacing
      (pindexLast.getBlockTime-pAnchorParent.getBlockTime)
      (chain.nHeight-params.nASERTActivationHeight) params.powLimit
          params.nASERTHalfLife).map getCompact

def getNextWorkRequired (params : PowParams) (chain : HeaderChain) (pblock : BlockHeader) :
    Except ValidationError Nat :=
  match chain with
  | [] => .error .assertion
  | pindexLast::_ =>
    let nNextHeight := chain.nHeight+1
    if params.isASERTActive nNextHeight && !params.fPowNoRetargeting &&
        params.nASERTStartBits != 0 then
      if nNextHeight=params.nASERTActivationHeight then .ok params.nASERTStartBits
      else if params.nASERTActivationHeight<nNextHeight
          then asertWorkRequired params chain pindexLast
      else legacyWorkRequired params chain pindexLast pblock
    else legacyWorkRequired params chain pindexLast pblock

/- The range part of CheckProofOfWork, and all of the ASERT envelope. -/
def checkTargetRange (params : PowParams) (nBits : Nat) : Bool :=
  let bnTarget := setCompact nBits
  !(bnTarget.fNegative || bnTarget.value == 0 || bnTarget.fOverflow ||
    decide (params.powLimit<bnTarget.value))

def checkProofOfWork (params : PowParams) (hash nBits : Nat) : Bool :=
  checkTargetRange params nBits && !decide ((setCompact nBits).value<hash)

def permittedDifficultyTransition (params : PowParams) (height : Int)
    (oldNBits newNBits : Nat) : Bool :=
  if params.isASERTActive height then
    let newTarget := setCompact newNBits
    !(newTarget.fNegative || newTarget.fOverflow || newTarget.value == 0) &&
      !decide (params.powLimit<newTarget.value)
  else if params.fPowAllowMinDifficultyBlocks then true
  else if height%params.difficultyAdjustmentInterval=0 then
    let observedNewTarget := (setCompact newNBits).value
    let maximumNewTarget := (setCompact (getCompact
      (scaledTarget params oldNBits (params.nPowTargetTimespan*4)))).value
    let minimumNewTarget := (setCompact (getCompact
      (scaledTarget params oldNBits (params.nPowTargetTimespan/4)))).value
    !decide (maximumNewTarget<observedNewTarget) && !decide (observedNewTarget < minimumNewTarget)
  else oldNBits == newNBits

/- What a node reads besides the chain to check a header: its clock, and the height of its last
checkpoint when checkpoints are enabled. -/
structure HeaderContext where
  now : Int
  lastCheckpoint : Option Int

def MAX_FUTURE_BLOCK_TIME : Int := 2*60*60
def headerReject (reason : String) : ValidationError := .blockInvalid .blockInvalidHeader reason

/- The text of an nVersion under the format 0x%08x. -/
def hexVersion (nVersion : Int) : String :=
  let digits := Nat.toDigits 16 (nVersion%2^32).toNat
  String.ofList ("0x".toList++List.replicate (8-digits.length) '0'++digits)

def contextualCheckBlockHeader (params : PowParams) (ctx : HeaderContext) (pindexPrev : HeaderChain)
    (block : BlockHeader) : Except ValidationError Unit := do
  let nHeight := pindexPrev.nHeight+1
  let nBits ← getNextWorkRequired params pindexPrev block
  rejectIf (block.nBits != nBits) (headerReject "bad-diffbits")
  rejectIf (ctx.lastCheckpoint.any (fun height => decide (nHeight<height)))
    (.blockInvalid .blockCheckpoint "bad-fork-prior-to-checkpoint")
  rejectIf (decide (block.getBlockTime≤pindexPrev.getMedianTimePast)) (headerReject "time-too-old")
  rejectIf (decide (ctx.now+MAX_FUTURE_BLOCK_TIME<block.getBlockTime))
    (.blockInvalid .blockTimeFuture "time-too-new")
  rejectIf (decide (block.nVersion<2 ∧ params.BIP34Height≤nHeight ∨
      block.nVersion<3 ∧ params.BIP66Height≤nHeight ∨ block.nVersion<4 ∧
          params.BIP65Height≤nHeight))
    (headerReject ("bad-version("++hexVersion block.nVersion++")"))

/-- The chains whose headers were each accepted on top of the previous one, at some time. -/
inductive ValidChain (params : PowParams) : HeaderChain → Prop
  | genesis : ValidChain params [params.genesis]
  | accept {pindexPrev : HeaderChain} {block : BlockHeader} (ctx : HeaderContext)
      (hprev : ValidChain params pindexPrev)
      (hcheck : contextualCheckBlockHeader params ctx pindexPrev block=.ok ()) :
      ValidChain params (block::pindexPrev)
end Xero
