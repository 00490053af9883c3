import Xero.ProofOfWork
import Xero.Library.Simulation

/-! HeadersSyncState: a peer's headers are downloaded twice. The first pass keeps one bit for some
of them, the second one checks those bits and releases headers from a buffer. -/
namespace Xero
def HEADER_COMMITMENT_PERIOD : Nat := 584

def REDOWNLOAD_BUFFER_SIZE : Nat := 13959

structure CBlockHeader extends BlockHeader where
  hashPrevBlock : Uint256
  hashMerkleRoot : Uint256
  nNonce : UInt32
  deriving DecidableEq, Repr

def CBlockHeader.null : CBlockHeader := ⟨⟨0,0,0⟩,0,0,0⟩

structure CompressedHeader where
  nVersion : Int
  hashMerkleRoot : Uint256
  nTime : UInt32
  nBits : Nat
  nNonce : UInt32
  deriving DecidableEq, Repr

def CBlockHeader.compress (header : CBlockHeader) : CompressedHeader :=
  ⟨header.nVersion,header.hashMerkleRoot,header.nTime,header.nBits,header.nNonce⟩
def CompressedHeader.getFullHeader (h : CompressedHeader) (hashPrevBlock : Uint256) :
    CBlockHeader :=
  ⟨⟨h.nVersion,h.nTime,h.nBits⟩,hashPrevBlock,h.hashMerkleRoot,h.nNonce⟩

lemma getFullHeader_compress (header : CBlockHeader) :
    header.compress.getFullHeader header.hashPrevBlock=header := rfl

def getBlockProof (nBits : Nat) : Nat :=
  let bnTarget := setCompact nBits
  if bnTarget.fNegative || bnTarget.fOverflow || bnTarget.value==0 then 0
  else (2^256-1-bnTarget.value)/(bnTarget.value+1)+1

/-- The block index entry that the peer's headers branch from. Its hash is that of its header. -/
structure ChainStart where
  header : CBlockHeader
  nHeight : Int
  nChainWork : Nat
  nHeight_nonneg : 0≤nHeight

/-- The constant members. The hash of a header and the low bit of the salted hasher are
arbitrary functions. -/
structure HeadersSync where
  consensusParams : PowParams
  getHash : CBlockHeader → Uint256
  hasher : Uint256 → Bool
  commitOffset : Nat
  chainStart : ChainStart
  minimumRequiredWork : Nat
  maxCommitments : Nat

inductive DownloadState where
  | presync
  | redownload
  | final
  deriving DecidableEq, Repr

structure HeadersSyncState where
  downloadState : DownloadState := .presync
  currentChainWork : Nat
  headerCommitments : List Bool := []
  lastHeaderReceived : CBlockHeader
  currentHeight : Int
  redownloadedHeaders : List CompressedHeader := []
  redownloadBufferLastHeight : Int := 0
  redownloadBufferLastHash : Uint256 := 0
  redownloadBufferFirstPrevHash : Uint256 := 0
  redownloadChainWork : Nat := 0
  processAllRemainingHeaders : Bool := false
  deriving DecidableEq, Repr

structure ProcessingResult where
  powValidatedHeaders : List CBlockHeader := []
  success : Bool := false
  requestMore : Bool := false
  deriving DecidableEq, Repr

/- `int next_height`: the height is narrowed in the first phase only. -/
def nextHeightInt (height : Int) : Int := (height+1).bmod (2^32)

namespace HeadersSync
variable (c : HeadersSync)

def getBlockHash : Uint256 := c.getHash c.chainStart.header

/- The remainder is that of a size_t. -/
def isCommitmentHeight (height : Int) : Bool :=
  (height%2^64).toNat%HEADER_COMMITMENT_PERIOD==c.commitOffset

def init : HeadersSyncState where
  currentChainWork := c.chainStart.nChainWork
  lastHeaderReceived := c.chainStart.header
  currentHeight := c.chainStart.nHeight

variable (s : HeadersSyncState)

/- The works and the last height keep their values. -/
def finalize : HeadersSyncState :=
  {s with
    headerCommitments := []
    lastHeaderReceived := CBlockHeader.null
    redownloadedHeaders := []
    redownloadBufferLastHash := 0
    redownloadBufferFirstPrevHash := 0
    processAllRemainingHeaders := false
    currentHeight := 0
    downloadState := .final}

/-- One header of the first phase. An error is a return of false, with the state left behind. -/
def validateAndProcessSingleHeader (current : CBlockHeader) :
    Except HeadersSyncState HeadersSyncState :=
  if s.downloadState≠.presync then .error s
  else
    let nextHeight := nextHeightInt s.currentHeight
    if !permittedDifficultyTransition c.consensusParams nextHeight s.lastHeaderReceived.nBits
        current.nBits then .error s
    else
      let process (s : HeadersSyncState) : HeadersSyncState :=
        {s with
          currentChainWork := (s.currentChainWork+getBlockProof current.nBits)%2^256
          lastHeaderReceived := current
          currentHeight := nextHeight}
      if c.isCommitmentHeight nextHeight then
        let s := {s with headerCommitments := s.headerCommitments++[c.hasher (c.getHash current)]}
        if c.maxCommitments < s.headerCommitments.length then .error s else .ok (process s)
      else .ok (process s)

def validateAndStoreHeadersCommitments (headers : List CBlockHeader) :
    Except HeadersSyncState HeadersSyncState :=
  match headers with
  | [] => .ok s
  | first::_ =>
    if s.downloadState≠.presync then .error s
    else if first.hashPrevBlock≠c.getHash s.lastHeaderReceived then .error s
    else do
      let s ← headers.foldlM c.validateAndProcessSingleHeader s
      .ok (if c.minimumRequiredWork ≤ s.currentChainWork then
        {s with
          redownloadedHeaders := []
          redownloadBufferLastHeight := c.chainStart.nHeight
          redownloadBufferFirstPrevHash := c.getBlockHash
          redownloadBufferLastHash := c.getBlockHash
          redownloadChainWork := c.chainStart.nChainWork
          downloadState := .redownload}
        else s)

def previousNBits : Nat :=
  match s.redownloadedHeaders.getLast? with
  | some h => h.nBits
  | none => c.chainStart.header.nBits

def validateAndStoreRedownloadedHeader (header : CBlockHeader) :
    Except HeadersSyncState HeadersSyncState :=
  if s.downloadState≠.redownload then .error s
  else
    let nextHeight := s.redownloadBufferLastHeight+1
    if header.hashPrevBlock≠s.redownloadBufferLastHash then .error s
    else
      if !permittedDifficultyTransition c.consensusParams nextHeight (c.previousNBits s)
          header.nBits then .error s
      else
        let redownloadChainWork := (s.redownloadChainWork+getBlockProof header.nBits)%2^256
        let s := {s with
          redownloadChainWork := redownloadChainWork
          processAllRemainingHeaders := s.processAllRemainingHeaders ||
            decide (c.minimumRequiredWork ≤ redownloadChainWork)}
        let store (s : HeadersSyncState) : HeadersSyncState :=
          {s with
            redownloadedHeaders := s.redownloadedHeaders++[header.compress]
            redownloadBufferLastHeight := nextHeight
            redownloadBufferLastHash := c.getHash header}
        if !s.processAllRemainingHeaders && c.isCommitmentHeight nextHeight then
          match s.headerCommitments with
          | [] => .error s
          | expected::rest =>
            let s := {s with headerCommitments := rest}
            if c.hasher (c.getHash header)≠expected then .error s else .ok (store s)
        else .ok (store s)

/- The loop: what is popped, what stays in the buffer and the hash before it. -/
def popHeaders (all : Bool) :
    List CompressedHeader → Uint256 → List CBlockHeader×List CompressedHeader×Uint256
  | [], prev => ([],[],prev)
  | h::t, prev =>
    if REDOWNLOAD_BUFFER_SIZE<(h::t).length || all then
      let full := h.getFullHeader prev
      let (ret,rest) := popHeaders all t (c.getHash full)
      (full::ret,rest)
    else ([],h::t,prev)

def popHeadersReadyForAcceptance : List CBlockHeader×HeadersSyncState :=
  if s.downloadState≠.redownload then ([],s)
  else
    let (ret,rest,prev) := c.popHeaders s.processAllRemainingHeaders s.redownloadedHeaders
      s.redownloadBufferFirstPrevHash
    (ret,{s with redownloadedHeaders := rest,redownloadBufferFirstPrevHash := prev})

variable (receivedHeaders : List CBlockHeader) (fullHeadersMessage : Bool)

def processPresync : ProcessingResult×HeadersSyncState :=
  match c.validateAndStoreHeadersCommitments s receivedHeaders with
  | .error s => ({},s)
  | .ok s =>
    ({success := true,requestMore := fullHeadersMessage || s.downloadState==.redownload},s)

def processRedownload : ProcessingResult×HeadersSyncState :=
  match receivedHeaders.foldlM c.validateAndStoreRedownloadedHeader s with
  | .error s => ({},s)
  | .ok s =>
    let (ret,s) := c.popHeadersReadyForAcceptance s
    ({powValidatedHeaders := ret,success := true,requestMore :=
      !(s.redownloadedHeaders.isEmpty && s.processAllRemainingHeaders) && fullHeadersMessage},s)

/- A call that does not ask for more is the last one. -/
def finishCall (ret : ProcessingResult) (s : HeadersSyncState) : HeadersSyncState :=
  if !(ret.success && ret.requestMore) then finalize s else s

def processNextHeaders : ProcessingResult×HeadersSyncState :=
  if receivedHeaders.isEmpty then ({},s)
  else
    match s.downloadState with
    | .final => ({},s)
    | .presync =>
      let (ret,s) := c.processPresync s receivedHeaders fullHeadersMessage
      (ret,finishCall ret s)
    | .redownload =>
      let (ret,s) := c.processRedownload s receivedHeaders fullHeadersMessage
      (ret,finishCall ret s)
end HeadersSync
end Xero
