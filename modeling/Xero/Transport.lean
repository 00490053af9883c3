import Xero.Serialize
import Xero.Sha256
import Xero.Library.Loop

/-! Messages on the wire: the header, the deserializer fed with pieces of the stream, and the queue
of received messages. -/
namespace Xero.Transport
open Library List

def MESSAGE_START_SIZE : Nat := 4
def COMMAND_SIZE : Nat := 12
def CHECKSUM_SIZE : Nat := 4
def HEADER_SIZE : Nat := 24
def MAX_PROTOCOL_MESSAGE_LENGTH : Nat := 4*1000*1000

/-- The start string of the network, and the compression function of the hasher. -/
structure Params where
  messageStart : Bytes
  transform : Compression
  length_messageStart : messageStart.length=MESSAGE_START_SIZE

/- A failed assertion, an access to a missing key, and a loop that makes no progress. -/
inductive TransportError
  | asserts
  | outOfRange
  | noProgress
  deriving DecidableEq, Repr

structure MessageHeader where
  pchMessageStart : Bytes := replicate MESSAGE_START_SIZE 0
  pchCommand : Bytes := replicate COMMAND_SIZE 0
  nMessageSize : Nat := 2^32-1
  pchChecksum : Bytes := replicate CHECKSUM_SIZE 0
  deriving DecidableEq, Repr

namespace MessageHeader
/- The command is a C string. -/
def new (pchMessageStartIn : Bytes) (m_type : Bytes) (nMessageSizeIn : Nat) :
    Except TransportError MessageHeader := do
  let pszCommand := m_type.takeWhile (·≠0)
  rejectIf (decide (COMMAND_SIZE<pszCommand.length)) .asserts
  pure {
    pchMessageStart := pchMessageStartIn,
    pchCommand := writeAt (replicate COMMAND_SIZE 0) 0 pszCommand,
    nMessageSize := nMessageSizeIn%2^32}

variable (hdr : MessageHeader)

def getCommand : Bytes := hdr.pchCommand.takeWhile (·≠0)

def isValidFrom : Bytes → Bool
  | [] => true
  | c::cs =>
    if c=0 then cs.all (·==0)
    else if c<0x20 ∨ 0x7E < c then false
    else isValidFrom cs
def isCommandValid : Bool := isValidFrom hdr.pchCommand

def serialize : Bytes :=
  hdr.pchMessageStart++(hdr.pchCommand++(serWritedata 4 hdr.nMessageSize++hdr.pchChecksum))

def unserialize : DataStream MessageHeader := do
  let pchMessageStart ← readBytes END_OF_DATA MESSAGE_START_SIZE
  let pchCommand ← readBytes END_OF_DATA COMMAND_SIZE
  let nMessageSize ← serReaddata 4
  let pchChecksum ← readBytes END_OF_DATA CHECKSUM_SIZE
  pure {pchMessageStart, pchCommand, nMessageSize, pchChecksum}
end MessageHeader

structure NetMessage where
  m_recv : Bytes
  m_time : Int
  m_message_size : Nat
  m_raw_message_size : Nat
  m_type : Bytes
  deriving DecidableEq, Repr

structure V1TransportDeserializer where
  hasher : CHash256
  data_hash : Bytes
  in_data : Bool
  hdrbuf : Bytes
  hdr : MessageHeader
  vRecv : Bytes
  nHdrPos : Nat
  nDataPos : Nat

namespace V1TransportDeserializer
def NULL_HASH : Bytes := replicate 32 0

def reset (d : V1TransportDeserializer) : V1TransportDeserializer :=
  {d with
    vRecv := [],
    hdrbuf := replicate HEADER_SIZE 0,
    in_data := false,
    nHdrPos := 0,
    nDataPos := 0,
    data_hash := NULL_HASH,
    hasher := d.hasher.reset}

def new : V1TransportDeserializer :=
  reset {
    hasher := CHash256.new (replicate 64 0), data_hash := NULL_HASH, in_data := false,
    hdrbuf := [], hdr := {}, vRecv := [], nHdrPos := 0, nDataPos := 0}
def complete (d : V1TransportDeserializer) : Bool :=
  d.in_data && decide (d.hdr.nMessageSize=d.nDataPos)

variable (params : Params)

/- The number of bytes handled; nothing is the result -1. The length of the piece is converted to
unsigned int. -/
def readHeader (d : V1TransportDeserializer) (msg_bytes : Bytes) :
    V1TransportDeserializer×Option Nat :=
  let nRemaining := HEADER_SIZE-d.nHdrPos
  let nCopy := min nRemaining (msg_bytes.length%2^32)
  let d := {d with
    hdrbuf := writeAt d.hdrbuf d.nHdrPos (msg_bytes.take nCopy),
    nHdrPos := d.nHdrPos+nCopy}
  if d.nHdrPos<HEADER_SIZE then (d,some nCopy)
  else
    match MessageHeader.unserialize d.hdrbuf with
    | .error _ => (d,none)
    | .ok (hdr,hdrbuf) =>
      let d := {d with hdrbuf, hdr}
      if hdr.pchMessageStart≠params.messageStart then (d,none)
      else if MAX_SIZE<hdr.nMessageSize ∨ MAX_PROTOCOL_MESSAGE_LENGTH<hdr.nMessageSize then (d,none)
      else ({d with in_data := true},some nCopy)

def readData (d : V1TransportDeserializer) (msg_bytes : Bytes) :
    V1TransportDeserializer×Option Nat :=
  let nRemaining := d.hdr.nMessageSize-d.nDataPos
  let nCopy := min nRemaining (msg_bytes.length%2^32)
  let vRecv :=
    if d.vRecv.length<d.nDataPos+nCopy then
      resize 0 d.vRecv (min d.hdr.nMessageSize (d.nDataPos+nCopy+256*1024))
    else d.vRecv
  ({d with
      hasher := d.hasher.write params.transform (msg_bytes.take nCopy),
      vRecv := writeAt vRecv d.nDataPos (msg_bytes.take nCopy),
      nDataPos := d.nDataPos+nCopy},some nCopy)

/-- Read. The remaining bytes are those after the ones that were handled. -/
def read (d : V1TransportDeserializer) (msg_bytes : Bytes) : V1TransportDeserializer×Option Nat :=
  match if d.in_data then readData params d msg_bytes else readHeader params d msg_bytes with
  | (d,none) => (d.reset,none)
  | (d,some ret) => (d,some ret)

def getMessageHash (d : V1TransportDeserializer) : Except TransportError Bytes := do
  rejectIf (!d.complete) .asserts
  if d.data_hash=NULL_HASH then pure (d.hasher.finalize params.transform) else pure d.data_hash

/-- GetMessage: the message, and whether it is rejected. -/
def getMessage (d : V1TransportDeserializer) (time : Int) :
    Except TransportError (NetMessage×Bool×V1TransportDeserializer) := do
  let msg : NetMessage := {
    m_recv := d.vRecv,
    m_time := time,
    m_message_size := d.hdr.nMessageSize,
    m_raw_message_size := d.hdr.nMessageSize+HEADER_SIZE,
    m_type := d.hdr.getCommand}
  let hash ← d.getMessageHash params
  let reject_message :=
    if hash.take CHECKSUM_SIZE≠d.hdr.pchChecksum.take CHECKSUM_SIZE then true
    else !d.hdr.isCommandValid
  pure (msg,reject_message,d.reset)
end V1TransportDeserializer

structure SerializedNetMsg where
  m_type : Bytes
  data : Bytes
  deriving DecidableEq, Repr

def prepareForTransport (params : Params) (msg : SerializedNetMsg) :
    Except TransportError Bytes := do
  let hash := hash256 params.transform msg.data
  let hdr ← MessageHeader.new params.messageStart msg.m_type msg.data.length
  pure {hdr with pchChecksum := hash.take CHECKSUM_SIZE}.serialize
def text (s : String) : Bytes := s.toList.map fun c => UInt8.ofNat c.toNat
def NET_MESSAGE_TYPE_OTHER : Bytes := text "*other*"

def allNetMessageTypes : List Bytes :=
  ["version","verack","addr","addrv2","sendaddrv2","inv","getdata","merkleblock","getblocks",
    "getheaders","tx","headers","block","getaddr","mempool","ping","pong","notfound","filterload",
    "filteradd","filterclear","sendheaders","feefilter","sendcmpct","cmpctblock","getblocktxn",
    "blocktxn","getcfilters","cfilter","getcfheaders","cfheaders","getcfcheckpt","cfcheckpt",
    "wtxidrelay","sendtxrcncl"].map text

structure Node where
  m_deserializer : V1TransportDeserializer
  m_last_recv : Int
  nRecvBytes : Nat
  mapRecvBytesPerMsgType : Bytes → Option Nat
  vRecvMsg : List NetMessage

def Node.new : Node where
  m_deserializer := .new
  m_last_recv := 0
  nRecvBytes := 0
  mapRecvBytesPerMsgType t :=
    if t∈allNetMessageTypes ∨ t=NET_MESSAGE_TYPE_OTHER then some 0 else none
  vRecvMsg := []

def Node.addReceived (node : Node) (key : Bytes) (size : Nat) : Node :=
  let total := (node.mapRecvBytesPerMsgType key).map (·+size)
  {node with mapRecvBytesPerMsgType := Function.update node.mapRecvBytesPerMsgType key total}

def Node.queueMessage (params : Params) (time : Int) (node : Node) :
    Except TransportError (Node×Bool) := do
  let (msg,reject_message,d) ← node.m_deserializer.getMessage params time
  let node := {node with m_deserializer := d}
  if reject_message then
    if node.mapRecvBytesPerMsgType NET_MESSAGE_TYPE_OTHER=none then .error .outOfRange
    else pure (node.addReceived NET_MESSAGE_TYPE_OTHER msg.m_raw_message_size,false)
  else
    let i := if node.mapRecvBytesPerMsgType msg.m_type=none then NET_MESSAGE_TYPE_OTHER
        else msg.m_type
    rejectIf (decide (node.mapRecvBytesPerMsgType i=none)) .asserts
    let node := node.addReceived i msg.m_raw_message_size
    pure ({node with vRecvMsg := node.vRecvMsg++[msg]},true)

structure Receiving where
  node : Node
  msg_bytes : Bytes
  complete : Bool

/-- What ReceiveMsgBytes leaves: its result is false when the peer is to be disconnected. -/
structure Received where
  node : Node
  complete : Bool
  result : Bool

/-- One round of the loop. In reached states no Read handles nothing; the check lets the model end
in others too. -/
def receiveStep (params : Params) (time : Int) (r : Receiving) :
    Except TransportError (Received ⊕ Receiving) :=
  if r.msg_bytes.length=0 then .ok (.inl ⟨r.node,r.complete,true⟩)
  else
    match r.node.m_deserializer.read params r.msg_bytes with
    | (d,none) => .ok (.inl ⟨{r.node with m_deserializer := d},r.complete,false⟩)
    | (d,some handled) =>
      let node := {r.node with m_deserializer := d}
      if handled=0 then .error .noProgress
      else if d.complete then do
        let (node,queued) ← node.queueMessage params time
        pure (.inr ⟨node,r.msg_bytes.drop handled,r.complete || queued⟩)
      else .ok (.inr ⟨node,r.msg_bytes.drop handled,r.complete⟩)

lemma receiveStep_drop {params : Params} {t : Int} {r r' : Receiving}
    (h : receiveStep params t r=.ok (.inr r')) : r'.msg_bytes.length < r.msg_bytes.length := by
  unfold receiveStep at h
  by_cases he : r.msg_bytes.length=0
  · rw [if_pos he] at h
    cases h
  rw [if_neg he] at h
  match hr : r.node.m_deserializer.read params r.msg_bytes with
  | (d,none) =>
    rw [hr] at h
    cases h
  | (d,some ha) =>
    rw [hr] at h
    dsimp only at h
    by_cases hz : ha=0
    · rw [if_pos hz] at h
      cases h
    have hl : (r.msg_bytes.drop ha).length < r.msg_bytes.length := by
      rw [length_drop]
      omega
    rw [if_neg hz] at h
    by_cases hc : d.complete
    · rw [if_pos hc] at h
      cases hq : Node.queueMessage params t {r.node with m_deserializer := d} with
      | error e =>
        rw [hq] at h
        cases h
      | ok q =>
        rw [hq] at h
        cases h
        exact hl
    · rw [if_neg hc] at h
      cases h
      exact hl

def receiveLoop (params : Params) (time : Int) : Loop Receiving Received TransportError where
  body := receiveStep params time
  measure r := r.msg_bytes.length
  decreases _ _ h := receiveStep_drop h

def beginReceive (node : Node) (time : Int) (msg_bytes : Bytes) : Receiving where
  node := {node with
    m_last_recv := time/1000000,
    nRecvBytes := node.nRecvBytes+msg_bytes.length}
  msg_bytes := msg_bytes
  complete := false

/-- ReceiveMsgBytes. The time is in microseconds. -/
def receiveMsgBytes (params : Params) (node : Node) (time : Int) (msg_bytes : Bytes) :
    Except TransportError Received :=
  (receiveLoop params time).run (beginReceive node time msg_bytes)

/-- What is received at once, at most the size of the buffer pchBuf. -/
abbrev RecvChunk := {bytes : Bytes // bytes.length≤0x10000}

/-- The pieces of the stream are received in turn until the peer is disconnected: the node, and
whether it is still connected. -/
def receiveAll (params : Params) (node : Node) : List (Int×RecvChunk) →
    Except TransportError (Node×Bool)
  | [] => .ok (node,true)
  | (time,chunk)::chunks => do
    let r ← receiveMsgBytes params node time chunk.1
    if r.result then receiveAll params r.node chunks else pure (r.node,false)
end Xero.Transport
