import Xero.Primitives
import Xero.Library.OrderedIndex
import Mathlib.Data.Prod.Lex

/-! TxRequestTracker: the announcements of transactions by peers, three sorted indexes over them,
statistics of each peer and the choice of what to request from whom. -/
namespace Xero
open Library Function

abbrev NodeId := Int

structure GenTxid where
  isWtxid : Bool
  hash : Uint256
  deriving DecidableEq, Repr

inductive AnnouncementState where
  | candidateDelayed
  | candidateReady
  | candidateBest
  | requested
  | completed
  deriving DecidableEq, Repr

/- The order of the enumerators, by which the ByTxHash index sorts. -/
def AnnouncementState.code : AnnouncementState → Nat
  | candidateDelayed => 0
  | candidateReady => 1
  | candidateBest => 2
  | requested => 3
  | completed => 4

inductive WaitState where
  | futureEvent
  | noEvent
  | pastEvent
  deriving DecidableEq, Repr

def WaitState.code : WaitState → Nat
  | futureEvent => 0
  | noEvent => 1
  | pastEvent => 2

/-- One peer's announcement of one transaction. The time is the reqtime of a candidate and the
expiry of a request. -/
structure Announcement where
  txhash : Uint256
  time : Int
  peer : NodeId
  sequence : Nat
  preferred : Bool
  isWtxid : Bool
  state : AnnouncementState
  deriving DecidableEq, Repr

/- A salted hash in the source; nothing is assumed of it here. -/
abbrev PriorityComputer := Uint256 → NodeId → Bool → Nat

/- `m_sequence` is a bit field of this width. -/
def SEQUENCE_BITS : Nat := 59

namespace Announcement
def make (gtxid : GenTxid) (peer : NodeId) (preferred : Bool) (reqtime : Int) (sequence : Nat) :
    Announcement :=
  ⟨gtxid.hash,reqtime,peer,sequence%2^SEQUENCE_BITS,preferred,gtxid.isWtxid,.candidateDelayed⟩

def setState (st : AnnouncementState) (a : Announcement) : Announcement := {a with state := st}

variable (a : Announcement)

def isSelected : Bool := a.state==.candidateBest || a.state==.requested
def isWaiting : Bool := a.state==.requested || a.state==.candidateDelayed
def isSelectable : Bool := a.state==.candidateReady || a.state==.candidateBest
def getWaitState : WaitState :=
  if a.isWaiting then .futureEvent else if a.isSelectable then .pastEvent else .noEvent
def toGenTxid : GenTxid := ⟨a.isWtxid,a.txhash⟩
def priority (computer : PriorityComputer) (a : Announcement) : Nat :=
  computer a.txhash a.peer a.preferred

def byPeerView : NodeId ×ₗ Bool ×ₗ Uint256 :=
  toLex (a.peer,toLex (a.state==.candidateBest,a.txhash))
def byTxHashView (computer : PriorityComputer) (a : Announcement) : Uint256 ×ₗ Nat ×ₗ Nat :=
  toLex (a.txhash,toLex (a.state.code,if a.state=.candidateReady then a.priority computer else 0))
def byTimeView : Nat ×ₗ Int := toLex (a.getWaitState.code,a.time)

/- An iterator points to the only announcement of its transaction by its peer. -/
def key : Uint256×NodeId := (a.txhash,a.peer)
def isAt (it a : Announcement) : Bool := a.key==it.key
end Announcement

/-- Any sorted listing of the indexes: announcements with equal keys may stand in any order in
ByTxHash and in ByTime, and so may equal elements after `std::sort`. -/
structure IndexOrders (computer : PriorityComputer) where
  byPeer : OrderedIndex Announcement.byPeerView
  byTxHash : OrderedIndex (Announcement.byTxHashView computer)
  byTime : OrderedIndex Announcement.byTimeView
  bySequence : OrderedIndex Announcement.sequence

def IndexOrders.stable (computer : PriorityComputer) : IndexOrders computer :=
  ⟨.stable _,.stable _,.stable _,.stable _⟩

structure PeerInfo where
  total : Nat := 0
  completed : Nat := 0
  requested : Nat := 0
  deriving DecidableEq, Repr

/-- The tracker. The index lists the announcements in the order of their creation. -/
structure TxRequestTracker where
  currentSequence : Nat := 0
  index : List Announcement := []
  peerinfo : NodeId → Option PeerInfo := fun _ => none

/-- What GetRequestable returns: the transactions to request, and the requests that expired. -/
structure RequestableAnswer where
  requestable : List GenTxid
  expired : List (NodeId×GenTxid)
  deriving DecidableEq, Repr

namespace TxRequestTracker
open AnnouncementState

def erase (s : TxRequestTracker) (it : Announcement) : TxRequestTracker :=
  {s with
    index := s.index.filter fun a => !it.isAt a
    peerinfo := update s.peerinfo it.peer ((s.peerinfo it.peer).bind fun info =>
      if info.total-1=0 then none else
        some ⟨info.total-1,info.completed-(it.state==completed).toNat,
          info.requested-(it.state==requested).toNat⟩)}

def modify (s : TxRequestTracker) (it : Announcement) (modifier : Announcement → Announcement) :
    TxRequestTracker :=
  {s with
    index := s.index.map fun a => if it.isAt a then modifier a else a
    peerinfo := update s.peerinfo it.peer ((s.peerinfo it.peer).map fun info =>
      {info with
        completed := info.completed-(it.state==completed).toNat+
          ((modifier it).state==completed).toNat
        requested := info.requested-(it.state==requested).toNat+
          ((modifier it).state==requested).toNat})}

variable {computer : PriorityComputer} (o : IndexOrders computer) (s : TxRequestTracker)

def nextByTxHash (it : Announcement) : Option Announcement :=
  (following it.isAt (o.byTxHash.list s.index)).head?
def prevByTxHash (it : Announcement) : Option Announcement :=
  (preceding it.isAt (o.byTxHash.list s.index)).getLast?

/-- A delayed candidate becomes ready, and the best one if no other announcement is selected or if
it beats the one that is. -/
def promoteCandidateReady (it : Announcement) : TxRequestTracker :=
  let s := s.modify it (Announcement.setState candidateReady)
  let it := it.setState candidateReady
  match s.nextByTxHash o it with
  | none => s.modify it (Announcement.setState candidateBest)
  | some itNext =>
    if itNext.txhash≠it.txhash ∨ itNext.state=completed then
      s.modify it (Announcement.setState candidateBest)
    else if itNext.state=candidateBest then
      if itNext.priority computer < it.priority computer then
        (s.modify itNext (Announcement.setState candidateReady)).modify it
          (Announcement.setState candidateBest)
      else s
    else s

/-- Give an announcement a state that is not selected. If it was selected, the next best one is. -/
def changeAndReselect (it : Announcement) (newState : AnnouncementState) : TxRequestTracker :=
  let s' := if it.isSelected then
      match s.prevByTxHash o it with
      | none => s
      | some itPrev =>
        if itPrev.txhash=it.txhash ∧ itPrev.state=candidateReady then
          s.modify itPrev (Announcement.setState candidateBest)
        else s
    else s
  s'.modify it (Announcement.setState newState)

def isOnlyNonCompleted (it : Announcement) : Bool :=
  !((s.prevByTxHash o it).any fun p => p.txhash==it.txhash) &&
    !((s.nextByTxHash o it).any fun n => n.txhash==it.txhash && n.state != completed)

/-- Complete an announcement, and delete all of its transaction if no other is left to wait for.
Returns whether it still exists. -/
def makeCompleted (it : Announcement) : Bool×TxRequestTracker :=
  if it.state=completed then (true,s)
  else if s.isOnlyNonCompleted o it then
    (false,(it::(following it.isAt (o.byTxHash.list s.index)).takeWhile
      fun a => a.txhash==it.txhash).foldl erase s)
  else (true,s.changeAndReselect o it completed)

/- The loop over the announcements whose time has come, in the order of their times. -/
def advanceTime (now : Int) :
    Nat → TxRequestTracker → List (NodeId×GenTxid) → List (NodeId×GenTxid)×TxRequestTracker
  | 0, s, expired => (expired,s)
  | n+1, s, expired =>
    match (o.byTime.list s.index).head? with
    | none => (expired,s)
    | some it =>
      if it.state=candidateDelayed ∧ it.time≤now then
        advanceTime now n (s.promoteCandidateReady o it) expired
      else if it.state=requested ∧ it.time≤now then
        advanceTime now n (s.makeCompleted o it).2 (expired++[(it.peer,it.toGenTxid)])
      else (expired,s)

/- The loop over the candidates that are too early again after the clock went backwards. -/
def rewindTime (now : Int) : Nat → TxRequestTracker → TxRequestTracker
  | 0, s => s
  | n+1, s =>
    match (o.byTime.list s.index).getLast? with
    | none => s
    | some it =>
      if it.isSelectable ∧ now < it.time then
        rewindTime now n (s.changeAndReselect o it candidateDelayed)
      else s

/- Each turn of a loop settles one announcement, so the size of the index bounds the turns. -/
def setTimePoint (now : Int) : List (NodeId×GenTxid)×TxRequestTracker :=
  let (expired,s) := advanceTime o now s.index.length s []
  (expired,rewindTime o now s.index.length s)

def emplace (gtxid : GenTxid) (peer : NodeId) (preferred : Bool) (reqtime : Int) :
    TxRequestTracker :=
  {s with
    currentSequence := (s.currentSequence+1)%2^64
    index := s.index++[.make gtxid peer preferred reqtime s.currentSequence]
    peerinfo := update s.peerinfo peer
      (some {(s.peerinfo peer).getD {} with total := ((s.peerinfo peer).getD {}).total+1})}
def find (view : NodeId ×ₗ Bool ×ₗ Uint256) : Option Announcement :=
  s.index.find? fun a => a.byPeerView==view

def receivedInv (peer : NodeId) (gtxid : GenTxid) (preferred : Bool) (reqtime : Int) :
    TxRequestTracker :=
  if (s.find (toLex (peer,toLex (true,gtxid.hash)))).isSome then s
  -- the emplacement fails when the key is taken
  else if (s.find (toLex (peer,toLex (false,gtxid.hash)))).isSome then s
  else s.emplace gtxid peer preferred reqtime
def forgetTxHash (txhash : Uint256) : TxRequestTracker :=
  ((o.byTxHash.lowerBound s.index (toLex (txhash,toLex (candidateDelayed.code,0)))).takeWhile
    fun a => a.txhash==txhash).foldl erase s

/- One turn of the loop of DisconnectedPeer: where to go on is settled before anything changes. -/
def disconnectLoop (peer : NodeId) : Nat → TxRequestTracker → Option Announcement → TxRequestTracker
  | 0, s, _ => s
  | _+1, s, none => s
  | n+1, s, some it =>
    if it.peer=peer then
      let itNext := (following it.isAt (o.byPeer.list s.index)).head?.filter fun a => a.peer==peer
      let (still,t) := s.makeCompleted o it
      disconnectLoop peer n (if still then t.erase (it.setState completed) else t) itNext
    else s

def disconnectedPeer (peer : NodeId) : TxRequestTracker :=
  disconnectLoop o peer s.index.length s
    (o.byPeer.lowerBound s.index (toLex (peer,toLex (false,0)))).head?

def getRequestable (peer : NodeId) (now : Int) : RequestableAnswer×TxRequestTracker :=
  let (expired,s) := s.setTimePoint o now
  let selected := (o.byPeer.lowerBound s.index (toLex (peer,toLex (true,0)))).takeWhile
    fun a => a.peer==peer && a.state==candidateBest
  (⟨(o.bySequence.list selected).map Announcement.toGenTxid,expired⟩,s)

def requestedTx (peer : NodeId) (txhash : Uint256) (expiry : Int) : TxRequestTracker :=
  let request (s : TxRequestTracker) (it : Announcement) : TxRequestTracker :=
    s.modify it fun ann => {ann with state := requested,time := expiry}
  match s.find (toLex (peer,toLex (true,txhash))) with
  | some it => request s it
  | none =>
    match s.find (toLex (peer,toLex (false,txhash))) with
    | none => s
    | some it =>
      if it.state≠candidateDelayed ∧ it.state≠candidateReady then s
      else
        match (o.byTxHash.lowerBound s.index
            (toLex (txhash,toLex (candidateBest.code,0)))).head? with
        | none => request s it
        | some itOld =>
          if itOld.txhash=txhash then
            if itOld.state=candidateBest then
              request (s.modify itOld (Announcement.setState candidateReady)) it
            else if itOld.state=requested then
              request (s.modify itOld (Announcement.setState completed)) it
            else request s it
          else request s it

def receivedResponse (peer : NodeId) (txhash : Uint256) : TxRequestTracker :=
  match (s.find (toLex (peer,toLex (false,txhash)))).or
      (s.find (toLex (peer,toLex (true,txhash)))) with
  | none => s
  | some it => (s.makeCompleted o it).2
def countInFlight (peer : NodeId) : Nat :=
  match s.peerinfo peer with
  | some info => info.requested
  | none => 0

def countCandidates (peer : NodeId) : Nat :=
  match s.peerinfo peer with
  | some info => info.total-info.requested-info.completed
  | none => 0
def count (peer : NodeId) : Nat :=
  match s.peerinfo peer with
  | some info => info.total
  | none => 0

def size : Nat := s.index.length
end TxRequestTracker
end Xero
