import Xero.TxRequest

/-! What TxRequestTracker is for, without indexes: candidates, requests and completed announcements
in the order of their announcement. -/
namespace Xero
inductive TrackedState where
  | candidate
  | requested
  | completed
  deriving DecidableEq, Repr

structure TrackedAnnouncement where
  txhash : Uint256
  time : Int
  peer : NodeId
  preferred : Bool
  isWtxid : Bool
  state : TrackedState
  deriving DecidableEq, Repr

namespace TrackedAnnouncement
variable (a : TrackedAnnouncement)

def key : Uint256×NodeId := (a.txhash,a.peer)
def toGenTxid : GenTxid := ⟨a.isWtxid,a.txhash⟩
def priority (computer : PriorityComputer) (a : TrackedAnnouncement) : Nat :=
  computer a.txhash a.peer a.preferred
def complete : TrackedAnnouncement := {a with state := .completed}
def expiresBy (now : Int) (a : TrackedAnnouncement) : Bool :=
  a.state==.requested && decide (a.time≤now)
def expire (now : Int) (a : TrackedAnnouncement) : TrackedAnnouncement :=
  if a.expiresBy now then a.complete else a

def viable (now : Int) (a : TrackedAnnouncement) : Bool :=
  a.state==.candidate && decide (a.time≤now)

def best (computer : PriorityComputer) (now : Int) (L : List TrackedAnnouncement)
    (a : TrackedAnnouncement) : Bool :=
  a.viable now && L.all fun b => b.txhash != a.txhash ||
    (b.state != .requested && (!b.viable now || decide (b.priority computer≤a.priority computer)))
end TrackedAnnouncement

def dropCompleted (L : List TrackedAnnouncement) : List TrackedAnnouncement :=
  L.filter fun a => L.any fun b => b.txhash==a.txhash && b.state != .completed

/-- The announcements in the order in which they were made, and how many have been made. -/
structure TrackerSpec where
  announcements : List TrackedAnnouncement := []
  announced : Nat := 0

namespace TrackerSpec
open TrackedAnnouncement
variable (n : TrackerSpec) (peer : NodeId)

def receivedInv (gtxid : GenTxid) (preferred : Bool) (reqtime : Int) : TrackerSpec :=
  if n.announcements.any fun a => a.key==(gtxid.hash,peer) then n
  else
    {announcements := n.announcements++ [⟨gtxid.hash,reqtime,peer,preferred,gtxid.isWtxid,.candidate⟩]
     announced := n.announced+1}

variable (txhash : Uint256)

def forgetTxHash : TrackerSpec :=
  {n with announcements := n.announcements.filter fun a => a.txhash != txhash}
def disconnectedPeer : TrackerSpec :=
  {n with announcements := dropCompleted (n.announcements.filter fun a => a.peer != peer)}
def request (peer : NodeId) (expiry : Int) (a : TrackedAnnouncement) : TrackedAnnouncement :=
  if a.key=(txhash,peer) then {a with state := .requested,time := expiry}
  else if a.txhash=txhash ∧ a.state=.requested then a.complete
  else a

def requestedTx (expiry : Int) : TrackerSpec :=
  if n.announcements.any fun a => a.key==(txhash,peer) && a.state==.candidate then
    {n with announcements := n.announcements.map (request txhash peer expiry)}
  else n
def completeAt (key : Uint256×NodeId) (L : List TrackedAnnouncement) : List TrackedAnnouncement :=
  L.map fun a => if a.key=key then a.complete else a
def receivedResponse : TrackerSpec :=
  {n with announcements := dropCompleted (completeAt (txhash,peer) n.announcements)}

/- What is left when the requests that have expired by now are completed. -/
def settle (now : Int) (L : List TrackedAnnouncement) : List TrackedAnnouncement :=
  dropCompleted (L.map (expire now))

def expiring (now : Int) (L : List TrackedAnnouncement) : List (NodeId×GenTxid) :=
  (L.filter (expiresBy now)).map fun a => (a.peer,a.toGenTxid)

def getRequestable (computer : PriorityComputer) (peer : NodeId) (now : Int) :
    RequestableAnswer×TrackerSpec :=
  let L := settle now n.announcements
  (⟨(L.filter fun a => a.peer==peer && best computer now L a).map toGenTxid,
    expiring now n.announcements⟩,{n with announcements := L})

def count : Nat := n.announcements.countP fun a => a.peer==peer
def countInFlight : Nat :=
  n.announcements.countP fun a => a.peer==peer && a.state==.requested
def countCandidates : Nat :=
  n.announcements.countP fun a => a.peer==peer && a.state==.candidate
def size : Nat := n.announcements.length
end TrackerSpec
end Xero
