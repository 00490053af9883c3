import Xero.Primitives
import Mathlib.Data.Finset.Sort
import Mathlib.Data.Fintype.Prod

/-! The address manager: entries by id, the tables of new and tried addresses, and their counts. -/
namespace Xero
open Function

inductive Network
  | unroutable | ipv4 | ipv6 | onion | i2p | cjdns | internal
  deriving DecidableEq, Repr

def Network.all : List Network := [.unroutable,.ipv4,.ipv6,.onion,.i2p,.cjdns,.internal]

def ADDRMAN_TRIED_BUCKET_COUNT : Nat := 256
def ADDRMAN_NEW_BUCKET_COUNT : Nat := 1024
def ADDRMAN_BUCKET_SIZE : Nat := 64
def ADDRMAN_NEW_BUCKETS_PER_ADDRESS : Int := 8
def ADDRMAN_HORIZON : Int := 30*24*3600
def ADDRMAN_RETRIES : Nat := 3
def ADDRMAN_MAX_FAILURES : Nat := 10
def ADDRMAN_MIN_FAIL : Int := 7*24*3600
def ADDRMAN_REPLACEMENT : Int := 4*3600
def ADDRMAN_SET_TRIED_COLLISION_SIZE : Nat := 10
def ADDRMAN_TEST_WINDOW : Int := 40*60

abbrev TriedSlot := Fin ADDRMAN_TRIED_BUCKET_COUNT×Fin ADDRMAN_BUCKET_SIZE
abbrev NewSlot := Fin ADDRMAN_NEW_BUCKET_COUNT×Fin ADDRMAN_BUCKET_SIZE

/-- Addresses with and without a port: what is read off them, and where the keyed hashes place them.
-/
structure AddrSpace (Service NetAddr : Type) where
  nKey : Uint256
  getTriedBucket : Service → Fin ADDRMAN_TRIED_BUCKET_COUNT
  getNewBucket : Service → NetAddr → Fin ADDRMAN_NEW_BUCKET_COUNT
  getTriedPosition : Service → Fin ADDRMAN_TRIED_BUCKET_COUNT → Fin ADDRMAN_BUCKET_SIZE
  getNewPosition : Service → Fin ADDRMAN_NEW_BUCKET_COUNT → Fin ADDRMAN_BUCKET_SIZE
  getNetwork : Service → Network
  getNetClass : Service → Network
  isRoutable : Service → Bool
  isValid : Service → Bool
  netAddr : Service → NetAddr
  noService : Service
  noNetAddr : NetAddr

structure NetworkAddress (Service : Type) where
  service : Service
  nTime : Int
  nServices : Nat

structure AddrInfo (Service NetAddr : Type) where
  service : Service
  nTime : Int
  nServices : Nat
  source : NetAddr
  lastTry : Int := 0
  lastCountAttempt : Int := 0
  lastSuccess : Int := 0
  nAttempts : Nat := 0
  nRefCount : Int := 0
  fInTried : Bool := false
  nRandomPos : Int := -1

structure NewTriedCount where
  nNew : Int := 0
  nTried : Int := 0
  deriving DecidableEq, Repr

structure AddrMan (Service NetAddr : Type) where
  nIdCount : Int := 0
  mapInfo : Int → Option (AddrInfo Service NetAddr) := fun _ => none
  mapAddr : Service → Option Int := fun _ => none
  vRandom : List Int := []
  nTried : Int := 0
  vvTried : TriedSlot → Int := fun _ => -1
  nNew : Int := 0
  vvNew : NewSlot → Int := fun _ => -1
  lastGood : Int := 1
  triedCollisions : Finset Int := ∅
  networkCounts : Network → Option NewTriedCount := fun _ => none

/- A failed assert, and an id counter beyond the largest int. -/
inductive AddrError
  | asserts
  | overflow
  deriving DecidableEq, Repr

abbrev AddrResult := Except AddrError
def addrAssert (b : Bool) : AddrResult Unit := if b then .ok () else .error .asserts

section
variable {Service NetAddr : Type}
variable (env : AddrSpace Service NetAddr)
namespace AddrInfo
def isTerrible (info : AddrInfo Service NetAddr) (now : Int) : Bool :=
  if now-info.lastTry≤60 then false
  else if now+600 < info.nTime then true
  else if ADDRMAN_HORIZON<now-info.nTime then true
  else if info.lastSuccess=0 ∧ ADDRMAN_RETRIES ≤ info.nAttempts then true
  else if ADDRMAN_MIN_FAIL<now-info.lastSuccess ∧ ADDRMAN_MAX_FAILURES ≤ info.nAttempts then true
  else false
end AddrInfo
namespace AddrSpace
def triedSlot (service : Service) : TriedSlot :=
  (env.getTriedBucket service,env.getTriedPosition service (env.getTriedBucket service))

def newSlot (service : Service) (source : NetAddr) : NewSlot :=
  (env.getNewBucket service source,env.getNewPosition service (env.getNewBucket service source))

/- The entry that `operator[]` of mapInfo makes when there is none. -/
def defaultInfo : AddrInfo Service NetAddr where
  service := env.noService
  nTime := 100000000
  nServices := 0
  source := env.noNetAddr
end AddrSpace
namespace AddrMan
variable (s : AddrMan Service NetAddr)

/-- mapInfo[nId]: a missing entry is created. -/
def infoAt (nId : Int) : AddrMan Service NetAddr×AddrInfo Service NetAddr :=
  match s.mapInfo nId with
  | some info => (s,info)
  | none =>
    ({s with mapInfo := update s.mapInfo nId (some env.defaultInfo)},env.defaultInfo)

def modifyInfo (nId : Int) (f : AddrInfo Service NetAddr → AddrInfo Service NetAddr) :
    AddrMan Service NetAddr :=
  {s with mapInfo := update s.mapInfo nId ((s.mapInfo nId).map f)}
def refCount (nId : Int) : Int := ((s.mapInfo nId).map AddrInfo.nRefCount).getD 0
def countOf (network : Network) : NewTriedCount := (s.networkCounts network).getD {}
def addCounts (network : Network) (new tried : Int) : AddrMan Service NetAddr :=
  let count : NewTriedCount := ⟨(s.countOf network).nNew+new,(s.countOf network).nTried+tried⟩
  {s with networkCounts := update s.networkCounts network (some count)}

variable (addr : Service)

def find : Option (Int×AddrInfo Service NetAddr) := do
  let nId ← s.mapAddr addr
  let info ← s.mapInfo nId
  pure (nId,info)

def newInfo (addr : NetworkAddress Service) (addrSource : NetAddr) (nRandomPos : Int) :
    AddrInfo Service NetAddr where
  service := addr.service
  nTime := addr.nTime
  nServices := addr.nServices
  source := addrSource
  nRandomPos := nRandomPos

def create [DecidableEq Service] (addr : NetworkAddress Service) (addrSource : NetAddr) :
    AddrResult (Int×AddrMan Service NetAddr) :=
  if s.nIdCount=2^31-1 then .error .overflow
  else
    let nId := s.nIdCount
    let s := {s with
      nIdCount := s.nIdCount+1
      mapInfo := update s.mapInfo nId (some (newInfo addr addrSource s.vRandom.length))
      mapAddr := update s.mapAddr addr.service (some nId)
      vRandom := s.vRandom++[nId]
      nNew := s.nNew+1}
    .ok (nId,s.addCounts (env.getNetwork addr.service) 1 0)

def swapRandom (nRndPos1 nRndPos2 : Nat) : AddrResult (AddrMan Service NetAddr) :=
  if nRndPos1=nRndPos2 then .ok s
  else
    match s.vRandom[nRndPos1]?, s.vRandom[nRndPos2]? with
    | some nId1, some nId2 =>
      if (s.mapInfo nId1).isNone ∨ (s.mapInfo nId2).isNone then .error .asserts
      else
        let s := s.modifyInfo nId1 fun info => {info with nRandomPos := nRndPos2}
        let s := s.modifyInfo nId2 fun info => {info with nRandomPos := nRndPos1}
        .ok {s with vRandom := (s.vRandom.set nRndPos1 nId2).set nRndPos2 nId1}
    | _, _ => .error .asserts

def delete [DecidableEq Service] (nId : Int) : AddrResult (AddrMan Service NetAddr) :=
  match s.mapInfo nId with
  | none => .error .asserts
  | some info => do
    addrAssert (!info.fInTried)
    addrAssert (decide (info.nRefCount=0))
    let s ← s.swapRandom info.nRandomPos.toNat (s.vRandom.length-1)
    let s := s.addCounts (env.getNetwork info.service) (-1) 0
    pure {s with
      vRandom := s.vRandom.dropLast
      mapAddr := update s.mapAddr info.service none
      mapInfo := update s.mapInfo nId none
      nNew := s.nNew-1}

/- A new-table slot is emptied; the entry there has one reference less. -/
def dropRef (slot : NewSlot) (nId : Int) : AddrMan Service NetAddr :=
  {s.modifyInfo nId fun info => {info with nRefCount := info.nRefCount-1} with
    vvNew := update s.vvNew slot (-1)}

def clearNew [DecidableEq Service] (slot : NewSlot) : AddrResult (AddrMan Service NetAddr) :=
  if s.vvNew slot≠-1 then do
    let nIdDelete := s.vvNew slot
    let (s,infoDelete) := s.infoAt env nIdDelete
    addrAssert (decide (0 < infoDelete.nRefCount))
    let s := s.dropRef slot nIdDelete
    if infoDelete.nRefCount-1=0 then s.delete env nIdDelete else pure s
  else pure s

/- The loop of MakeTried over the new buckets, with the position the entry has in each. -/
def removeFromNew (nId : Int) (service : Service) :
    List (Fin ADDRMAN_NEW_BUCKET_COUNT) → AddrMan Service NetAddr → AddrMan Service NetAddr
  | [], s => s
  | bucket::buckets, s =>
    let slot : NewSlot := (bucket,env.getNewPosition service bucket)
    if s.vvNew slot=nId then
      let s := s.dropRef slot nId
      if s.refCount nId=0 then s
      else removeFromNew nId service buckets s
    else removeFromNew nId service buckets s

/- The buckets in the order of the loop, from that of the entry's own source. -/
def bucketsFrom (start : Fin ADDRMAN_NEW_BUCKET_COUNT) : List (Fin ADDRMAN_NEW_BUCKET_COUNT) :=
  (List.finRange ADDRMAN_NEW_BUCKET_COUNT).map fun n =>
    ⟨(start.val+n.val)%ADDRMAN_NEW_BUCKET_COUNT,Nat.mod_lt _ (by decide)⟩

/- The part of MakeTried that moves the entry of a tried slot back to the new table. -/
def evictTried [DecidableEq Service] (slot : TriedSlot) : AddrResult (AddrMan Service NetAddr) :=
  if s.vvTried slot≠-1 then
    let nIdEvict := s.vvTried slot
    match s.mapInfo nIdEvict with
    | none => .error .asserts
    | some infoOld => do
      let s := s.modifyInfo nIdEvict fun info => {info with fInTried := false}
      let s := {s with vvTried := update s.vvTried slot (-1), nTried := s.nTried-1}
      let s := s.addCounts (env.getNetwork infoOld.service) 0 (-1)
      let newSlot := env.newSlot infoOld.service infoOld.source
      let s ← s.clearNew env newSlot
      addrAssert (decide (s.vvNew newSlot=-1))
      let s := s.modifyInfo nIdEvict fun info => {info with nRefCount := 1}
      let s := {s with vvNew := update s.vvNew newSlot nIdEvict, nNew := s.nNew+1}
      pure (s.addCounts (env.getNetwork infoOld.service) 1 0)
  else pure s

def leaveNew (info : AddrInfo Service NetAddr) (nId : Int) : AddrMan Service NetAddr :=
  let s := removeFromNew env nId info.service
    (bucketsFrom (env.getNewBucket info.service info.source)) s
  let s := {s with nNew := s.nNew-1}
  s.addCounts (env.getNetwork info.service) (-1) 0

def enterTried (service : Service) (nId : Int) : AddrMan Service NetAddr :=
  let s := {s with
    vvTried := update s.vvTried (env.triedSlot service) nId, nTried := s.nTried+1}
  let s := s.modifyInfo nId fun info => {info with fInTried := true}
  s.addCounts (env.getNetwork service) 0 1

def makeTried [DecidableEq Service] (info : AddrInfo Service NetAddr) (nId : Int) :
    AddrResult (AddrMan Service NetAddr) := do
  let s := s.leaveNew env info nId
  addrAssert (decide (s.refCount nId=0))
  let s ← s.evictTried env (env.triedSlot info.service)
  addrAssert (decide (s.vvTried (env.triedSlot info.service)=-1))
  pure (s.enterTried env info.service nId)

/- What AddSingle does to an existing entry, and whether it goes on; `rand` is the random number. -/
def updateExisting (info : AddrInfo Service NetAddr) (addr : NetworkAddress Service)
    (timePenalty now : Int) (rand : Nat) : AddrInfo Service NetAddr×Bool :=
  let updateInterval : Int := if now-addr.nTime<24*3600 then 3600 else 24*3600
  let nTime := if info.nTime<addr.nTime-updateInterval-timePenalty then
    max 0 (addr.nTime-timePenalty) else info.nTime
  let info := {info with nTime := nTime, nServices := info.nServices ||| addr.nServices}
  (info,decide (info.nTime<addr.nTime) && !info.fInTried &&
    decide (info.nRefCount≠ADDRMAN_NEW_BUCKETS_PER_ADDRESS) &&
    (decide (info.nRefCount≤0) || decide (rand%2^info.nRefCount.toNat=0)))

def mayInsert (info : AddrInfo Service NetAddr) (slot : NewSlot) (now : Int) :
    AddrMan Service NetAddr×Bool :=
  if s.vvNew slot=-1 then (s,true)
  else
    let (s,infoExisting) := s.infoAt env (s.vvNew slot)
    (s,infoExisting.isTerrible now ||
      (decide (1 < infoExisting.nRefCount) && decide (info.nRefCount=0)))

def addRef (slot : NewSlot) (nId : Int) : AddrMan Service NetAddr :=
  {s.modifyInfo nId fun info => {info with nRefCount := info.nRefCount+1} with
    vvNew := update s.vvNew slot nId}

/- The end of AddSingle: the entry takes its slot for this source, or is deleted when it has no
   other. -/
def insertNew [DecidableEq Service] (nId : Int) (info : AddrInfo Service NetAddr)
    (source : NetAddr) (now : Int) : AddrResult (Bool×AddrMan Service NetAddr) :=
  let slot := env.newSlot info.service source
  if s.vvNew slot=nId then .ok (false,s)
  else
    let (s,fInsert) := s.mayInsert env info slot now
    if fInsert then do
      let s ← s.clearNew env slot
      pure (true,s.addRef slot nId)
    else if info.nRefCount=0 then do
      let s ← s.delete env nId
      pure (false,s)
    else .ok (false,s)

def addSingle [DecidableEq Service] [DecidableEq NetAddr] (addr : NetworkAddress Service)
    (source : NetAddr) (timePenalty now : Int) (rand : Nat) :
    AddrResult (Bool×AddrMan Service NetAddr) :=
  if !env.isRoutable addr.service then .ok (false,s)
  else
    let timePenalty := if env.netAddr addr.service=source then 0 else timePenalty
    match s.find addr.service with
    | some (nId,info) =>
      let (info,goesOn) := updateExisting info addr timePenalty now rand
      let s := s.modifyInfo nId fun _ => info
      if goesOn then s.insertNew env nId info source now else .ok (false,s)
    | none => do
      let (nId,s) ← s.create env addr source
      let s := s.modifyInfo nId fun info => {info with nTime := max 0 (info.nTime-timePenalty)}
      match s.mapInfo nId with
      | some info => s.insertNew env nId info source now
      | none => .error .asserts

/- The part of Good_ after the entry has been updated. -/
def moveToTried [DecidableEq Service] (nId : Int) (info : AddrInfo Service NetAddr)
    (testBeforeEvict : Bool) : AddrResult (Bool×AddrMan Service NetAddr) :=
  if info.fInTried then .ok (false,s)
  else if info.nRefCount≤0 then .ok (false,s)
  else if testBeforeEvict ∧ s.vvTried (env.triedSlot info.service)≠-1 then
    .ok (false,if s.triedCollisions.card<ADDRMAN_SET_TRIED_COLLISION_SIZE then
      {s with triedCollisions := insert nId s.triedCollisions} else s)
  else do
    let s ← s.makeTried env info nId
    pure (true,s)

def good [DecidableEq Service] (addr : Service) (testBeforeEvict : Bool) (time : Int) :
    AddrResult (Bool×AddrMan Service NetAddr) :=
  let s := {s with lastGood := time}
  match s.find addr with
  | none => .ok (false,s)
  | some (nId,info) =>
    let info := {info with lastSuccess := time, lastTry := time, nAttempts := 0}
    let s := s.modifyInfo nId fun _ => info
    s.moveToTried env nId info testBeforeEvict

/- Add_, with the clock and the random number for each address. -/
def add [DecidableEq Service] [DecidableEq NetAddr]
    (vAddr : List (NetworkAddress Service×Int×Nat)) (source : NetAddr) (timePenalty : Int) :
    AddrResult (AddrMan Service NetAddr) :=
  vAddr.foldlM (fun s entry => do
    let r ← s.addSingle env entry.1 source timePenalty entry.2.1 entry.2.2
    pure r.2) s

def modifyFound (f : AddrInfo Service NetAddr → AddrInfo Service NetAddr) :
    AddrMan Service NetAddr :=
  match s.find addr with
  | some (nId,_) => s.modifyInfo nId f
  | none => s

def attempt (fCountFailure : Bool) (time : Int) : AddrMan Service NetAddr :=
  s.modifyFound addr fun info =>
    let info := {info with lastTry := time}
    if fCountFailure ∧ info.lastCountAttempt < s.lastGood then
      {info with lastCountAttempt := time, nAttempts := info.nAttempts+1}
    else info
def connected (time : Int) : AddrMan Service NetAddr :=
  s.modifyFound addr fun info =>
    if 20*60<time-info.nTime then {info with nTime := time} else info

def setServices (nServices : Nat) : AddrMan Service NetAddr :=
  s.modifyFound addr fun info => {info with nServices := nServices}

/-- The random choices of a round of Select_: bucket, position, and whether the entry there is
accepted. -/
structure SelectDraw where
  bucket : Nat
  pos : Nat
  accepted : Bool

/- The loop of Select_ over one of the tables, for as many rounds as there are draws. -/
def selectFrom {n : Nat} (hn : 0<n) (table : Fin n×Fin ADDRMAN_BUCKET_SIZE → Int) :
    List SelectDraw → AddrResult (Option (AddrInfo Service NetAddr))
  | [] => .ok none
  | draw::draws =>
    let bucket : Fin n := ⟨draw.bucket%n,Nat.mod_lt _ hn⟩
    let ids := (List.range ADDRMAN_BUCKET_SIZE).map fun i =>
      table (bucket,⟨(draw.pos+i)%ADDRMAN_BUCKET_SIZE,Nat.mod_lt _ (by decide)⟩)
    match ids.find? fun nId => nId≠-1 with
    | none => selectFrom hn table draws
    | some nId =>
      match s.mapInfo nId with
      | none => .error .asserts
      | some info => if draw.accepted then .ok (some info) else selectFrom hn table draws

/-- Select_; no result when nothing is to be found, or within the draws. -/
def select (newOnly coin : Bool) (draws : List SelectDraw) :
    AddrResult (Option (AddrInfo Service NetAddr)) :=
  if s.vRandom=[] then .ok none
  else if newOnly ∧ s.nNew=0 then .ok none
  else if newOnly=false ∧ 0 < s.nTried ∧ (s.nNew=0 ∨ coin=false) then
    s.selectFrom (by decide : 0<ADDRMAN_TRIED_BUCKET_COUNT) s.vvTried draws
  else s.selectFrom (by decide : 0<ADDRMAN_NEW_BUCKET_COUNT) s.vvNew draws

/- The loop of GetAddr_ over the positions of vRandom; `rand` are the random numbers. -/
def getAddrLoop (nNodes : Nat) (network : Option Network) (now : Int) (rand : Nat → Nat) :
    List Nat → List (AddrInfo Service NetAddr) → AddrMan Service NetAddr →
      AddrResult (List (AddrInfo Service NetAddr)×AddrMan Service NetAddr)
  | [], addresses, s => .ok (addresses,s)
  | n::rest, addresses, s =>
    if nNodes≤addresses.length then .ok (addresses,s)
    else do
      let s ← s.swapRandom n (rand n%(s.vRandom.length-n)+n)
      match s.vRandom[n]?.bind s.mapInfo with
      | none => .error .asserts
      | some ai =>
        if (network.isSome ∧ some (env.getNetClass ai.service)≠network) ∨ ai.isTerrible now then
          getAddrLoop nNodes network now rand rest addresses s
        else getAddrLoop nNodes network now rand rest (addresses++[ai]) s

def getAddr (maxAddresses maxPct : Nat) (network : Option Network) (now : Int)
    (rand : Nat → Nat) : AddrResult (List (AddrInfo Service NetAddr)×AddrMan Service NetAddr) :=
  let nNodes := if maxPct≠0 then maxPct*s.vRandom.length/100 else s.vRandom.length
  let nNodes := if maxAddresses≠0 then min nNodes maxAddresses else nNodes
  getAddrLoop env nNodes network now rand (List.range s.vRandom.length) [] s

/- Whether a collision is settled, and whether the new entry replaces the old one then. -/
def settleCollision (infoNew infoOld : AddrInfo Service NetAddr) (currentTime : Int) : Bool×Bool :=
  if currentTime-infoOld.lastSuccess<ADDRMAN_REPLACEMENT then (true,false)
  else if currentTime-infoOld.lastTry<ADDRMAN_REPLACEMENT then
    if 60 < currentTime-infoOld.lastTry then (true,true) else (false,false)
  else if ADDRMAN_TEST_WINDOW < currentTime-infoNew.lastSuccess then (true,true)
  else (false,false)

/- One round of ResolveCollisions_; the flag is erase_collision. -/
def resolveCollision [DecidableEq Service] (idNew : Int) (currentTime : Int) :
    AddrResult (Bool×AddrMan Service NetAddr) :=
  match s.mapInfo idNew with
  | none => .ok (true,s)
  | some infoNew =>
    let slot := env.triedSlot infoNew.service
    if !env.isValid infoNew.service then .ok (true,s)
    else if s.vvTried slot≠-1 then
      let (s,infoOld) := s.infoAt env (s.vvTried slot)
      let settled := settleCollision infoNew infoOld currentTime
      if settled.2 then do
        let r ← s.good env infoNew.service false currentTime
        pure (settled.1,r.2)
      else .ok (settled.1,s)
    else do
      let r ← s.good env infoNew.service false currentTime
      pure (true,r.2)

/-- ResolveCollisions_; `clock` are the times read in the rounds. -/
def resolveCollisions [DecidableEq Service] (clock : Int → Int) :
    AddrResult (AddrMan Service NetAddr) :=
  (s.triedCollisions.sort (· ≤ ·)).foldlM (fun s idNew => do
    let r ← s.resolveCollision env idNew (clock idNew)
    pure (if r.1 then {r.2 with triedCollisions := r.2.triedCollisions.erase idNew} else r.2)) s

/-- SelectTriedCollision_; `pick` is the random number. -/
def selectTriedCollision (pick : Nat) : Option (AddrInfo Service NetAddr)×AddrMan Service NetAddr :=
  match (s.triedCollisions.sort (· ≤ ·))[pick%s.triedCollisions.card]? with
  | none => (none,s)
  | some idNew =>
    match s.mapInfo idNew with
    | none => (none,{s with triedCollisions := s.triedCollisions.erase idNew})
    | some newInfo =>
      let (s,infoOld) := s.infoAt env (s.vvTried (env.triedSlot newInfo.service))
      (some infoOld,s)
end AddrMan
end
end Xero
