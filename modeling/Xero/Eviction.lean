import Xero.AddrMan
import Xero.TxRequest
import Xero.Library.Loop
import Xero.Library.StdSort

/-! Which inbound peer is disconnected to make room: peers are protected by one property after the
other, and one of the rest is chosen. -/
namespace Xero.Eviction
open Library

inductive ConnectionType
  | INBOUND | OUTBOUND_FULL_RELAY | MANUAL | FEELER | BLOCK_RELAY | ADDR_FETCH
  deriving DecidableEq, Repr

/- The network is `none` for NET_MAX. -/
structure NodeEvictionCandidate where
  id : NodeId
  connected : Int
  minPingTime : Int
  lastBlockTime : Int
  lastTxTime : Int
  fRelevantServices : Bool
  relayTxs : Bool
  fBloomFilter : Bool
  nKeyedNetGroup : Nat
  preferEvict : Bool
  isLocal : Bool
  network : Option Network
  noban : Bool
  connType : ConnectionType
  deriving DecidableEq

abbrev Candidate := NodeEvictionCandidate
def reverseCompareNodeMinPingTime (a b : Candidate) : Bool := decide (b.minPingTime<a.minPingTime)
def reverseCompareNodeTimeConnected (a b : Candidate) : Bool := decide (b.connected<a.connected)
def compareNetGroupKeyed (a b : Candidate) : Bool := decide (a.nKeyedNetGroup<b.nKeyedNetGroup)
def compareNodeBlockTime (a b : Candidate) : Bool :=
  if a.lastBlockTime≠b.lastBlockTime then decide (a.lastBlockTime<b.lastBlockTime)
  else if a.fRelevantServices≠b.fRelevantServices then b.fRelevantServices
  else decide (b.connected<a.connected)

def compareNodeTXTime (a b : Candidate) : Bool :=
  if a.lastTxTime≠b.lastTxTime then decide (a.lastTxTime<b.lastTxTime)
  else if a.relayTxs≠b.relayTxs then b.relayTxs
  else if a.fBloomFilter≠b.fBloomFilter then a.fBloomFilter
  else decide (b.connected<a.connected)

def compareNodeBlockRelayOnlyTime (a b : Candidate) : Bool :=
  if a.relayTxs≠b.relayTxs then a.relayTxs
  else if a.lastBlockTime≠b.lastBlockTime then decide (a.lastBlockTime<b.lastBlockTime)
  else if a.fRelevantServices≠b.fRelevantServices then b.fRelevantServices
  else decide (b.connected<a.connected)
def compareNodeNetworkTime (isLocal : Bool) (network : Option Network) (a b : Candidate) : Bool :=
  if isLocal ∧ a.isLocal≠b.isLocal then b.isLocal
  else if decide (a.network=network)≠decide (b.network=network) then decide (b.network=network)
  else decide (b.connected<a.connected)

/- A failed assertion, an unsigned subtraction below zero, and the use of a missing variable or
element. -/
inductive EvictionError
  | asserts
  | underflow
  | undefined
  deriving DecidableEq, Repr

section
variable (std : StdSort Candidate) (comparator : Candidate → Candidate → Bool)

/- Of the sorted elements, those kept for sure and those that may be erased. -/
def splitLast (k : Nat) (elements : List Candidate) : List Candidate×List Candidate :=
  let sorted := std.sort comparator elements
  let eraseSize := min k sorted.length
  (sorted.take (sorted.length-eraseSize),sorted.drop (sorted.length-eraseSize))

def eraseLastKElements (k : Nat)
    (predicate : Candidate → Bool) (elements : List Candidate) : List Candidate :=
  (splitLast std comparator k elements).1++
    (splitLast std comparator k elements).2.filter fun n => !predicate n

variable (candidates : List Candidate)

def protectNoBanConnections : List Candidate :=
  candidates.filter fun n => !n.noban
def protectOutboundConnections : List Candidate :=
  candidates.filter fun n => decide (n.connType=.INBOUND)

structure Net where
  isLocal : Bool
  id : Option Network
  count : Nat

def Net.has (n : Net) (c : Candidate) : Bool :=
  if n.isLocal then c.isLocal else decide (c.network=n.id)

/- The disadvantaged networks with their numbers of candidates. -/
def countedNetworks : List Net :=
  ([⟨false,some .cjdns,0⟩,⟨false,some .i2p,0⟩,⟨true,none,0⟩,⟨false,some .onion,0⟩] : List Net).map
    fun n => {n with count := candidates.countP n.has}

structure Protection where
  candidates : List Candidate
  networks : List Net
  numProtected : Nat

/- The inner loop over the networks, which ends early when enough candidates are protected; the flag is
   protected_at_least_one. -/
def protectEach (maxProtect perNetwork : Nat) : List Net → List Candidate → Nat → Bool →
    Except EvictionError (Protection×Bool)
  | [], candidates, numProtected, any => .ok (⟨candidates,[],numProtected⟩,any)
  | n::networks, candidates, numProtected, any =>
    if n.count=0 then do
      let (p,any) ← protectEach maxProtect perNetwork networks candidates numProtected any
      pure ({p with networks := n::p.networks},any)
    else
      let after := eraseLastKElements std (compareNodeNetworkTime n.isLocal n.id) perNetwork n.has
        candidates
      if after.length < candidates.length then
        let delta := candidates.length-after.length
        if maxProtect≤numProtected+delta then
          .ok (⟨after,n::networks,numProtected+delta⟩,true)
        else do
          rejectIf (decide (n.count<delta)) .underflow
          let (p,any) ← protectEach maxProtect perNetwork networks after (numProtected+delta) true
          pure ({p with networks := {n with count := n.count-delta}::p.networks},any)
      else do
        let (p,any) ← protectEach maxProtect perNetwork networks after numProtected any
        pure ({p with networks := n::p.networks},any)

def protectRound (maxProtect : Nat) (p : Protection) :
    Except EvictionError (Protection ⊕ Protection) :=
  if p.numProtected < maxProtect then
    let numNetworks := p.networks.countP fun n => decide (n.count≠0)
    if numNetworks=0 then .ok (.inl p)
    else do
      let perNetwork := max ((maxProtect-p.numProtected)/numNetworks) 1
      let (p',any) ← protectEach std maxProtect perNetwork p.networks p.candidates
          p.numProtected false
      pure (if any then .inr p' else .inl p')
  else .ok (.inl p)

lemma protectEach_grows {m perNetwork : Nat} {networks : List Net} {candidates : List Candidate}
    {numProtected : Nat} {any a' : Bool} {p : Protection}
    (h : protectEach std m perNetwork networks candidates numProtected any=.ok (p,a')) :
    numProtected≤p.numProtected ∧ (a' → any ∨ numProtected<p.numProtected) := by
  induction networks generalizing candidates numProtected any p a' with
  | nil =>
    cases h
    exact ⟨le_refl _,.inl⟩
  | cons n networks ih =>
    unfold protectEach at h
    dsimp only at h
    split at h
    · rw [bind_eq_ok] at h
      obtain ⟨⟨p',a''⟩,hr,hp⟩ := h
      cases hp
      have hg := ih hr
      exact hg
    split at h
    · split at h
      · cases h
        exact ⟨by dsimp only; omega,fun _ => .inr (by dsimp only; omega)⟩
      · simp only [bind_eq_ok] at h
        obtain ⟨_,_,⟨p',a''⟩,hr,hp⟩ := h
        cases hp
        obtain ⟨_,-⟩ := ih hr
        exact ⟨by dsimp only; omega,fun _ => .inr (by dsimp only; omega)⟩
    · rw [bind_eq_ok] at h
      obtain ⟨⟨p',a''⟩,hr,hp⟩ := h
      cases hp
      have hg := ih hr
      exact hg

def protectLoop (maxProtect : Nat) : Loop Protection Protection EvictionError where
  body := protectRound std maxProtect
  measure := fun p => maxProtect-p.numProtected
  decreases := fun p p' h => by
    unfold protectRound at h
    split at h
    · dsimp only at h
      split at h
      · cases h
      rw [bind_eq_ok] at h
      obtain ⟨⟨p'',any⟩,hrest,hpure⟩ := h
      have hgrows := (protectEach_grows std hrest).2
      cases any with
      | false => cases hpure
      | true =>
        cases hpure
        have hlt := (hgrows rfl).resolve_left Bool.false_ne_true
        dsimp only
        omega
    · cases h

/-- The part of ProtectEvictionCandidatesByRatio that protects by network. -/
def protectByNetwork : Except EvictionError Protection :=
  (protectLoop std (candidates.length/2/2)).run
    ⟨candidates,(countedNetworks candidates).mergeSort fun a b => a.count≤b.count,0⟩

def protectEvictionCandidatesByRatio : Except EvictionError (List Candidate) := do
  let p ← protectByNetwork std candidates
  rejectIf (decide (p.numProtected≠candidates.length-p.candidates.length)) .asserts
  rejectIf (decide (candidates.length/2<p.numProtected)) .underflow
  pure (eraseLastKElements std reverseCompareNodeTimeConnected (candidates.length/2-p.numProtected)
    (fun _ => true) p.candidates)

def protectFixed : List Candidate :=
  let candidates := eraseLastKElements std compareNetGroupKeyed 4 (fun _ => true) candidates
  let candidates := eraseLastKElements std reverseCompareNodeMinPingTime 8 (fun _ =>
      true) candidates
  let candidates := eraseLastKElements std compareNodeTXTime 4 (fun _ => true) candidates
  let candidates := eraseLastKElements std compareNodeBlockRelayOnlyTime 8
    (fun n => !n.relayTxs && n.fRelevantServices) candidates
  eraseLastKElements std compareNodeBlockTime 4 (fun _ => true) candidates

/- Only the candidates preferred for eviction, if there are any. -/
def preferred : List Candidate :=
  if candidates.any fun n => n.preferEvict then candidates.filter fun n => n.preferEvict
  else candidates

structure Groups where
  mapNetGroupNodes : Nat → List Candidate := fun _ => []
  naMostConnections : Option Nat := none
  nMostConnections : Nat := 0
  nMostConnectionsTime : Int := 0

def addToGroup (g : Groups) (node : Candidate) : Groups :=
  let group := g.mapNetGroupNodes node.nKeyedNetGroup++[node]
  let mapNetGroupNodes := Function.update g.mapNetGroupNodes node.nKeyedNetGroup group
  let grouptime := (group.head?.map NodeEvictionCandidate.connected).getD 0
  if g.nMostConnections<group.length ∨
      group.length=g.nMostConnections ∧ g.nMostConnectionsTime<grouptime then
    ⟨mapNetGroupNodes,some node.nKeyedNetGroup,group.length,grouptime⟩
  else {g with mapNetGroupNodes}

/- The end of SelectNodeToEvict, for the unprotected candidates. -/
def chooseFrom : Except EvictionError (Option NodeId) :=
  if candidates=[] then .ok none
  else
    let g := (preferred candidates).foldl addToGroup {}
    match g.naMostConnections with
    | none => .error .undefined
    | some na =>
      match g.mapNetGroupNodes na with
      | [] => .error .undefined
      | node::_ => .ok (some node.id)

def selectNodeToEvict : Except EvictionError (Option NodeId) := do
  let candidates := protectOutboundConnections (protectNoBanConnections candidates)
  let candidates ← protectEvictionCandidatesByRatio std (protectFixed std candidates)
  chooseFrom candidates
end
end Xero.Eviction
