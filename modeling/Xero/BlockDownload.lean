import Xero.TxRequest
import Xero.Library.Ensures
import Xero.Library.Tally

/-! The blocks in flight: which block was asked from which peer, the queue of each peer, and the
counters. Elements of a queue are known by their list node, as iterators are. -/
namespace Xero
open Library List Option Finmap

structure QueuedBlock where
  node : Nat
  hash : Uint256
  partialBlock : Bool
  deriving DecidableEq, Repr

/- The counts here and below are ints in the source: the model follows it while fewer than 2^31 blocks
are in flight. -/
structure NodeState where
  vBlocksInFlight : List QueuedBlock := []
  nBlocksInFlight : Int := 0
  downloadingSince : Int := 0
  stallingSince : Int := 0

structure BlockDownload where
  nodeStates : Finmap fun _ : NodeId => NodeState := ∅
  mapBlocksInFlight : Finmap fun _ : Uint256 => NodeId×Nat := ∅
  peersDownloadingFrom : Int := 0
  nextNode : Nat := 0

/- A failed assertion or use of an invalid iterator, and a call for a peer that is not connected. -/
inductive DownloadError
  | asserts
  | notConnected
  deriving DecidableEq, Repr

namespace BlockDownload
variable (s : BlockDownload)

def initializeNode (nodeid : NodeId) : BlockDownload :=
  match s.nodeStates.lookup nodeid with
  | some _ => s
  | none => {s with nodeStates := s.nodeStates.insert nodeid {}}

def unqueue (state : NodeState) (node : Nat) (now : Int) : NodeState where
  downloadingSince :=
    if state.vBlocksInFlight.head?.map QueuedBlock.node=some node
        then max state.downloadingSince now
    else state.downloadingSince
  vBlocksInFlight := state.vBlocksInFlight.eraseP fun entry => entry.node=node
  nBlocksInFlight := state.nBlocksInFlight-1
  stallingSince := 0

def removeBlockRequest (hash : Uint256) (fromPeer : Option NodeId) (now : Int) :
    Except DownloadError BlockDownload :=
  match s.mapBlocksInFlight.lookup hash with
  | none => .ok s
  | some (nodeid,node) =>
    if fromPeer.isSome ∧ fromPeer≠some nodeid then .ok s
    else
      match s.nodeStates.lookup nodeid with
      | none => .error .asserts
      | some state => do
        rejectIf (state.vBlocksInFlight.all fun entry => entry.node≠node) .asserts
        let state := unqueue state node now
        pure {s with
          nodeStates := s.nodeStates.insert nodeid state
          peersDownloadingFrom :=
            if state.nBlocksInFlight=0 then s.peersDownloadingFrom-1 else s.peersDownloadingFrom
          mapBlocksInFlight := s.mapBlocksInFlight.erase hash}

def enqueue (state : NodeState) (entry : QueuedBlock) (now : Int) : NodeState where
  vBlocksInFlight := state.vBlocksInFlight++[entry]
  nBlocksInFlight := state.nBlocksInFlight+1
  downloadingSince := if state.nBlocksInFlight+1=1 then now else state.downloadingSince
  stallingSince := state.stallingSince

/-- BlockRequested; `pit` says whether the caller wants the queued block, which is the second part of
the result. -/
def blockRequested (nodeid : NodeId) (hash : Uint256) (pit : Bool) (now : Int) :
    Except DownloadError ((Bool×Nat)×BlockDownload) := do
  rejectIf (s.nodeStates.lookup nodeid).isNone .notConnected
  match (s.mapBlocksInFlight.lookup hash).filter fun inFlight => inFlight.1=nodeid with
  | some (_,node) => pure ((false,node),s)
  | none => do
    let s ← s.removeBlockRequest hash none now
    match s.nodeStates.lookup nodeid with
    | none => .error .asserts
    | some state =>
      let entry : QueuedBlock := ⟨s.nextNode,hash,pit⟩
      let state := enqueue state entry now
      pure ((true,entry.node),{s with
        nodeStates := s.nodeStates.insert nodeid state
        peersDownloadingFrom :=
          if state.nBlocksInFlight=1 then s.peersDownloadingFrom+1 else s.peersDownloadingFrom
        mapBlocksInFlight := s.mapBlocksInFlight.insert hash (nodeid,entry.node)
        nextNode := s.nextNode+1})

/-- The part of FinalizeNode that concerns downloads. -/
def finalizeNode (nodeid : NodeId) : Except DownloadError BlockDownload :=
  match s.nodeStates.lookup nodeid with
  | none => .error .notConnected
  | some state => do
    let mapBlocksInFlight := state.vBlocksInFlight.foldl (fun m entry => m.erase entry.hash)
      s.mapBlocksInFlight
    let peersDownloadingFrom := s.peersDownloadingFrom-if state.nBlocksInFlight≠0 then 1 else 0
    rejectIf (decide (peersDownloadingFrom<0)) .asserts
    let nodeStates := s.nodeStates.erase nodeid
    rejectIf (decide (nodeStates.keys.card=0) && decide (mapBlocksInFlight.keys.card≠0)) .asserts
    rejectIf (decide (nodeStates.keys.card=0) && decide (peersDownloadingFrom≠0)) .asserts
    pure {s with nodeStates, mapBlocksInFlight, peersDownloadingFrom}
end BlockDownload

inductive DownloadCall
  | initializeNode (nodeid : NodeId)
  | blockRequested (nodeid : NodeId) (hash : Uint256) (pit : Bool) (now : Int)
  | removeBlockRequest (hash : Uint256) (fromPeer : Option NodeId) (now : Int)
  | finalizeNode (nodeid : NodeId)
  deriving DecidableEq, Repr

namespace BlockDownload
def call (s : BlockDownload) : DownloadCall → Except DownloadError BlockDownload
  | .initializeNode nodeid => .ok (s.initializeNode nodeid)
  | .blockRequested nodeid hash pit now => do
    let r ← s.blockRequested nodeid hash pit now
    pure r.2
  | .removeBlockRequest hash fromPeer now => s.removeBlockRequest hash fromPeer now
  | .finalizeNode nodeid => s.finalizeNode nodeid

def run (calls : List DownloadCall) (s : BlockDownload) : Except DownloadError BlockDownload :=
  calls.foldlM call s
def busy (state : NodeState) : Int := if state.vBlocksInFlight=[] then 0 else 1

/-- The map and the queues have the same blocks, and the counters are right. -/
structure Consistent (s : BlockDownload) : Prop where
  inFlight : ∀ hash nodeid node, s.mapBlocksInFlight.lookup hash=some (nodeid,node) ↔
    ∃ state, s.nodeStates.lookup nodeid=some state ∧
      ∃ entry∈state.vBlocksInFlight, entry.node=node ∧ entry.hash=hash
  nodup : ∀ nodeid state, s.nodeStates.lookup nodeid=some state →
    (state.vBlocksInFlight.map QueuedBlock.node).Nodup
  count : ∀ nodeid state, s.nodeStates.lookup nodeid=some state →
    state.nBlocksInFlight=state.vBlocksInFlight.length
  downloading : s.peersDownloadingFrom=total s.nodeStates busy
  fresh : ∀ nodeid state, s.nodeStates.lookup nodeid=some state →
    ∀ entry∈state.vBlocksInFlight, entry.node < s.nextNode

variable {s : BlockDownload} {nodeid : NodeId} {state : NodeState} {node : Nat} {hash : Uint256}

lemma busy_nonneg (state : NodeState) : 0≤busy state := by
  unfold busy
  split <;> decide

lemma eraseP_eq_filter {e : List QueuedBlock} (h : (e.map QueuedBlock.node).Nodup)
    (node : Nat) : (e.eraseP fun entry => entry.node=node)=
      e.filter fun entry => entry.node≠node := by
  induction e with
  | nil => rfl
  | cons entry e ih =>
    rw [map_cons,nodup_cons] at h
    by_cases he : entry.node=node
    · have hn : ∀ e'∈e, e'.node≠node := fun e' hm he' =>
        h.1 (he ▸ he' ▸ mem_map_of_mem hm)
      rw [eraseP_cons_of_pos (by simpa using he),filter_cons_of_neg (by simpa using he)]
      exact (filter_eq_self.mpr fun e' hm => by simpa using hn e' hm).symm
    · rw [eraseP_cons_of_neg (by simpa using he),filter_cons_of_pos (by simpa using he),ih h.2]

lemma mem_unqueue (h : (state.vBlocksInFlight.map QueuedBlock.node).Nodup) (node : Nat) (now : Int)
    (e : QueuedBlock) : e∈(unqueue state node now).vBlocksInFlight ↔
      e∈state.vBlocksInFlight ∧ e.node≠node := by
  rw [unqueue,eraseP_eq_filter h]
  simp

namespace Consistent
section
variable (h : Consistent s)
include h

lemma entry_unique (hs : s.nodeStates.lookup nodeid=some state) {e e' : QueuedBlock}
    (hm : e∈state.vBlocksInFlight) (hm' : e'∈state.vBlocksInFlight) (he : e.node=e'.node) : e=e' :=
  inj_on_of_nodup_map (h.nodup nodeid state hs) hm hm' he

lemma setPeer {t : BlockDownload} {new : NodeState}
    (hp : t.nodeStates=s.nodeStates.insert nodeid new)
    (hi : ∀ hash' nodeid' node', t.mapBlocksInFlight.lookup hash'=some (nodeid',node') ↔
      if nodeid'=nodeid then ∃ entry∈new.vBlocksInFlight, entry.node=node' ∧ entry.hash=hash'
      else s.mapBlocksInFlight.lookup hash'=some (nodeid',node'))
    (hnd : (new.vBlocksInFlight.map QueuedBlock.node).Nodup)
    (hc : new.nBlocksInFlight=new.vBlocksInFlight.length)
    (hd : t.peersDownloadingFrom=
      s.peersDownloadingFrom-(s.nodeStates.lookup nodeid).elim 0 busy+busy new)
    (hf : ∀ entry∈new.vBlocksInFlight, entry.node<t.nextNode)
    (hn : s.nextNode≤t.nextNode) : Consistent t := by
  have hs : t.nodeStates.lookup nodeid=some new := hp ▸ lookup_insert _
  have hot {nodeid'} (hne : nodeid'≠nodeid) :
      t.nodeStates.lookup nodeid'=s.nodeStates.lookup nodeid' :=
    hp ▸ lookup_insert_of_ne _ hne
  have hcs {nodeid' s'} (hst' : t.nodeStates.lookup nodeid'=some s') :
      s'=new ∨ s.nodeStates.lookup nodeid'=some s' := by
    by_cases hne : nodeid'=nodeid
    · rw [hne,hs] at hst'
      exact .inl (some.inj hst').symm
    · exact .inr (hot hne ▸ hst')
  refine ⟨fun hash' nodeid' node' => ?_,fun nodeid' s' hst' => ?_,
    fun nodeid' s' hst' => ?_,?_,fun nodeid' s' hst' entry he => ?_⟩
  · rw [hi]
    by_cases hne : nodeid'=nodeid
    · subst hne
      simp [hs]
    · rw [if_neg hne,h.inFlight,hot hne]
  · obtain rfl | ho := hcs hst'
    · exact hnd
    · exact h.nodup nodeid' s' ho
  · obtain rfl | ho := hcs hst'
    · exact hc
    · exact h.count nodeid' s' ho
  · rw [hd,hp,total_insert,h.downloading]
  · obtain rfl | ho := hcs hst'
    · exact hf entry he
    · exact Nat.lt_of_lt_of_le (h.fresh nodeid' s' ho entry he) hn

lemma removeFound (hf : s.mapBlocksInFlight.lookup hash=some (nodeid,node))
    (now : Int) : ∃ state, s.nodeStates.lookup nodeid=some state ∧
      (state.vBlocksInFlight.all fun entry => entry.node≠node)=false ∧
      Consistent {s with
        nodeStates := s.nodeStates.insert nodeid (unqueue state node now)
        peersDownloadingFrom := if (unqueue state node now).nBlocksInFlight=0 then
          s.peersDownloadingFrom-1 else s.peersDownloadingFrom
        mapBlocksInFlight := s.mapBlocksInFlight.erase hash} := by
  obtain ⟨state,hst,entry,he,hn,hh⟩ := (h.inFlight hash nodeid node).mp hf
  have hnd := h.nodup nodeid state hst
  have hm := mem_unqueue hnd node now
  have hl : (unqueue state node now).vBlocksInFlight.length+1=state.vBlocksInFlight.length := by
    have her := length_eraseP_of_mem (p := fun entry => decide (entry.node=node)) he
      (by simpa using hn)
    have hp := length_pos_of_mem he
    show (state.vBlocksInFlight.eraseP _).length+1=_
    omega
  have hc : (unqueue state node now).nBlocksInFlight=
      (unqueue state node now).vBlocksInFlight.length := by
    have hol := h.count nodeid state hst
    show state.nBlocksInFlight-1=_
    omega
  refine ⟨state,hst,by simpa using ⟨entry,he,hn⟩,h.setPeer rfl ?_
    (((eraseP_sublist).map QueuedBlock.node).nodup hnd) hc ?_
    (fun e' he' => h.fresh nodeid state hst e' ((hm e').mp he').1) le_rfl⟩
  · intro hash' n' no'
    by_cases heq : hash'=hash
    · subst heq
      rw [lookup_erase]
      refine iff_of_false nofun ?_
      split
      · intro ⟨e',he',_,hh'⟩
        obtain ⟨he',ho⟩ := (hm e').mp he'
        have hs := (h.inFlight hash' nodeid e'.node).mpr ⟨state,hst,e',he',rfl,hh'⟩
        rw [hf] at hs
        cases hs
        exact ho rfl
      · rename_i hne
        rw [hf]
        rintro ⟨⟩
        exact hne rfl
    · rw [lookup_erase_ne heq]
      split
      · rename_i hs
        subst hs
        simp only [h.inFlight,hst,some.injEq,exists_eq_left']
        refine exists_congr fun e' => ?_
        rw [hm,and_assoc]
        refine and_congr_right fun he' => (and_iff_right_of_imp ?_).symm
        intro ⟨_,hh'⟩ hn'
        rw [h.entry_unique hst he' he (hn'.trans hn.symm)] at hh'
        exact heq (hh'.symm.trans hh)
      · rfl
  · have hb : busy state=1 := if_neg (ne_nil_of_mem he)
    rw [hst,elim_some,hb,hc,busy]
    by_cases hem : (unqueue state node now).vBlocksInFlight=[]
    · simp [hem]
    · rw [if_neg hem,if_neg (by simpa using hem)]
      show s.peersDownloadingFrom=s.peersDownloadingFrom-1+1
      omega

lemma removeBlockRequest (hash : Uint256) (fp : Option NodeId)
    (now : Int) : ∃ s', s.removeBlockRequest hash fp now=.ok s' ∧ Consistent s' ∧
      (fp=none → s'.mapBlocksInFlight.lookup hash=none) ∧
      ∀ nodeid, (s'.nodeStates.lookup nodeid).isSome=(s.nodeStates.lookup nodeid).isSome := by
  unfold BlockDownload.removeBlockRequest
  cases hf : s.mapBlocksInFlight.lookup hash with
  | none => exact ⟨s,rfl,h,fun _ => hf,fun _ => rfl⟩
  | some i =>
    obtain ⟨nodeid,_⟩ := i
    dsimp only
    by_cases hp : fp.isSome ∧ fp≠some nodeid
    · rw [if_pos hp]
      refine ⟨s,rfl,h,fun hn => ?_,fun _ => rfl⟩
      rw [hn] at hp
      exact absurd hp.1 Bool.false_ne_true
    · rw [if_neg hp]
      obtain ⟨_,hs,he,hc⟩ := h.removeFound hf now
      simp only [hs,rejectIf,he,if_neg Bool.false_ne_true,ok_bind,pure_ok]
      refine ⟨_,rfl,hc,fun _ => lookup_erase ..,fun nodeid' => ?_⟩
      by_cases hne : nodeid'=nodeid
      · subst hne
        rw [lookup_insert,hs]
        rfl
      · rw [lookup_insert_of_ne _ hne]

lemma enqueue (hst : s.nodeStates.lookup nodeid=some state)
    (hno : s.mapBlocksInFlight.lookup hash=none) (pit : Bool) (now : Int) :
    Consistent {s with
      nodeStates := s.nodeStates.insert nodeid
        (BlockDownload.enqueue state ⟨s.nextNode,hash,pit⟩ now)
      peersDownloadingFrom :=
        if (BlockDownload.enqueue state ⟨s.nextNode,hash,pit⟩ now).nBlocksInFlight=1 then
          s.peersDownloadingFrom+1 else s.peersDownloadingFrom
      mapBlocksInFlight := s.mapBlocksInFlight.insert hash (nodeid,s.nextNode)
      nextNode := s.nextNode+1} := by
  generalize he : (⟨s.nextNode,hash,pit⟩ : QueuedBlock)=entry
  have hn : entry.node=s.nextNode := by rw [← he]
  have hh : entry.hash=hash := by rw [← he]
  have hm : ∀ e', e'∈(BlockDownload.enqueue state entry now).vBlocksInFlight ↔
      e'∈state.vBlocksInFlight ∨ e'=entry := by
    simp [BlockDownload.enqueue]
  have hnt : ∀ e'∈state.vBlocksInFlight, e'.hash≠hash := by
    intro e' he' hh'
    have hi := (h.inFlight hash nodeid e'.node).mpr ⟨state,hst,e',he',rfl,hh'⟩
    rw [hno] at hi
    cases hi
  have hc := h.count nodeid state hst
  refine h.setPeer rfl ?_ ?_ ?_ ?_ ?_ (Nat.le_succ _)
  · intro hash' no' n'
    by_cases heq : hash'=hash
    · subst heq
      rw [lookup_insert,hno]
      split
      · rename_i hs
        subst hs
        constructor
        · intro hi
          cases hi
          exact ⟨entry,(hm entry).mpr (.inr rfl),hn,hh⟩
        · intro ⟨e',he',hn',hh'⟩
          obtain ho | rfl := (hm e').mp he'
          · exact absurd hh' (hnt e' ho)
          · rw [← hn',hn]
      · rename_i hne
        refine iff_of_false ?_ nofun
        rintro ⟨⟩
        exact hne rfl
    · rw [lookup_insert_of_ne _ heq]
      split
      · rename_i hs
        subst hs
        simp only [h.inFlight,hst,some.injEq,exists_eq_left']
        refine exists_congr fun e' => ?_
        rw [hm]
        refine and_congr_left fun he' => (or_iff_left ?_).symm
        intro hs
        rw [hs,hh] at he'
        exact heq he'.2.symm
      · rfl
  · show ((state.vBlocksInFlight++[entry]).map QueuedBlock.node).Nodup
    rw [map_append,map_singleton,nodup_append]
    refine ⟨h.nodup nodeid state hst,nodup_singleton _,fun n' hn' n'' hn'' => ?_⟩
    obtain ⟨e',he',rfl⟩ := mem_map.mp hn'
    have hl := h.fresh nodeid state hst e' he'
    rw [mem_singleton.mp hn'',hn]
    exact hl.ne
  · show state.nBlocksInFlight+1=((state.vBlocksInFlight++[entry]).length : Int)
    rw [length_append,length_singleton]
    omega
  · have hb : busy (BlockDownload.enqueue state entry now)=1 :=
        if_neg (by simp [BlockDownload.enqueue])
    rw [hst,elim_some,hb,busy]
    show (if state.nBlocksInFlight+1=1 then _ else _)=_
    rw [hc]
    by_cases hem : state.vBlocksInFlight=[]
    · simp [hem]
    · rw [if_neg hem,if_neg (by simpa using hem)]
      omega
  · intro e' he'
    show e'.node < s.nextNode+1
    obtain ho | rfl := (hm e').mp he'
    · have hl := h.fresh nodeid state hst e' ho
      omega
    · omega

lemma blockRequested (nodeid : NodeId) (hash : Uint256) (pit : Bool) (now : Int) :
    Ensures (fun e => e=.notConnected) (fun r => Consistent r.2)
      (s.blockRequested nodeid hash pit now) := by
  refine Ensures.bind (Ensures.rejectIf fun _ => rfl) fun _ hc => ?_
  split
  · exact h
  · obtain ⟨s',ho,hs',hn,hs⟩ := h.removeBlockRequest hash none now
    rw [ho]
    have hst : (s'.nodeStates.lookup nodeid).isSome := by
      rw [hs]
      cases hl : s.nodeStates.lookup nodeid with
      | none => simp [hl] at hc
      | some state => rfl
    obtain ⟨state,hst⟩ := isSome_iff_exists.mp hst
    show Ensures _ _ (match s'.nodeStates.lookup nodeid with
      | none => _
      | some state => _)
    rw [hst]
    exact hs'.enqueue hst (hn rfl) pit now

lemma initializeNode (nodeid : NodeId) : Consistent (s.initializeNode nodeid) := by
  unfold BlockDownload.initializeNode
  cases hl : s.nodeStates.lookup nodeid with
  | some state => exact h
  | none =>
    refine h.setPeer rfl (fun hash' n' no' => ?_) nodup_nil rfl ?_ nofun le_rfl
    · by_cases hs : n'=nodeid
      · rw [if_pos hs]
        refine iff_of_false (fun hi => ?_) fun ⟨_,he,_⟩ => nomatch he
        obtain ⟨state,hst,_⟩ := (h.inFlight hash' n' no').mp hi
        rw [hs,hl] at hst
        cases hst
      · rw [if_neg hs]
    · rw [hl]
      show s.peersDownloadingFrom=s.peersDownloadingFrom-0+0
      omega
end

lemma lookup_eraseAll (e : List QueuedBlock) (m : Finmap fun _ : Uint256 => NodeId×Nat)
    (hash : Uint256) : (e.foldl (fun m entry => m.erase entry.hash) m).lookup hash=
      if ∃ entry∈e, entry.hash=hash then none else m.lookup hash := by
  induction e generalizing m with
  | nil => simp
  | cons entry e ih =>
    rw [foldl_cons,ih]
    by_cases hi : ∃ e'∈e, e'.hash=hash
    · obtain ⟨e',he',hh⟩ := hi
      rw [if_pos ⟨e',he',hh⟩,if_pos ⟨e',mem_cons_of_mem _ he',hh⟩]
    · rw [if_neg hi]
      by_cases heq : entry.hash=hash
      · rw [if_pos ⟨entry,mem_cons_self,heq⟩,heq,lookup_erase]
      · rw [lookup_erase_ne (fun heq' => heq heq'.symm),if_neg]
        intro ⟨e',he',hh⟩
        obtain rfl | he' := mem_cons.mp he'
        · exact heq hh
        · exact hi ⟨e',he',hh⟩

section
variable (h : Consistent s)
include h

lemma erasePeer (hs : s.nodeStates.lookup nodeid=some state) : Consistent {s with
      nodeStates := s.nodeStates.erase nodeid
      mapBlocksInFlight := state.vBlocksInFlight.foldl (fun m e => m.erase e.hash)
        s.mapBlocksInFlight
      peersDownloadingFrom := s.peersDownloadingFrom-if state.nBlocksInFlight≠0 then 1 else 0} := by
  have hc : ∀ n' s', (s.nodeStates.erase nodeid).lookup n'=some s' →
      n'≠nodeid ∧ s.nodeStates.lookup n'=some s' := by
    intro n' s' hs'
    by_cases hne : n'=nodeid
    · rw [hne,lookup_erase] at hs'
      cases hs'
    · exact ⟨hne,lookup_erase_ne hne ▸ hs'⟩
  refine ⟨fun hash' n' no' => ?_,fun n' s' hs' => ?_,fun n' s' hs' => ?_,?_,fun n' s' hs' => ?_⟩
  · rw [lookup_eraseAll]
    constructor
    · intro hi
      by_cases hg : ∃ e∈state.vBlocksInFlight, e.hash=hash'
      · rw [if_pos hg] at hi
        cases hi
      · rw [if_neg hg] at hi
        obtain ⟨s',hs',e,he,hn,hh⟩ := (h.inFlight hash' n' no').mp hi
        have hne : n'≠nodeid := by
          intro heq
          rw [heq,hs] at hs'
          cases hs'
          exact hg ⟨e,he,hh⟩
        exact ⟨s',(lookup_erase_ne hne).trans hs',e,he,hn,hh⟩
    · intro ⟨s',hs',he⟩
      obtain ⟨hne,hol⟩ := hc n' s' hs'
      have hi := (h.inFlight hash' n' no').mpr ⟨s',hol,he⟩
      rw [if_neg,hi]
      intro ⟨e',he',hh'⟩
      have ho := (h.inFlight hash' nodeid e'.node).mpr ⟨state,hs,e',he',rfl,hh'⟩
      rw [hi] at ho
      cases ho
      exact hne rfl
  · exact h.nodup n' s' (hc n' s' hs').2
  · exact h.count n' s' (hc n' s' hs').2
  · rw [total_erase,hs,elim_some,h.downloading,h.count nodeid state hs,busy]
    by_cases hem : state.vBlocksInFlight=[]
    · simp [hem]
    · rw [if_neg hem,if_pos (by simpa using hem)]
  · exact h.fresh n' s' (hc n' s' hs').2

lemma empty (hpe : s.nodeStates.keys.card=0) :
    s.mapBlocksInFlight.keys.card=0 ∧ s.peersDownloadingFrom=0 := by
  have hk := Finset.card_eq_zero.mp hpe
  constructor
  · refine Finset.card_eq_zero.mpr (Finset.eq_empty_of_forall_notMem fun hash hm => ?_)
    obtain ⟨⟨nodeid,node⟩,hi⟩ := mem_iff.mp (mem_keys.mp hm)
    obtain ⟨_,hs,-⟩ := (h.inFlight hash nodeid node).mp hi
    have hp := mem_keys.mpr (mem_of_lookup_eq_some hs)
    rw [hk] at hp
    exact Finset.notMem_empty nodeid hp
  · rw [h.downloading,total,hk]
    rfl

lemma finalizeNode (nodeid : NodeId) :
    Ensures (fun e => e=.notConnected) Consistent (s.finalizeNode nodeid) := by
  unfold BlockDownload.finalizeNode
  cases hs : s.nodeStates.lookup nodeid with
  | none => exact rfl
  | some state =>
    have hs' := h.erasePeer hs
    dsimp only
    generalize s.peersDownloadingFrom-(if state.nBlocksInFlight≠0 then 1 else 0)=peers at hs' ⊢
    generalize state.vBlocksInFlight.foldl (fun m entry => m.erase entry.hash)
      s.mapBlocksInFlight=inFlight at hs' ⊢
    have hn : 0≤peers := by
      have hd := hs'.downloading
      dsimp only at hd
      rw [hd]
      exact total_nonneg busy_nonneg
    have he : (s.nodeStates.erase nodeid).keys.card=0 → inFlight.keys.card=0 ∧ peers=0 := hs'.empty
    have hm : (decide ((s.nodeStates.erase nodeid).keys.card=0) &&
        decide (inFlight.keys.card≠0))=false := by
      by_cases hc : (s.nodeStates.erase nodeid).keys.card=0
      · simp [(he hc).1]
      · simp only [hc,decide_false,Bool.false_and]
    have hp : (decide ((s.nodeStates.erase nodeid).keys.card=0) && decide (peers≠0))=false := by
      by_cases hc : (s.nodeStates.erase nodeid).keys.card=0
      · simp [(he hc).2]
      · simp only [hc,decide_false,Bool.false_and]
    simp only [rejectIf,decide_eq_false (not_lt.mpr hn),hm,hp,if_neg Bool.false_ne_true]
    exact hs'

lemma call (c : DownloadCall) : Ensures (fun e => e=.notConnected) Consistent (s.call c) := by
  cases c with
  | initializeNode nodeid => exact h.initializeNode nodeid
  | blockRequested nodeid hash p n =>
    exact Ensures.bind (h.blockRequested nodeid hash p n) fun r hr => hr
  | removeBlockRequest hash f n =>
    obtain ⟨_,ho,hs',-⟩ := h.removeBlockRequest hash f n
    rw [BlockDownload.call,ho]
    exact hs'
  | finalizeNode nodeid => exact h.finalizeNode nodeid

lemma run (ca : List DownloadCall) :
    Ensures (fun e => e=.notConnected) Consistent (BlockDownload.run ca s) :=
  Ensures.foldlM_keeps (fun _ c _ hs => hs.call c) h
end
end Consistent

lemma consistent_init : Consistent {} where
  inFlight := fun hash nodeid node => by simp
  nodup := fun nodeid state hs => by simp at hs
  count := fun nodeid state hs => by simp at hs
  downloading := rfl
  fresh := fun nodeid state hs => by simp at hs

/-- The bookkeeping as a whole: the map of the blocks in flight, the queues and the counters. -/
structure Bookkept (s : BlockDownload) : Prop where
  inFlight : ∀ hash nodeid node, s.mapBlocksInFlight.lookup hash=some (nodeid,node) ↔
    ∃ state, s.nodeStates.lookup nodeid=some state ∧
      ∃ entry∈state.vBlocksInFlight, entry.node=node ∧ entry.hash=hash
  positions : ∀ nodeid state, s.nodeStates.lookup nodeid=some state →
    (state.vBlocksInFlight.map QueuedBlock.node).Nodup
  once : ∀ nodeid state, s.nodeStates.lookup nodeid=some state →
    (state.vBlocksInFlight.map QueuedBlock.hash).Nodup
  oneQueue : ∀ nodeid state nodeid' state', s.nodeStates.lookup nodeid=some state →
    s.nodeStates.lookup nodeid'=some state' → ∀ entry∈state.vBlocksInFlight,
      ∀ entry'∈state'.vBlocksInFlight, entry.hash=entry'.hash → nodeid=nodeid'
  count : ∀ nodeid state, s.nodeStates.lookup nodeid=some state →
    state.nBlocksInFlight=state.vBlocksInFlight.length
  downloading : s.peersDownloadingFrom=(s.nodeStates.keys.filter fun nodeid =>
    (s.nodeStates.lookup nodeid).elim false fun state => decide (state.vBlocksInFlight≠[])).card

lemma Consistent.bookkept (h : Consistent s) : Bookkept s := by
  refine ⟨h.inFlight,h.nodup,fun nodeid state hs => ?_,?_,h.count,?_⟩
  · have hi : ∀ e∈state.vBlocksInFlight, ∀ e'∈state.vBlocksInFlight,e.hash=e'.hash → e=e' := by
      intro e he e' he' heq
      have hin := (h.inFlight _ nodeid _).mpr ⟨state,hs,e,he,rfl,rfl⟩
      rw [(h.inFlight _ nodeid _).mpr ⟨state,hs,e',he',rfl,heq.symm⟩] at hin
      simp only [some.injEq,Prod.mk.injEq,true_and] at hin
      exact h.entry_unique hs he he' hin.symm
    exact (nodup_map_iff_inj_on (List.Nodup.of_map _ (h.nodup nodeid state hs))).mpr hi
  · intro nodeid state n' s' hs hs' e he e' he' heq
    have hin := (h.inFlight _ nodeid _).mpr ⟨state,hs,e,he,rfl,rfl⟩
    rw [(h.inFlight _ n' _).mpr ⟨s',hs',e',he',rfl,heq.symm⟩] at hin
    simp only [some.injEq,Prod.mk.injEq] at hin
    exact hin.1.symm
  · have hb : busy=fun state => if decide (state.vBlocksInFlight≠[]) then 1 else 0 := by
      funext state
      unfold busy
      by_cases hem : state.vBlocksInFlight=[] <;> simp [hem]
    rw [h.downloading,total,hb,tally_eq_card]

/-- After every sequence of calls the bookkeeping is right, and no assertion has failed but that a
call was made for a peer that is not connected. -/
theorem run_bookkept (calls : List DownloadCall) (hconnected : run calls {}≠.error .notConnected) :
    ∃ s, run calls {}=.ok s ∧ Bookkept s := by
  obtain ⟨s,hs,hc⟩ := (consistent_init.run calls).exists_ok fun e he her =>
    hconnected (he ▸ her)
  exact ⟨s,hs,hc.bookkept⟩

def movedBlock : List DownloadCall :=
  [.initializeNode 0,.initializeNode 1,.blockRequested 0 7 false 5,.blockRequested 1 7 true 6,
    .blockRequested 0 8 false 7,.removeBlockRequest 8 (some 1) 8,.finalizeNode 1]

theorem run_bookkept_movedBlock : ((run movedBlock {}).toOption.map fun s =>
      (s.mapBlocksInFlight.lookup 7,s.mapBlocksInFlight.lookup 8,s.peersDownloadingFrom))=
        some (none,some (0,2),1) ∧
    ∃ s, run movedBlock {}=.ok s ∧ Bookkept s := by
  have he : ((run movedBlock {}).toOption.map fun s =>
      (s.mapBlocksInFlight.lookup 7,s.mapBlocksInFlight.lookup 8,s.peersDownloadingFrom))=
        some (none,some (0,2),1) := by decide +kernel
  refine ⟨he,run_bookkept movedBlock ?_⟩
  intro her
  rw [her] at he
  cases he
end BlockDownload
end Xero
