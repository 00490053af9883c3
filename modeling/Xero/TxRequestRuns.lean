import Xero.TxRequestRefines

/-! TxRequestTracker over whole runs: it answers what its specification answers, in the order of the
announcements as long as their sequence numbers fit the bit field. -/
namespace Xero
open Library AnnouncementState Announcement List Function TrackerSpec Bool Prod.Lex
variable (peer : NodeId) (txhash : Uint256)
variable {computer : PriorityComputer} {peers : Set NodeId} {it a : Announcement} {now : Int}
namespace TxRequestTracker
variable {s t : TxRequestTracker} {o : IndexOrders computer}

lemma viable_iff (hsl : Settled now s.index) (hd : Due now s.index) (ha : a∈s.index) :
    a.track.viable now ↔ a.isSelectable := by
  simp only [TrackedAnnouncement.viable,and_eq_true,beq_iff_eq,track_candidate,decide_eq_true_eq]
  constructor
  · rintro ⟨⟨hr,hc⟩,ht⟩
    rw [isSelectable_iff]
    cases hst : a.state with
    | candidateDelayed => exact absurd (hsl a ha (by simp [hst])) (not_lt.mpr ht)
    | candidateReady => exact Or.inl rfl
    | candidateBest => exact Or.inr rfl
    | requested => exact absurd hst hr
    | completed => exact absurd hst hc
  · intro hs
    refine ⟨?_,hd a ha hs⟩
    rw [isSelectable_iff] at hs
    obtain h | h := hs <;> simp [h]

/-- The mark of the best candidate is what the specification asks for. -/
lemma Sane.best_iff (hs : s.Sane computer peers) (hst : Settled now s.index)
    (hd : Due now s.index) (ha : a∈s.index) :
    a.state=candidateBest ↔ a.track.best computer now (s.index.map track) := by
  have hal : a.track.best computer now (s.index.map track) ↔ a.isSelectable ∧
      ∀ b∈s.index, b.txhash=a.txhash → b.state≠requested ∧
        (b.isSelectable → b.priority computer≤a.priority computer) := by
    rw [TrackedAnnouncement.best,and_eq_true,viable_iff hst hd ha,all_eq_true]
    refine and_congr_right fun _ => ⟨fun h b hb hba => ?_,fun h c hc => ?_⟩
    · have hb' := h b.track (mem_map_of_mem hb)
      have hv := viable_iff hst hd hb
      simp only [track_txhash,hba,bne_self_eq_false,Bool.false_or,Bool.and_eq_true,bne_iff_ne,
        ne_eq,track_requested,Bool.or_eq_true,Bool.not_eq_true',decide_eq_true_eq] at hb'
      refine ⟨hb'.1,fun hse => hb'.2.resolve_left ?_⟩
      rw [hv.mpr hse]
      exact Bool.noConfusion
    · obtain ⟨b,hb,rfl⟩ := mem_map.mp hc
      have hv := viable_iff hst hd hb
      by_cases hba : b.txhash=a.txhash
      · obtain ⟨hr,hl⟩ := h b hb hba
        by_cases hse : b.isSelectable
        · simp [hr,hl hse]
        · have hn : b.track.viable now=false := by
            rw [← not_eq_true,hv]
            exact hse
          simp [hr,hn]
      · simp [hba]
  rw [hal]
  constructor
  · intro hbe
    have hsl : a.isSelected := by simp [hbe]
    refine ⟨by simp [hbe],fun b hb hba => ⟨fun hr => ?_,fun hse => ?_⟩⟩
    · have he := hs.selection.eq_of_selected hb ha hba (by simp [hr]) hsl
      rw [he,hbe] at hr
      cases hr
    · rw [isSelectable_iff] at hse
      obtain hrd | hbb := hse
      · obtain ⟨c,hc,hcb,hcs⟩ := hs.selection.ready b hb hrd
        have he : c=a := hs.selection.eq_of_selected hc ha (hcb.trans hba) (by
          rw [isSelected_iff]
          exact (hcs.imp_right And.left).symm) hsl
        obtain hr | hl := hcs
        · rw [he,hbe] at hr
          cases hr
        · exact he ▸ hl.2
      · rw [hs.selection.eq_of_selected hb ha hba (by simp [hbb]) hsl]
  · rintro ⟨hse,ht⟩
    rw [isSelectable_iff] at hse
    refine hse.resolve_left fun hrd => ?_
    obtain ⟨b,hb,hba,hbs⟩ := hs.selection.ready a ha hrd
    obtain ⟨hn,hl⟩ := ht b hb hba
    obtain hbe := hbs.resolve_left hn
    have he := hs.selection.distinct b hb a ha hba (le_antisymm (hl (by simp [hbe.1])) hbe.2)
    rw [eq_of_key hs.nodup hb ha (key_eq_iff.mpr ⟨hba,he⟩),hrd] at hbe
    exact absurd hbe.1 (by simp)

lemma selected_perm : ((o.byPeer.lowerBound s.index (toLex (peer,toLex (true,0)))).takeWhile
      fun a => a.peer==peer && a.state==candidateBest).Perm
      (s.index.filter fun a => a.peer==peer && a.state==candidateBest) := by
  refine o.byPeer.takeWhile_lowerBound (fun a ha => ?_) (fun a b hk hab hb => ?_)
  · simp only [and_eq_true,beq_iff_eq] at ha
    rw [byPeerView,toLex_le_toLex]
    refine Or.inr ⟨ha.1.symm,?_⟩
    rw [toLex_le_toLex]
    simp [ha.2]
  · simp only [and_eq_true,beq_iff_eq] at hb ⊢
    have hp : a.peer=peer := by
      refine le_antisymm (hb.1 ▸ peer_le_of_view hab) ?_
      rw [byPeerView,toLex_le_toLex] at hk
      obtain h | h := hk
      · exact le_of_lt h
      · exact le_of_eq h.1
    refine ⟨hp,?_⟩
    rw [byPeerView,toLex_le_toLex] at hk
    have hk' := (hk.resolve_left (by simp [hp])).2
    rw [toLex_le_toLex] at hk'
    by_contra hn
    have hf : (a.state==candidateBest)=false := by simpa using hn
    simp only [hf] at hk'
    exact absurd hk' (by simp)

/-- GetRequestable answers what the specification answers; in the order of the announcements when
their sequence numbers are. -/
lemma Sane.getRequestable (hs : s.Sane computer peers) (peer : NodeId) (now : Int) :
    (s.getRequestable o peer now).2.Sane computer peers ∧
      Kept s (s.getRequestable o peer now).2 ∧
      (s.getRequestable o peer now).2.index.map track=
        settle now (s.index.map track) ∧
      (s.getRequestable o peer now).1.expired.Perm (expiring now (s.index.map track)) ∧
      (s.getRequestable o peer now).1.requestable.Perm
        (((settle now (s.index.map track)).filter fun a => a.peer==peer &&
          a.best computer now (TrackerSpec.settle now (s.index.map track))).map
            TrackedAnnouncement.toGenTxid) ∧
      ((s.index.map Announcement.sequence).Pairwise (·<·) →
        (s.getRequestable o peer now).1.requestable=
          ((settle now (s.index.map track)).filter fun a => a.peer==peer &&
            a.best computer now (TrackerSpec.settle now (s.index.map track))).map
              TrackedAnnouncement.toGenTxid) := by
  obtain ⟨⟨hsa,hk,ht,he,hsl⟩,hd⟩ := hs.setTimePoint (o := o) now
  let u := (s.setTimePoint o now).2
  have hsp : ((settle now (s.index.map track)).filter fun a => a.peer==peer &&
      a.best computer now (TrackerSpec.settle now (s.index.map track))).map
        TrackedAnnouncement.toGenTxid=
      (u.index.filter fun a => a.peer==peer && a.state==candidateBest).map toGenTxid := by
    rw [← ht,filter_map,map_map]
    have hf : u.index.filter ((fun a => a.peer==peer &&
        a.best computer now (u.index.map track)) ∘ track)=
        u.index.filter fun a => a.peer==peer && a.state==candidateBest := by
      refine filter_congr fun a ha => ?_
      have hbe : a.state=candidateBest ↔ a.track.best computer now (u.index.map track) :=
        hsa.best_iff hsl hd ha
      rw [Bool.eq_iff_iff]
      simp [comp,track_peer,hbe]
    exact congrArg _ hf
  have hp := (o.bySequence.perm _).trans (selected_perm (o := o) (s := u) peer)
  refine ⟨hsa,hk,ht,he,?_,fun hse => ?_⟩
  · rw [hsp]
    exact hp.map _
  · rw [hsp]
    have hst : (u.index.map sequence).Pairwise (·<·) := hse.sublist hk.sequences
    have hn : (u.index.map sequence).Nodup := hst.imp fun h => Nat.ne_of_lt h
    refine congrArg _ (List.Perm.eq_of_pairwise (fun a b ha hb hab hba => ?_)
      (o.bySequence.sorted _) ?_ hp)
    · have hm {c} (hc : c∈u.index.filter fun a => a.peer==peer &&
          a.state==candidateBest) : c∈u.index := (mem_filter.mp hc).1
      exact inj_on_of_nodup_map hn (hm (hp.mem_iff.mp ha)) (hm hb) (le_antisymm hab hba)
    · exact ((pairwise_map.mp hst).imp fun h => le_of_lt h).sublist filter_sublist

structure Refines (computer : PriorityComputer) (peers : Set NodeId) (s : TxRequestTracker)
    (n : TrackerSpec) : Prop where
  sane : s.Sane computer peers
  tracked : s.index.map track=n.announcements
  current : s.currentSequence=n.announced%2^64
  ordered : n.announced≤2^SEQUENCE_BITS →
    (s.index.map Announcement.sequence).Pairwise (·<·) ∧
      ∀ q∈s.index.map Announcement.sequence, q<n.announced

variable {n : TrackerSpec}

lemma Refines.of_kept (h : Refines computer peers s n) (ht : t.Sane computer peers)
    (hk : Kept s t) {M : List TrackedAnnouncement} (hM : t.index.map track=M) :
    Refines computer peers t {n with announcements := M} := by
  refine ⟨ht,hM,hk.current.trans h.current,fun hf => ?_⟩
  obtain ⟨hs,hb⟩ := h.ordered hf
  exact ⟨hs.sublist hk.sequences,fun q hq => hb q (hk.sequences.mem hq)⟩

lemma Refines.any_key_iff (h : Refines computer peers s n) (k : Uint256×NodeId) :
    (n.announcements.any fun a => a.key==k) ↔ ∃ a∈s.index, a.key=k := by
  rw [← h.tracked,any_map]
  simp

lemma receivedInv_eq (g : GenTxid) (p : Bool) (reqtime : Int) :
    ((∃ a∈s.index, a.key=(g.hash,peer)) ∧ s.receivedInv peer g p reqtime=s) ∨
    (∀ a∈s.index, a.key≠(g.hash,peer)) ∧
      s.receivedInv peer g p reqtime=s.emplace g peer p reqtime := by
  unfold receivedInv
  cases hb : s.find (toLex (peer,toLex (true,g.hash))) with
  | some it =>
    obtain ⟨hi,hk,-⟩ := find_eq_some hb
    exact Or.inl ⟨⟨it,hi,hk⟩,rfl⟩
  | none =>
    cases ho : s.find (toLex (peer,toLex (false,g.hash))) with
    | some it =>
      obtain ⟨hi,hk,-⟩ := find_eq_some ho
      exact Or.inl ⟨⟨it,hi,hk⟩,rfl⟩
    | none => exact Or.inr ⟨exists_key_of_find hb ho,rfl⟩

section
variable (h : Refines computer peers s n)
include h

lemma Refines.receivedInv (hd : DistinctPriorities computer peers) {peer : NodeId} (hp : peer∈peers)
    (g : GenTxid) (p : Bool) (reqtime : Int) :
    Refines computer peers (s.receivedInv peer g p reqtime)
      (n.receivedInv peer g p reqtime) := by
  unfold TrackerSpec.receivedInv
  obtain ⟨he,heq⟩ | ⟨hn,heq⟩ := s.receivedInv_eq peer g p reqtime
  · rw [heq,if_pos ((h.any_key_iff _).mpr he)]
    exact h
  rw [heq,if_neg fun han => by
    obtain ⟨a,ha,hk⟩ := (h.any_key_iff _).mp han
    exact hn a ha hk]
  refine ⟨h.sane.emplace hd hp hn p reqtime,?_,?_,fun hf => ?_⟩
  · change (s.index++[_]).map track=_
    rw [map_append,h.tracked]
    rfl
  · change (s.currentSequence+1)%2^64=(n.announced+1)%2^64
    rw [h.current]
    omega
  · replace hf : n.announced+1≤2^SEQUENCE_BITS := hf
    obtain ⟨hs,hb⟩ := h.ordered (by omega)
    have hse : s.currentSequence%2^SEQUENCE_BITS=n.announced := by
      rw [h.current]
      unfold SEQUENCE_BITS at hf ⊢
      omega
    have hi : (s.emplace g peer p reqtime).index.map sequence=
        s.index.map sequence++[n.announced] := by
      rw [emplace,map_append,map_singleton,make,hse]
    rw [hi]
    refine ⟨pairwise_append.mpr ⟨hs,by simp,fun q hq r hr => ?_⟩,fun q hq => ?_⟩
    · rw [mem_singleton.mp hr]
      exact hb q hq
    · obtain hq | hq := mem_append.mp hq
      · exact Nat.lt_succ_of_lt (hb q hq)
      · rw [mem_singleton.mp hq]
        exact Nat.lt_succ_self _

lemma Refines.forgetTxHash :
    Refines computer peers (s.forgetTxHash o txhash) (n.forgetTxHash txhash) := by
  have hr : ((o.byTxHash.lowerBound s.index
      (toLex (txhash,toLex (candidateDelayed.code,0)))).takeWhile fun a => a.txhash==txhash).Perm
      (s.index.filter fun a => a.txhash==txhash) := by
    refine o.byTxHash.takeWhile_lowerBound (fun a ha => ?_) (fun a b hk hab hb => ?_)
    · rw [beq_iff_eq] at ha
      rw [byTxHashView,toLex_le_toLex]
      refine Or.inr ⟨ha.symm,?_⟩
      rw [toLex_le_toLex]
      cases hs : a.state <;> simp [code]
    · rw [beq_iff_eq] at hb ⊢
      refine le_antisymm (hb ▸ txhash_le_of_view hab) ?_
      rw [byTxHashView,toLex_le_toLex] at hk
      obtain h | h := hk
      · exact le_of_lt h
      · exact le_of_eq h.1
  have hf := h.sane.forget hr
  refine h.of_kept hf.sane hf.kept ?_
  rw [hf.track,h.tracked]

lemma Refines.disconnectedPeer :
    Refines computer peers (s.disconnectedPeer o peer) (n.disconnectedPeer peer) := by
  obtain ⟨hs,hk,ht⟩ := h.sane.disconnectedPeer (o := o) peer
  refine h.of_kept hs hk ?_
  rw [ht,h.tracked]

lemma Refines.receivedResponse :
    Refines computer peers (s.receivedResponse o peer txhash) (n.receivedResponse peer txhash) := by
  have hat {it} (hi : it∈s.index) (hk : it.key=(txhash,peer)) :
      Refines computer peers (s.makeCompleted o it).2 (n.receivedResponse peer txhash) := by
    obtain ⟨hs,hke,ht⟩ := h.sane.makeCompleted_track (o := o) hi
    refine h.of_kept hs hke ?_
    rw [ht,h.tracked,hk]
  unfold TxRequestTracker.receivedResponse
  cases ho : s.find (toLex (peer,toLex (false,txhash))) with
  | some it =>
    obtain ⟨hi,hk,-⟩ := find_eq_some ho
    exact hat hi hk
  | none =>
    cases hb : s.find (toLex (peer,toLex (true,txhash))) with
    | some it =>
      obtain ⟨hi,hk,-⟩ := find_eq_some hb
      exact hat hi hk
    | none =>
      refine h.of_kept h.sane (Kept.refl s) ?_
      have hsa : completeAt (txhash,peer) (s.index.map track)=s.index.map track := by
        rw [completeAt,map_map]
        refine map_congr_left fun a ha => ?_
        simp [exists_key_of_find hb ho a ha]
      rw [← h.tracked,hsa,h.sane.alive.dropCompleted_map]

lemma Refines.requestedTx (e : Int) : Refines computer peers (s.requestedTx o peer txhash e)
      (n.requestedTx peer txhash e) := by
  have han : (n.announcements.any fun a => a.key==(txhash,peer) && a.state==.candidate) ↔
      ∃ a∈s.index, a.key=(txhash,peer) ∧ a.state≠requested ∧ a.state≠completed := by
    rw [← h.tracked,any_map]
    simp
  unfold TrackerSpec.requestedTx
  obtain ⟨hn,he⟩ | ⟨it,hi,hk,hr,hcp,ht⟩ := h.sane.requestedTx (o := o) peer txhash e
  · rw [he,if_neg fun hc => by
      obtain ⟨a,ha,hak,har,hac⟩ := han.mp hc
      obtain h | h := hn a ha hak
      · exact har h
      · exact hac h]
    exact h
  rw [if_pos (han.mpr ⟨it,hi,hk,hr,hcp⟩)]
  have hh : it.txhash=txhash := congrArg Prod.fst hk
  refine h.of_kept ht.sane (ht.kept ?_) ?_
  · rw [map_map]
    refine map_congr_left fun a _ => ?_
    simp only [comp,requestAt]
    split
    · rfl
    · split <;> rfl
  · rw [map_of_unselect (fun _ => track_unselect) ht.index,← h.tracked,map_map,map_map]
    refine map_congr_left fun a _ => ?_
    simp only [comp,requestAt,request,track_key,hk,track_txhash,hh,track_requested]
    split
    · rfl
    · split <;> rfl

lemma Refines.getRequestable (now : Int) :
    Refines computer peers (s.getRequestable o peer now).2
    (n.getRequestable computer peer now).2 := by
  obtain ⟨hs,hk,ht,-⟩ := h.sane.getRequestable (o := o) peer now
  refine h.of_kept hs hk ?_
  rw [ht,h.tracked]
end

lemma countP_states (M : List TrackedAnnouncement) (peer : NodeId) :
    M.countP (fun a => a.peer==peer)=M.countP (fun a => a.peer==peer && a.state==.candidate)+
      M.countP (fun a => a.peer==peer && a.state==.requested)+
      M.countP (fun a => a.peer==peer && a.state==.completed) := by
  induction M with
  | nil => rfl
  | cons a M ih =>
    by_cases h : a.peer=peer
    · cases hs : a.state <;> simp [h,hs] <;> omega
    · simp [h,ih]

lemma Refines.counts (h : Refines computer peers s n) (peer : NodeId) :
    s.count peer=n.count peer ∧ s.countInFlight peer=n.countInFlight peer ∧
      s.countCandidates peer=n.countCandidates peer := by
  have ht : s.index.countP (fun a => a.peer==peer)=n.count peer := by
    rw [TrackerSpec.count,← h.tracked,countP_map]
    rfl
  have hc (st : AnnouncementState) (st' : TrackedState)
      (hst : ∀ a : Announcement, a.track.state=st' ↔ a.state=st) :
      s.index.countP (fun a => a.peer==peer && a.state==st)=
        n.announcements.countP fun a => a.peer==peer && a.state==st' := by
    rw [← h.tracked,countP_map]
    refine countP_congr fun a _ => ?_
    simp [hst]
  have hr := hc requested .requested fun _ => track_requested
  have hcp := hc completed .completed fun _ => track_completed
  have hs := countP_states n.announcements peer
  have hi := h.sane.counted peer
  unfold TxRequestTracker.count TxRequestTracker.countInFlight TxRequestTracker.countCandidates
  rw [recomputePeerInfo,ht,hr] at hi
  rw [hi]
  unfold TrackerSpec.count TrackerSpec.countInFlight TrackerSpec.countCandidates
  split_ifs with hz
  · simp only
    omega
  · refine ⟨rfl,rfl,?_⟩
    simp only
    omega

lemma Refines.size (h : Refines computer peers s n) : s.size=n.size := by
  rw [TxRequestTracker.size,TrackerSpec.size,← h.tracked,length_map]
end TxRequestTracker

inductive TxRequestCall where
  | receivedInv (peer : NodeId) (gtxid : GenTxid) (preferred : Bool) (reqtime : Int)
  | requestedTx (peer : NodeId) (txhash : Uint256) (expiry : Int)
  | receivedResponse (peer : NodeId) (txhash : Uint256)
  | forgetTxHash (txhash : Uint256)
  | disconnectedPeer (peer : NodeId)
  | getRequestable (peer : NodeId) (now : Int)

namespace TxRequestCall
def run (o : IndexOrders computer) (s : TxRequestTracker) : TxRequestCall → TxRequestTracker
  | receivedInv peer gtxid preferred reqtime => s.receivedInv peer gtxid preferred reqtime
  | requestedTx peer txhash expiry => s.requestedTx o peer txhash expiry
  | receivedResponse peer txhash => s.receivedResponse o peer txhash
  | forgetTxHash txhash => s.forgetTxHash o txhash
  | disconnectedPeer peer => s.disconnectedPeer o peer
  | getRequestable peer now => (s.getRequestable o peer now).2

def spec (computer : PriorityComputer) (n : TrackerSpec) : TxRequestCall → TrackerSpec
  | receivedInv peer gtxid preferred reqtime => n.receivedInv peer gtxid preferred reqtime
  | requestedTx peer txhash expiry => n.requestedTx peer txhash expiry
  | receivedResponse peer txhash => n.receivedResponse peer txhash
  | forgetTxHash txhash => n.forgetTxHash txhash
  | disconnectedPeer peer => n.disconnectedPeer peer
  | getRequestable peer now => (n.getRequestable computer peer now).2

def By (peers : Set NodeId) : TxRequestCall → Prop
  | receivedInv peer _ _ _ => peer∈peers
  | _ => True
end TxRequestCall

/-- The tracker and its specification after the same calls. The order among equal keys is another
one in every call. -/
inductive TxRequestRun (computer : PriorityComputer) (peers : Set NodeId) :
    TxRequestTracker → TrackerSpec → Prop
  | start : TxRequestRun computer peers {} {}
  | call {s : TxRequestTracker} {n : TrackerSpec} (h : TxRequestRun computer peers s n)
      (c : TxRequestCall) (hc : c.By peers) (o : IndexOrders computer) :
      TxRequestRun computer peers (c.run o s) (c.spec computer n)

namespace TxRequestTracker
variable {s : TxRequestTracker} {n : TrackerSpec}

lemma Refines.call (h : Refines computer peers s n)
    (hd : DistinctPriorities computer peers) (c : TxRequestCall) (hc : c.By peers)
    (o : IndexOrders computer) : Refines computer peers (c.run o s) (c.spec computer n) := by
  cases c with
  | receivedInv peer g p r => exact h.receivedInv hd hc ..
  | requestedTx peer txhash e => exact h.requestedTx ..
  | receivedResponse peer txhash => exact h.receivedResponse ..
  | forgetTxHash txhash => exact h.forgetTxHash ..
  | disconnectedPeer peer => exact h.disconnectedPeer ..
  | getRequestable peer now => exact h.getRequestable ..

lemma refines_start : Refines computer peers {} {} := by
  refine ⟨⟨⟨⟨nodup_nil,?_⟩,?_,?_⟩,?_,?_,fun p => rfl⟩,rfl,rfl,fun _ => ⟨List.Pairwise.nil,?_⟩⟩
  all_goals intro a ha; cases ha

lemma refines_of_run (hd : DistinctPriorities computer peers)
    (h : TxRequestRun computer peers s n) : Refines computer peers s n := by
  induction h with
  | start => exact refines_start
  | call _ c hc o ih => exact ih.call hd c hc o

/-- After any calls the tracker answers what the specification answers. The transactions to request
come in the order of their announcements while the sequence numbers fit the bit field. -/
theorem run_refines_spec (hdistinct : DistinctPriorities computer peers)
    (h : TxRequestRun computer peers s n) :
    (∀ (o : IndexOrders computer) (peer : NodeId) (now : Int),
      (s.getRequestable o peer now).1.expired.Perm (n.getRequestable computer peer now).1.expired ∧
      (s.getRequestable o peer now).1.requestable.Perm
        (n.getRequestable computer peer now).1.requestable ∧
      (n.announced≤2^SEQUENCE_BITS → (s.getRequestable o peer now).1.requestable=
        (n.getRequestable computer peer now).1.requestable)) ∧
    (∀ peer, s.count peer=n.count peer ∧ s.countInFlight peer=n.countInFlight peer ∧
      s.countCandidates peer=n.countCandidates peer) ∧ s.size=n.size := by
  have hr := refines_of_run hdistinct h
  refine ⟨fun o peer now => ?_,hr.counts,hr.size⟩
  obtain ⟨-,-,-,he,hp,ho⟩ := hr.sane.getRequestable (o := o) peer now
  rw [hr.tracked] at he hp ho
  exact ⟨he,hp,fun hf => ho (hr.ordered hf).1⟩

def byNodeId : PriorityComputer := fun _ peer _ => peer.toNat

lemma byNodeId_distinct : DistinctPriorities byNodeId {0,1} := by
  intro p hp q hq _ _ _ _
  obtain rfl | rfl := hp <;> obtain rfl | rfl := hq <;> simp_all [byNodeId]

theorem run_refines_spec_two_peers :
    ∃ (s : TxRequestTracker) (n : TrackerSpec), TxRequestRun byNodeId {0,1} s n ∧
      (s.getRequestable (.stable byNodeId) 1 5).1.requestable=[⟨false,7⟩] ∧
      (s.getRequestable (.stable byNodeId) 1 5).1.requestable=
        (n.getRequestable byNodeId 1 5).1.requestable := by
  have hs : TxRequestRun byNodeId {0,1} {} {} := .start
  have hr := (hs.call (.receivedInv 0 ⟨false,7⟩ true 3) (Or.inl rfl)
    (.stable byNodeId)).call (.receivedInv 1 ⟨false,7⟩ true 4) (Or.inr rfl) (.stable byNodeId)
  refine ⟨_,_,hr,by decide +kernel,?_⟩
  exact ((run_refines_spec byNodeId_distinct hr).1 _ 1 5).2.2 (by decide +kernel)

lemma announce_and_forget {k : Nat} (hk : k+1<2^64) :
    (({currentSequence := k} : TxRequestTracker).receivedInv 0 ⟨false,0⟩ false 0).forgetTxHash
      (.stable byNodeId) 0={currentSequence := k+1} := by
  have had : ({currentSequence := k} : TxRequestTracker).receivedInv 0 ⟨false,0⟩ false 0=
      {currentSequence := k+1
       index := [.make ⟨false,0⟩ 0 false 0 k]
       peerinfo := update (fun _ => none) 0 (some {total := 1})} := by
    simpa [receivedInv,find,emplace] using hk
  have hr (s : TxRequestTracker) (a : Announcement) (hs : s.index=[a]) (ha : a.txhash=0) :
      s.forgetTxHash (.stable byNodeId) 0=s.erase a := by
    have hv : ¬ a.byTxHashView byNodeId<toLex (0,toLex (candidateDelayed.code,0)) := by
      rw [not_lt,byTxHashView,ha,toLex_le_toLex]
      refine Or.inr ⟨rfl,?_⟩
      rw [toLex_le_toLex]
      cases a.state <;> simp [code]
    simp [forgetTxHash,OrderedIndex.lowerBound,IndexOrders.stable,OrderedIndex.stable,hs,hv,ha]
  rw [had,hr _ _ rfl rfl]
  simp [erase,make,isAt]

lemma run_announce_and_forget (k : Nat) (hk : k<2^64) :
    TxRequestRun byNodeId {0} {currentSequence := k} {announced := k} := by
  induction k with
  | zero => exact TxRequestRun.start
  | succ k ih =>
    have hr := ((ih (by omega)).call (.receivedInv 0 ⟨false,0⟩ false 0) rfl
      (.stable byNodeId)).call (.forgetTxHash 0) trivial (.stable byNodeId)
    simp only [TxRequestCall.run,announce_and_forget hk] at hr
    exact hr

/-- The bit field of the sequence number wraps, and of two announcements the later one comes
first. -/
theorem requestable_out_of_order :
    ∃ (s : TxRequestTracker) (n : TrackerSpec), DistinctPriorities byNodeId {0} ∧
      TxRequestRun byNodeId {0} s n ∧
      (s.getRequestable (.stable byNodeId) 0 0).1.requestable=[⟨false,2⟩,⟨false,1⟩] ∧
      (n.getRequestable byNodeId 0 0).1.requestable=[⟨false,1⟩,⟨false,2⟩] := by
  have hd : DistinctPriorities byNodeId {0} := fun p hp q hq hn =>
    absurd ((Set.mem_singleton_iff.mp hp).trans (Set.mem_singleton_iff.mp hq).symm) hn
  have hr := ((run_announce_and_forget (2^59-1) (by decide)).call
    (.receivedInv 0 ⟨false,1⟩ false 0) rfl (.stable byNodeId)).call
    (.receivedInv 0 ⟨false,2⟩ false 0) rfl (.stable byNodeId)
  exact ⟨_,_,hd,hr,by decide +kernel,by decide +kernel⟩

/-- What SanityCheck asserts holds in every run: a transaction has at most one selected announcement,
which no ready one beats, and something to wait for, and the peers are counted right. -/
theorem run_sanity (hdistinct : DistinctPriorities computer peers)
    (h : TxRequestRun computer peers s n) : Selection computer s.index ∧ Alive s.index ∧
    s.Counted := by
  have hs := (refines_of_run hdistinct h).sane
  exact ⟨hs.selection,hs.alive,hs.counted⟩

/- Two peers announce a transaction; it is requested from one of them, and the other is ready. -/
theorem run_sanity_two_peers : ∃ s n, TxRequestRun byNodeId {0,1} s n ∧
    s.index.map Announcement.state=[.candidateReady,.requested] ∧
    Selection byNodeId s.index ∧ Alive s.index ∧ s.Counted := by
  have hs : TxRequestRun byNodeId {0,1} {} {} := .start
  have hr := (((hs.call (.receivedInv 0 ⟨false,7⟩ true 3) (Or.inl rfl) (.stable byNodeId)).call
    (.receivedInv 1 ⟨false,7⟩ true 4) (Or.inr rfl) (.stable byNodeId)).call
    (.getRequestable 1 5) trivial (.stable byNodeId)).call
    (.requestedTx 1 7 9) trivial (.stable byNodeId)
  exact ⟨_,_,hr,by decide +kernel,run_sanity byNodeId_distinct hr⟩
end TxRequestTracker
end Xero
