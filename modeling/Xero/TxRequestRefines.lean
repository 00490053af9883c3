import Xero.TxRequestSpec
import Xero.TxRequestOps

/-! Every operation of TxRequestTracker does to its announcements what the specification says. -/
namespace Xero
open Library AnnouncementState Announcement List Function
variable {peer : NodeId}

def AnnouncementState.tracked : AnnouncementState → TrackedState
  | candidateDelayed => .candidate
  | candidateReady => .candidate
  | candidateBest => .candidate
  | requested => .requested
  | completed => .completed
def Announcement.track (a : Announcement) : TrackedAnnouncement :=
  ⟨a.txhash,a.time,a.peer,a.preferred,a.isWtxid,a.state.tracked⟩

variable {computer : PriorityComputer} {peers : Set NodeId} {L U : List Announcement}
  {it a : Announcement} {now : Int}

@[simp] lemma track_key : a.track.key=a.key := rfl
@[simp] lemma track_peer : a.track.peer=a.peer := rfl
@[simp] lemma track_txhash : a.track.txhash=a.txhash := rfl
@[simp] lemma track_time : a.track.time=a.time := rfl
@[simp] lemma track_priority : a.track.priority computer=a.priority computer := rfl

@[simp] lemma track_completed : a.track.state=.completed ↔ a.state=completed := by
  cases h : a.state <;> simp [Announcement.track,AnnouncementState.tracked,h]

@[simp] lemma track_requested : a.track.state=.requested ↔ a.state=requested := by
  cases h : a.state <;> simp [Announcement.track,AnnouncementState.tracked,h]

@[simp] lemma track_candidate : a.track.state=.candidate ↔ a.state≠requested ∧
    a.state≠completed := by
  cases h : a.state <;> simp [Announcement.track,AnnouncementState.tracked,h]

lemma track_unselect : a.unselect.track=a.track := by
  unfold unselect
  split
  case isTrue h => simp [Announcement.track,AnnouncementState.tracked,setState,h]
  case isFalse => rfl

lemma map_of_unselect {β : Type*} {g : Announcement → β} (hg : ∀ a, g a.unselect=g a)
    (h : L.map unselect=U.map unselect) : L.map g=U.map g := by
  have hm (M : List Announcement) : (M.map unselect).map g=M.map g := by
    rw [map_map]
    exact map_congr_left fun a _ => hg a
  rw [← hm L,← hm U,h]

section
variable {M : List TrackedAnnouncement}

lemma dropCompleted_of_alive
    (h : ∀ a∈M, ∃ b∈M, b.txhash=a.txhash ∧ b.state≠.completed) : dropCompleted M=M := by
  refine filter_eq_self.mpr fun a ha => ?_
  simpa using h a ha

lemma mem_dropCompleted {a : TrackedAnnouncement} : a∈dropCompleted M ↔
    a∈M ∧ ∃ b∈M, b.txhash=a.txhash ∧ b.state≠.completed := by
  simp [dropCompleted]

lemma dropCompleted_dropCompleted (q : TrackedAnnouncement → Bool)
    (e : TrackedAnnouncement → TrackedAnnouncement) (hh : ∀ a, (e a).txhash=a.txhash)
    (hsa : ∀ a, (e a).state≠.completed → a.state≠.completed) :
    dropCompleted (((dropCompleted M).filter q).map e)=dropCompleted ((M.filter q).map e) := by
  have hf (N : List TrackedAnnouncement) : dropCompleted ((N.filter q).map e)=
      (N.filter fun a => decide (∃ b∈N, q b ∧ b.txhash=a.txhash ∧
        (e b).state≠.completed) && q a).map e := by
    rw [dropCompleted,filter_map,filter_filter]
    congr 1
    refine filter_congr fun a _ => ?_
    rw [Bool.eq_iff_iff]
    simp [hh]
  rw [hf,hf]
  congr 1
  have hd : dropCompleted M=M.filter fun a =>
      decide (∃ b∈M, b.txhash=a.txhash ∧ b.state≠.completed) := by
    refine filter_congr fun a _ => ?_
    rw [Bool.eq_iff_iff]
    simp
  conv_lhs => rw [hd,filter_filter]
  refine filter_congr fun a ha => ?_
  rw [Bool.eq_iff_iff]
  simp only [Bool.and_eq_true,decide_eq_true_eq]
  rw [← hd]
  constructor
  · intro ⟨⟨⟨b,hb,hq,hba,hbs⟩,hqa⟩,_⟩
    exact ⟨⟨b,(mem_dropCompleted.mp hb).1,hq,hba,hbs⟩,hqa⟩
  · intro ⟨⟨b,hb,hq,hba,hbs⟩,hqa⟩
    have hl := hsa b hbs
    exact ⟨⟨⟨b,mem_dropCompleted.mpr ⟨hb,b,hb,rfl,hl⟩,hq,hba,hbs⟩,hqa⟩,b,hb,hba,hl⟩

/- Only the transaction of one announcement is left without anything to wait for. -/
lemma dropCompleted_eq_filter (th : Uint256) (hd : ∀ a∈M, a.txhash=th → a.state=.completed)
    (hl : ∀ a∈M, a.txhash≠th → ∃ b∈M, b.txhash=a.txhash ∧ b.state≠.completed) :
    dropCompleted M=M.filter fun a => a.txhash != th := by
  refine filter_congr fun a ha => ?_
  rw [Bool.eq_iff_iff]
  simp only [any_eq_true,Bool.and_eq_true,beq_iff_eq,bne_iff_ne]
  constructor
  · intro ⟨b,hb,hba,hbs⟩ hah
    exact hbs (hd b hb (hba.trans hah))
  · exact hl a ha

namespace TrackerSpec
open TrackedAnnouncement

lemma settle_dropCompleted : settle now (dropCompleted M)=settle now M := by
  have h := dropCompleted_dropCompleted (M := M) (fun _ => true) (expire now)
    (fun a => by unfold expire complete; split <;> rfl)
    (fun a => by unfold expire complete; split <;> simp_all)
  simpa [settle] using h

lemma disconnect_dropCompleted (q : TrackedAnnouncement → Bool) :
    dropCompleted ((dropCompleted M).filter q)=dropCompleted (M.filter q) := by
  have h := dropCompleted_dropCompleted (M := M) q id (fun _ => rfl) (fun _ h => h)
  simpa using h

lemma expiring_dropCompleted : expiring now (dropCompleted M)=expiring now M := by
  rw [expiring,dropCompleted,filter_filter]
  congr 1
  refine filter_congr fun a ha => ?_
  by_cases h : a.expiresBy now
  · have hsa : a.state=.requested := by
      simp only [expiresBy,Bool.and_eq_true,beq_iff_eq] at h
      exact h.1
    have han : (M.any fun b => b.txhash==a.txhash && b.state != .completed) :=
      any_eq_true.mpr ⟨a,ha,by simp [hsa]⟩
    simp [h,han]
  · simp [h]
end TrackerSpec
end

lemma Alive.dropCompleted_map (h : Alive L) : dropCompleted (L.map track)=L.map track := by
  refine dropCompleted_of_alive fun a ha => ?_
  obtain ⟨b,hb,rfl⟩ := mem_map.mp ha
  obtain ⟨c,hc,hcb,hcs⟩ := h b hb
  exact ⟨c.track,mem_map_of_mem hc,hcb,by simpa using hcs⟩

lemma map_track_restate_completed : (restate it completed L).map track=
    TrackerSpec.completeAt it.key (L.map track) := by
  simp only [restate,modified,TrackerSpec.completeAt,map_map]
  refine map_congr_left fun a _ => ?_
  by_cases h : a.key=it.key
  · simp only [comp,isAt_iff,track_key,h,if_true]
    rfl
  · simp only [comp,isAt_iff,track_key,h,if_false]

lemma map_track_restate_candidate {st : AnnouncementState} (hn : (L.map key).Nodup)
    (hit : it∈L) (hsa : st.tracked=it.state.tracked) : (restate it st L).map track=L.map track := by
  simp only [restate,modified,map_map]
  refine map_congr_left fun a ha => ?_
  by_cases h : a.key=it.key
  · have he := eq_of_key hn ha hit h
    subst he
    simp [Announcement.track,setState,hsa]
  · simp [h]

variable {f : Announcement → Announcement}

lemma filter_map_modified (hf : ∀ a, (f a).txhash=a.txhash) :
    ((modified it f L).map track).filter (fun a => a.txhash != it.txhash)=
      (L.map track).filter fun a => a.txhash != it.txhash := by
  simp only [modified,map_map,filter_map]
  have hsa : L.filter ((fun a => a.txhash != it.txhash) ∘
      (track ∘ fun a => if it.isAt a then f a else a))=L.filter fun a => a.txhash != it.txhash := by
    refine filter_congr fun a _ => ?_
    by_cases h : a.key=it.key <;> simp [h,hf]
  rw [hsa]
  refine map_congr_left fun a ha => ?_
  have hn : a.txhash≠it.txhash := by simpa using (mem_filter.mp ha).2
  have hk : a.key≠it.key := fun h => hn (key_eq_iff.mp h).1
  simp [hk]

lemma countP_of_unselect {P : Announcement → Bool} (hP : ∀ a, P a.unselect=P a)
    (h : L.map unselect=U.map unselect) : L.countP P=U.countP P := by
  have hc (M : List Announcement) : M.countP P=(M.map P).countP id := by
    rw [countP_map]
    rfl
  rw [hc L,hc U,map_of_unselect hP h]

lemma isWaiting_unselect (a : Announcement) : a.unselect.isWaiting=a.isWaiting := by
  unfold unselect
  split
  case isTrue h =>
    rw [isWaiting,isWaiting,h]
    rfl
  case isFalse => rfl

lemma isSelectable_unselect (a : Announcement) : a.unselect.isSelectable=a.isSelectable := by
  unfold unselect
  split
  case isTrue h => simp [isSelectable,setState,h]
  case isFalse => rfl

lemma time_unselect (a : Announcement) : a.unselect.time=a.time := by
  unfold unselect
  split <;> rfl

lemma sequence_unselect (a : Announcement) : a.unselect.sequence=a.sequence := by
  unfold unselect
  split <;> rfl

lemma map_sequence_modified (hf : ∀ a, (f a).sequence=a.sequence) :
    (modified it f L).map sequence=L.map sequence := by
  rw [modified,map_map]
  refine map_congr_left fun a _ => ?_
  simp only [comp]
  split
  · exact hf a
  · rfl

def Settled (now : Int) (L : List Announcement) : Prop :=
  ∀ a∈L, a.isWaiting → now<a.time

lemma Settled.expire_map (h : Settled now L) :
    (L.map track).map (TrackedAnnouncement.expire now)=L.map track := by
  rw [map_map]
  refine map_congr_left fun a ha => ?_
  have hn : ¬ a.track.expiresBy now := fun he => by
    simp only [TrackedAnnouncement.expiresBy,Bool.and_eq_true,beq_iff_eq,track_requested,
      decide_eq_true_eq] at he
    exact absurd (h a ha (by simp [he.1])) (not_lt.mpr he.2)
  simp [TrackedAnnouncement.expire,hn]

lemma Settled.expiring_map (h : Settled now L) : TrackerSpec.expiring now (L.map track)=[] := by
  rw [TrackerSpec.expiring,map_eq_nil_iff,filter_eq_nil_iff]
  intro b hb he
  obtain ⟨a,ha,rfl⟩ := mem_map.mp hb
  simp only [TrackedAnnouncement.expiresBy,Bool.and_eq_true,beq_iff_eq,track_requested,
    decide_eq_true_eq] at he
  exact absurd (h a ha (by simp [he.1])) (not_lt.mpr he.2)

variable {b : Announcement}

lemma waiting_of_view (h : a.byTimeView≤b.byTimeView)
    (hb : b.isWaiting) : a.isWaiting ∧ a.time≤b.time := by
  rw [byTimeView,byTimeView,Prod.Lex.toLex_le_toLex] at h
  have hco : b.getWaitState.code=0 := by simp [getWaitState,hb,WaitState.code]
  obtain h | ⟨hc,ht⟩ := h
  · rw [hco] at h
    exact absurd h (Nat.not_lt_zero _)
  · refine ⟨?_,ht⟩
    by_contra hn
    rw [hco,getWaitState,if_neg hn] at hc
    split at hc <;> cases hc

lemma selectable_of_view (h : a.byTimeView≤b.byTimeView)
    (ha : a.isSelectable) : b.isSelectable ∧ a.time≤b.time := by
  rw [byTimeView,byTimeView,Prod.Lex.toLex_le_toLex] at h
  have hn : ¬ a.isWaiting := by
    rw [isSelectable_iff] at ha
    obtain ha | ha := ha <;> simp [ha]
  have hco : a.getWaitState.code=2 := by simp [getWaitState,hn,ha,WaitState.code]
  have hl : b.getWaitState.code≤2 := by cases b.getWaitState <;> simp [WaitState.code]
  obtain h | ⟨hc,ht⟩ := h
  · rw [hco] at h
    exact absurd h (not_lt.mpr hl)
  · refine ⟨?_,ht⟩
    by_contra hn'
    rw [hco,getWaitState] at hc
    split at hc <;> cases hc

namespace TxRequestTracker
variable {s t u : TxRequestTracker} {o : IndexOrders computer}

/-- The announcements that are left keep their sequence numbers and their order. -/
structure Kept (s t : TxRequestTracker) : Prop where
  current : t.currentSequence=s.currentSequence
  sequences : (t.index.map Announcement.sequence).Sublist (s.index.map Announcement.sequence)

lemma Kept.refl (s : TxRequestTracker) : Kept s s := ⟨rfl,List.Sublist.refl _⟩

lemma Kept.trans (h : Kept s t) (h' : Kept t u) : Kept s u :=
  ⟨h'.current.trans h.current,h'.sequences.trans h.sequences⟩

variable {tx : Uint256}

lemma Reselected.kept (h : Reselected computer peers s tx U t)
    (hU : U.map Announcement.sequence=s.index.map Announcement.sequence) : Kept s t := by
  refine ⟨h.sequence,?_⟩
  rw [map_of_unselect sequence_unselect h.index,hU]

lemma Forgotten.kept (h : Forgotten computer peers s tx t) : Kept s t := by
  refine ⟨h.sequence,?_⟩
  rw [h.index]
  exact filter_sublist.map _

lemma Forgotten.track (h : Forgotten computer peers s tx t) :
    t.index.map track=(s.index.map track).filter fun a => a.txhash != tx := by
  rw [h.index,filter_map]
  rfl

lemma Sane.makeCompleted_track (hs : s.Sane computer peers) (hit : it∈s.index) :
    (s.makeCompleted o it).2.Sane computer peers ∧ Kept s (s.makeCompleted o it).2 ∧
      (s.makeCompleted o it).2.index.map track=
        dropCompleted (TrackerSpec.completeAt it.key (s.index.map track)) := by
  obtain ⟨hsa,he⟩ | ⟨t,he,hsa,ho,ht⟩ | ⟨t,he,hsa,ht⟩ := hs.makeCompleted (o := o) hit
  · rw [he,← map_track_restate_completed,map_track_restate_candidate hs.nodup hit (by rw [hsa])]
    exact ⟨hs,Kept.refl s,hs.alive.dropCompleted_map.symm⟩
  · rw [he]
    refine ⟨ht.sane,ht.kept,?_⟩
    rw [ht.track,← map_track_restate_completed]
    have hm {b} := mem_modified (f := setState completed) (b := b) hs.nodup hit
    have hdo := dropCompleted_eq_filter (M := (restate it completed s.index).map track)
      it.txhash (fun b hb hbh => ?_) (fun b hb hbh => ?_)
    · rw [hdo,restate,filter_map_modified (f := setState completed) fun _ => rfl]
    · obtain ⟨c,hc,rfl⟩ := mem_map.mp hb
      rw [track_completed]
      obtain rfl | ⟨hc,hck⟩ := hm.mp hc
      · rfl
      · exact ho c hc hbh hck
    · obtain ⟨c,hc,rfl⟩ := mem_map.mp hb
      obtain rfl | ⟨hc,hck⟩ := hm.mp hc
      · exact absurd rfl hbh
      · obtain ⟨d,hd,hdc,hds⟩ := hs.alive c hc
        refine ⟨d.track,mem_map_of_mem (hm.mpr (Or.inr ⟨hd,fun hk => ?_⟩)),hdc,by simpa using hds⟩
        exact hbh (hdc.symm.trans (key_eq_iff.mp hk).1)
  · rw [he]
    refine ⟨ht.sane,ht.kept (map_sequence_modified fun _ => rfl),?_⟩
    rw [← map_track_restate_completed,← map_of_unselect (fun _ => track_unselect) ht.index]
    exact ht.sane.alive.dropCompleted_map.symm

lemma countP_restate_lt {P : Announcement → Bool} {st : AnnouncementState}
    (hn : (L.map key).Nodup) (hit : it∈L) (hP : P it) (hst : P (it.setState st)=false) :
    (restate it st L).countP P<L.countP P := by
  rw [(perm_modified hn hit).countP_eq,(perm_erased hn hit).countP_eq,
    countP_cons_of_pos hP,countP_cons_of_neg (by simp [hst])]
  exact Nat.lt_succ_self _

section
variable (hs : s.Sane computer peers) (hit : it∈s.index) (hst : it.state=requested)
include hs hit hst

lemma Sane.countP_makeCompleted_lt :
    (s.makeCompleted o it).2.index.countP isWaiting < s.index.countP isWaiting := by
  have hw : it.isWaiting := by simp [hst]
  obtain ⟨hc,-⟩ | ⟨t,he,-,-,ht⟩ | ⟨t,he,-,ht⟩ := hs.makeCompleted (o := o) hit
  · rw [hst] at hc
    cases hc
  · rw [he,ht.index]
    have hsu : (s.index.filter fun a => a.txhash != it.txhash).Sublist (erased it s.index) := by
      refine monotone_filter_right _ fun a ha => ?_
      have hn : a.txhash≠it.txhash := by simpa using ha
      simp only [isAt,Bool.not_eq_true',beq_eq_false_iff_ne]
      exact fun hk => hn (key_eq_iff.mp hk).1
    rw [(perm_erased hs.nodup hit).countP_eq,countP_cons_of_pos hw]
    exact Nat.lt_succ_of_le hsu.countP_le
  · rw [he,countP_of_unselect isWaiting_unselect ht.index]
    exact countP_restate_lt hs.nodup hit hw rfl

/- Completing an expired request early makes no difference, and it has expired. -/
lemma Sane.settle_makeCompleted (ht : it.time≤now) :
    TrackerSpec.settle now ((s.makeCompleted o it).2.index.map track)=
        TrackerSpec.settle now (s.index.map track) ∧
      ((it.peer,it.toGenTxid)::TrackerSpec.expiring now
        ((s.makeCompleted o it).2.index.map track)).Perm
          (TrackerSpec.expiring now (s.index.map track)) := by
  have he : it.track.expiresBy now := by
    simp [TrackedAnnouncement.expiresBy,hst,ht]
  rw [(hs.makeCompleted_track (o := o) hit).2.2,TrackerSpec.settle_dropCompleted,
    TrackerSpec.expiring_dropCompleted]
  constructor
  · rw [TrackerSpec.settle,TrackerSpec.settle,TrackerSpec.completeAt,map_map,map_map,map_map]
    congr 1
    refine map_congr_left fun a ha => ?_
    by_cases h : a.key=it.key
    · have heq := eq_of_key hs.nodup ha hit h
      subst heq
      have hex : a.track.expire now=a.track.complete := if_pos he
      have hc : a.track.complete.expire now=a.track.complete :=
        if_neg (by simp [TrackedAnnouncement.expiresBy,TrackedAnnouncement.complete])
      simp [hex,hc]
    · simp [h]
  · have hp := (perm_erased hs.nodup hit).map track
    have hp' := (perm_modified (f := setState completed) hs.nodup hit).map track
    rw [← map_track_restate_completed]
    have hl := (hp'.filter (TrackedAnnouncement.expiresBy now)).map fun a => (a.peer,a.toGenTxid)
    have hr := (hp.filter (TrackedAnnouncement.expiresBy now)).map fun a => (a.peer,a.toGenTxid)
    rw [map_cons,filter_cons_of_pos he] at hr
    exact (hl.cons _).trans hr.symm
end

/-- What has expired by now is completed, and nothing waits for a time that has come. -/
structure Advanced (computer : PriorityComputer) (peers : Set NodeId) (now : Int)
    (s : TxRequestTracker) (expired : List (NodeId×GenTxid))
    (r : List (NodeId×GenTxid)×TxRequestTracker) : Prop where
  sane : r.2.Sane computer peers
  kept : Kept s r.2
  tracked : r.2.index.map track=TrackerSpec.settle now (s.index.map track)
  expired : r.1.Perm (expired++TrackerSpec.expiring now (s.index.map track))
  settled : Settled now r.2.index

lemma Sane.advanced_of_settled (hs : s.Sane computer peers) (hst : Settled now s.index)
    (e : List (NodeId×GenTxid)) : Advanced computer peers now s e (e,s) := by
  refine ⟨hs,Kept.refl s,?_,?_,hst⟩
  · rw [TrackerSpec.settle,hst.expire_map,hs.alive.dropCompleted_map]
  · rw [hst.expiring_map,append_nil]

lemma Sane.advanceTime (now : Int) (n : Nat) (hs : s.Sane computer peers)
    (hn : s.index.countP isWaiting≤n) (e : List (NodeId×GenTxid)) :
    Advanced computer peers now s e (advanceTime o now n s e) := by
  induction n generalizing s e with
  | zero =>
    refine hs.advanced_of_settled (fun a ha hw => ?_) e
    exact absurd hw (countP_eq_zero.mp (Nat.le_zero.mp hn) a ha)
  | succ n ih =>
    unfold TxRequestTracker.advanceTime
    cases hh : (o.byTime.list s.index).head? with
    | none =>
      refine hs.advanced_of_settled (fun a ha => ?_) e
      rw [← o.byTime.mem_list,head?_eq_none_iff.mp hh] at ha
      cases ha
    | some it =>
      have hit : it∈s.index := o.byTime.mem_list.mp (mem_of_head? hh)
      simp only
      by_cases hp : it.state=candidateDelayed ∧ it.time≤now
      · rw [if_pos hp]
        have ht := hs.promoteCandidateReady (o := o) hit hp.1
        have htr : (s.promoteCandidateReady o it).index.map track=s.index.map track := by
          rw [map_of_unselect (fun _ => track_unselect) ht.index,
            map_track_restate_candidate hs.nodup hit (by rw [hp.1]; rfl)]
        have hl : (s.promoteCandidateReady o it).index.countP isWaiting<
            s.index.countP isWaiting := by
          rw [countP_of_unselect isWaiting_unselect ht.index]
          exact countP_restate_lt hs.nodup hit (by simp [hp.1]) rfl
        have hk := ht.kept (map_sequence_modified fun _ => rfl)
        obtain ⟨hsa,hk',hm,hpe,hst⟩ := ih ht.sane (by omega) e
        rw [htr] at hm hpe
        exact ⟨hsa,hk.trans hk',hm,hpe,hst⟩
      rw [if_neg hp]
      by_cases he : it.state=requested ∧ it.time≤now
      · rw [if_pos he]
        obtain ⟨hsa,hk,-⟩ := hs.makeCompleted_track (o := o) hit
        obtain ⟨hse,hex⟩ := hs.settle_makeCompleted (o := o) hit he.1 he.2
        have hl := hs.countP_makeCompleted_lt (o := o) hit he.1
        obtain ⟨hsa',hk',hm,hpe,hst⟩ := ih hsa (by omega) (e++[(it.peer,it.toGenTxid)])
        refine ⟨hsa',hk.trans hk',hm.trans hse,hpe.trans ?_,hst⟩
        rw [append_assoc]
        exact hex.append_left e
      rw [if_neg he]
      refine hs.advanced_of_settled (fun a ha hw => ?_) e
      obtain ⟨hi,hle⟩ := waiting_of_view (o.byTime.head_le hh ha) hw
      rw [isWaiting_iff] at hi
      refine lt_of_lt_of_le (not_le.mp fun hno => ?_) hle
      obtain h | h := hi
      · exact he ⟨h,hno⟩
      · exact hp ⟨h,hno⟩

/- Every candidate that is ready has reached its time. -/
def Due (now : Int) (L : List Announcement) : Prop := ∀ a∈L, a.isSelectable → a.time≤now

lemma Sane.rewindTime (n : Nat) (hs : s.Sane computer peers) (hst : Settled now s.index)
    (hn : s.index.countP (fun a => a.isSelectable && decide (now<a.time))≤n) :
    (rewindTime o now n s).Sane computer peers ∧ Kept s (rewindTime o now n s) ∧
      (rewindTime o now n s).index.map track=s.index.map track ∧
      Settled now (rewindTime o now n s).index ∧ Due now (rewindTime o now n s).index := by
  induction n generalizing s with
  | zero =>
    refine ⟨hs,Kept.refl s,rfl,hst,fun a ha hse => ?_⟩
    have hno := countP_eq_zero.mp (Nat.le_zero.mp hn) a ha
    simpa [hse] using hno
  | succ n ih =>
    unfold TxRequestTracker.rewindTime
    cases hl : (o.byTime.list s.index).getLast? with
    | none =>
      refine ⟨hs,Kept.refl s,rfl,hst,fun a ha => ?_⟩
      rw [← o.byTime.mem_list,getLast?_eq_none_iff.mp hl] at ha
      cases ha
    | some it =>
      have hit : it∈s.index := o.byTime.mem_list.mp (mem_of_getLast? hl)
      simp only
      by_cases he : it.isSelectable ∧ now < it.time
      · rw [if_pos he]
        have ht : Reselected computer peers s it.txhash (restate it candidateDelayed s.index)
            (s.changeAndReselect o it candidateDelayed) :=
          hs.changeAndReselect hit (Or.inr rfl) (Or.inl (by decide))
        have hstate := he.1
        rw [isSelectable_iff] at hstate
        have hlt : (s.changeAndReselect o it candidateDelayed).index.countP
            (fun a => a.isSelectable && decide (now<a.time))<
            s.index.countP fun a => a.isSelectable && decide (now<a.time) := by
          rw [countP_of_unselect (fun a => by rw [isSelectable_unselect,time_unselect]) ht.index]
          exact countP_restate_lt hs.nodup hit (by simp [he]) rfl
        have htr : (s.changeAndReselect o it candidateDelayed).index.map track=
            s.index.map track := by
          rw [map_of_unselect (fun _ => track_unselect) ht.index,
            map_track_restate_candidate hs.nodup hit (by obtain h | h := hstate <;> rw [h] <;> rfl)]
        have hst' : Settled now (s.changeAndReselect o it candidateDelayed).index := by
          intro a ha hw
          obtain ⟨b,hb,hba⟩ := exists_of_map_unselect ht.index.symm ha
          rw [← isWaiting_unselect,← hba,isWaiting_unselect] at hw
          rw [← time_unselect,← hba,time_unselect]
          obtain rfl | ⟨hb,-⟩ := (mem_modified hs.nodup hit).mp hb
          · exact he.2
          · exact hst b hb hw
        have hk := ht.kept (map_sequence_modified fun _ => rfl)
        obtain ⟨hsa,hk',hm,hset,hd⟩ := ih ht.sane hst' (by omega)
        exact ⟨hsa,hk.trans hk',hm.trans htr,hset,hd⟩
      rw [if_neg he]
      refine ⟨hs,Kept.refl s,rfl,hst,fun a ha hse => ?_⟩
      obtain ⟨hits,hle⟩ := selectable_of_view (o.byTime.le_getLast hl ha) hse
      exact hle.trans (not_lt.mp fun h => he ⟨hits,h⟩)

/-- After SetTimePoint the announcements are those of the specification, and a candidate is ready
exactly when its time has come. -/
lemma Sane.setTimePoint (hs : s.Sane computer peers) (now : Int) :
    Advanced computer peers now s [] (s.setTimePoint o now) ∧
      Due now (s.setTimePoint o now).2.index := by
  obtain ⟨hsa,hk,hm,hp,hst⟩ := hs.advanceTime (o := o) now s.index.length countP_le_length []
  obtain ⟨hsa',hk',hm',hst',hd⟩ := hsa.rewindTime (o := o) _ hst countP_le_length
  exact ⟨⟨hsa',hk.trans hk',hm'.trans hm,hp,hst'⟩,hd⟩

lemma map_track_erased : (erased it L).map track=(L.map track).filter fun a => a.key != it.key := by
  rw [filter_map]
  rfl

lemma erased_modified (hf : ∀ a, (f a).key=a.key) : erased it (modified it f L)=erased it L := by
  rw [erased,erased,modified,filter_map]
  have hsa : L.filter ((fun a => !it.isAt a) ∘ fun a => if it.isAt a then f a else a)=
      L.filter fun a => !it.isAt a := by
    refine filter_congr fun a _ => ?_
    by_cases h : a.key=it.key <;> simp [h,isAt,hf]
  rw [hsa]
  conv_rhs => rw [← map_id (L.filter _)]
  refine map_congr_left fun a ha => ?_
  have hn : it.isAt a=false := by simpa using (mem_filter.mp ha).2
  simp [hn]

def disconnectTurn (o : IndexOrders computer) (s : TxRequestTracker) (it : Announcement) :
    TxRequestTracker :=
  if (s.makeCompleted o it).1 then (s.makeCompleted o it).2.erase (it.setState completed)
  else (s.makeCompleted o it).2

lemma Sane.disconnectTurn (hs : s.Sane computer peers) (hit : it∈s.index) :
    (disconnectTurn o s it).Sane computer peers ∧ Kept s (disconnectTurn o s it) ∧
      (disconnectTurn o s it).index.map track=
        dropCompleted ((s.index.map track).filter fun a => a.key != it.key) ∧
      SameElsewhere it.txhash s.index (disconnectTurn o s it).index ∧
      ∀ a∈(disconnectTurn o s it).index, a.key≠it.key := by
  have he {t} (ht : t.Sane computer peers) (hke : Kept s t) (hm : it.setState completed∈t.index)
      (htr : (erased it t.index).map track=(s.index.map track).filter fun a => a.key != it.key)
      (hsm : SameElsewhere it.txhash s.index t.index) :
      (t.erase (it.setState completed)).Sane computer peers ∧
        Kept s (t.erase (it.setState completed)) ∧
        (t.erase (it.setState completed)).index.map track=
          dropCompleted ((s.index.map track).filter fun a => a.key != it.key) ∧
        SameElsewhere it.txhash s.index (t.erase (it.setState completed)).index ∧
        ∀ a∈(t.erase (it.setState completed)).index, a.key≠it.key := by
    have hsa := ht.erase hm rfl
    refine ⟨hsa,hke.trans ⟨rfl,filter_sublist.map _⟩,?_,fun b hb => ?_,
      fun a ha => (mem_erased.mp ha).2⟩
    · rw [← htr]
      exact hsa.alive.dropCompleted_map.symm
    · rw [← hsm b hb]
      refine mem_erased.trans (and_iff_left fun hk => ?_)
      exact hb (key_eq_iff.mp hk).1
  unfold TxRequestTracker.disconnectTurn
  obtain ⟨hstate,heq⟩ | ⟨t,heq,-,ho,ht⟩ | ⟨t,heq,-,ht⟩ := hs.makeCompleted (o := o) hit
  · have hse : it.setState completed=it := by rw [setState,← hstate]
    rw [heq]
    exact he hs (Kept.refl s) (hse.symm ▸ hit) map_track_erased fun _ _ => Iff.rfl
  · rw [heq]
    refine ⟨ht.sane,ht.kept,?_,ht.elsewhere,fun a ha hk => ?_⟩
    · rw [if_neg (by simp),ht.track,dropCompleted_eq_filter it.txhash,filter_filter]
      · refine filter_congr fun a _ => ?_
        by_cases h : a.txhash=it.txhash
        · simp [h]
        · have hk : a.key≠it.key := fun hk => h (congrArg Prod.fst hk)
          simp [h,hk]
      · intro b hb hbh
        obtain ⟨hb,hbk⟩ := mem_filter.mp hb
        obtain ⟨c,hc,rfl⟩ := mem_map.mp hb
        rw [track_completed]
        exact ho c hc hbh (by simpa using hbk)
      · intro b hb hbh
        obtain ⟨hb,-⟩ := mem_filter.mp hb
        obtain ⟨c,hc,rfl⟩ := mem_map.mp hb
        obtain ⟨d,hd,hdc,hds⟩ := hs.alive c hc
        have hdk : d.key≠it.key := fun hk => hbh (hdc.symm.trans (key_eq_iff.mp hk).1)
        exact ⟨d.track,mem_filter.mpr ⟨mem_map_of_mem hd,by simpa using hdk⟩,hdc,by simpa using hds⟩
    · rw [if_neg (by simp),ht.index,mem_filter] at ha
      exact (by simpa using ha.2 : a.txhash≠it.txhash) (key_eq_iff.mp hk).1
  · rw [heq]
    obtain ⟨b,hb,hbi⟩ := exists_of_map_unselect ht.index
        ((mem_modified hs.nodup hit).mpr (Or.inl rfl))
    have hbe : b=it.setState completed := by
      have hcp : (it.setState completed).unselect=it.setState completed := by
        simp [unselect]
      have hbs : b.state=completed := by
        rw [← unselect_completed,hbi,hcp]
        rfl
      rw [← hcp,← hbi,unselect,if_neg (by simp [hbs])]
    refine he ht.sane (ht.kept (map_sequence_modified fun _ => rfl)) (hbe ▸ hb) ?_ ht.elsewhere
    rw [map_track_erased,map_of_unselect (fun _ => track_unselect) ht.index,← map_track_erased,
      ← map_track_erased,restate,erased_modified (f := setState completed) fun _ => rfl]

lemma peer_le_of_view (h : a.byPeerView≤b.byPeerView) : a.peer≤b.peer := by
  rw [byPeerView,byPeerView,Prod.Lex.toLex_le_toLex] at h
  obtain h | ⟨h,-⟩ := h
  · exact le_of_lt h
  · exact le_of_eq h

lemma key_eq_of_view (h : a.byPeerView=b.byPeerView) : a.key=b.key := by
  simp only [byPeerView,EmbeddingLike.apply_eq_iff_eq,Prod.mk.injEq] at h
  rw [key,key,h.1,h.2.2]

/- The loop stands at the first announcement that is left of the peer. -/
structure AtPeer (peer : NodeId) (L : List Announcement) (cur : Option Announcement) : Prop where
  mem : ∀ it, cur=some it → it∈L ∧ peer ≤ it.peer
  least : ∀ a∈L, a.peer=peer → ∃ it, cur=some it ∧ it.byPeerView≤a.byPeerView

lemma Sane.atPeer_next (hs : s.Sane computer peers) (hc : AtPeer peer s.index (some it))
    (hp : it.peer=peer)
    {L : List Announcement} (hsa : SameElsewhere it.txhash s.index L) (hg : ∀ a∈L, a.key≠it.key) :
    AtPeer peer L ((following it.isAt (o.byPeer.list s.index)).head?.filter
      fun a => a.peer==peer) := by
  have hit := (hc.mem it rfl).1
  have hat := isAt_iff_eq hs.nodup hit
  refine ⟨fun n hn => ?_,fun a ha hap => ?_⟩
  · obtain ⟨hnx,hnp⟩ := Option.filter_eq_some_iff.mp hn
    obtain ⟨hnL,hne,-⟩ := o.byPeer.of_next hit hat (hs.nodup.of_map key) hnx
    have hnpe : n.peer=peer := by simpa using hnp
    have hnh : n.txhash≠it.txhash := fun h =>
      hne (eq_of_key hs.nodup hnL hit (key_eq_iff.mpr ⟨h,hnpe.trans hp.symm⟩))
    exact ⟨(hsa n hnh).mpr hnL,hnpe.ge⟩
  · have hah : a.txhash≠it.txhash := fun h =>
      hg a ha (key_eq_iff.mpr ⟨h,hap.trans hp.symm⟩)
    have haL := (hsa a hah).mp ha
    obtain ⟨_,hit',hl⟩ := hc.least a haL hap
    obtain rfl := Option.some.inj hit'
    obtain h | rfl | h := (o.byPeer.mem_around hit hat).mp haL
    · have hge := (o.byPeer.sorted_around hit hat).2.2 a h
      exact absurd (key_eq_of_view (le_antisymm hge hl)) (hg a ha)
    · exact absurd rfl (hg a ha)
    · obtain ⟨n,hn,hna⟩ := o.byPeer.next_le hit hat h
      obtain ⟨-,-,hi⟩ := o.byPeer.of_next hit hat (hs.nodup.of_map key) hn
      have hnpe : n.peer=peer := le_antisymm (hap ▸ peer_le_of_view hna) (hp ▸ peer_le_of_view hi)
      exact ⟨n,Option.filter_eq_some_iff.mpr ⟨hn,by simpa using hnpe⟩,hna⟩

lemma Sane.disconnected_of_none (hs : s.Sane computer peers)
    (hn : ∀ a∈s.index, a.peer≠peer) : s.Sane computer peers ∧ Kept s s ∧
      s.index.map track=dropCompleted ((s.index.map track).filter fun a => a.peer != peer) := by
  refine ⟨hs,Kept.refl s,?_⟩
  rw [filter_eq_self.mpr fun b hb => ?_]
  · exact hs.alive.dropCompleted_map.symm
  · obtain ⟨a,ha,rfl⟩ := mem_map.mp hb
    simpa using hn a ha

lemma Sane.countP_disconnectTurn_lt (hs : s.Sane computer peers) (hit : it∈s.index) :
    (TxRequestTracker.disconnectTurn o s it).index.countP (fun a => a.peer==it.peer)<
      s.index.countP fun a => a.peer==it.peer := by
  have hc (M : List Announcement) : M.countP (fun a => a.peer==it.peer)=
      (M.map track).countP fun a => a.peer==it.peer := by
    rw [countP_map]
    rfl
  have hl := List.Sublist.countP_le (p := fun a : TrackedAnnouncement => a.peer==it.peer)
    (filter_sublist (l := (s.index.map track).filter fun a => a.key != it.key)
      (p := fun a => ((s.index.map track).filter fun a => a.key != it.key).any
        fun b => b.txhash==a.txhash && b.state != .completed))
  rw [hc,(hs.disconnectTurn (o := o) hit).2.2.1,(perm_erased hs.nodup hit).countP_eq,
    countP_cons_of_pos (by simp),hc (erased it s.index),map_track_erased]
  exact Nat.lt_succ_of_le hl

lemma Sane.disconnectLoop (n : Nat) (hs : s.Sane computer peers) {cur : Option Announcement}
    (hc : AtPeer peer s.index cur) (hn : s.index.countP (fun a => a.peer==peer)≤n) :
    (disconnectLoop o peer n s cur).Sane computer peers ∧ Kept s (disconnectLoop o peer n s cur) ∧
      (disconnectLoop o peer n s cur).index.map track=
        dropCompleted ((s.index.map track).filter fun a => a.peer != peer) := by
  induction n generalizing s cur with
  | zero =>
    refine hs.disconnected_of_none fun a ha hap => ?_
    exact countP_eq_zero.mp (Nat.le_zero.mp hn) a ha (by simpa using hap)
  | succ n ih =>
    cases cur with
    | none =>
      refine hs.disconnected_of_none fun a ha hap => ?_
      obtain ⟨it,hit,-⟩ := hc.least a ha hap
      cases hit
    | some it =>
      obtain ⟨hit,hl⟩ := hc.mem it rfl
      unfold TxRequestTracker.disconnectLoop
      by_cases hp : it.peer=peer
      case neg =>
        rw [if_neg hp]
        refine hs.disconnected_of_none fun a ha hap => ?_
        obtain ⟨_,hit',hv⟩ := hc.least a ha hap
        obtain rfl := Option.some.inj hit'
        exact hp (le_antisymm (hap ▸ peer_le_of_view hv) hl)
      rw [if_pos hp]
      obtain ⟨hsa,hke,ht,hsm,hg⟩ := hs.disconnectTurn (o := o) hit
      have hlt := hs.countP_disconnectTurn_lt (o := o) hit
      rw [hp] at hlt
      obtain ⟨hsa',hke',ht'⟩ := ih hsa (hs.atPeer_next (o := o) hc hp hsm hg) (by omega)
      refine ⟨hsa',hke.trans hke',ht'.trans ?_⟩
      rw [ht,TrackerSpec.disconnect_dropCompleted,filter_filter]
      congr 1
      refine filter_congr fun a _ => ?_
      by_cases h : a.peer=peer
      · simp [h]
      · have hk : a.key≠it.key := fun hk => h ((congrArg Prod.snd hk).trans hp)
        simp [h,hk]

lemma Sane.disconnectedPeer (hs : s.Sane computer peers) (peer : NodeId) :
    (s.disconnectedPeer o peer).Sane computer peers ∧ Kept s (s.disconnectedPeer o peer) ∧
      (s.disconnectedPeer o peer).index.map track=
        dropCompleted ((s.index.map track).filter fun a => a.peer != peer) := by
  refine hs.disconnectLoop s.index.length ⟨fun it hit => ?_,fun a ha hap => ?_⟩ countP_le_length
  · obtain ⟨hit,hl,-⟩ := o.byPeer.lowerBound_head?_eq_some hit
    rw [byPeerView,Prod.Lex.toLex_le_toLex] at hl
    obtain h | h := hl
    · exact ⟨hit,le_of_lt h⟩
    · exact ⟨hit,le_of_eq h.1⟩
  · have hk : toLex (peer,toLex (false,0))≤a.byPeerView := by
      rw [byPeerView,Prod.Lex.toLex_le_toLex]
      refine Or.inr ⟨hap.symm,?_⟩
      rw [Prod.Lex.toLex_le_toLex]
      cases hb : a.state==candidateBest <;> simp
    cases hh : (o.byPeer.lowerBound s.index (toLex (peer,toLex (false,0)))).head? with
    | none => exact absurd (o.byPeer.lowerBound_head?_eq_none hh a ha) (not_lt.mpr hk)
    | some it => exact ⟨it,rfl,(o.byPeer.lowerBound_head?_eq_some hh).2.2 a ha hk⟩
end TxRequestTracker
end Xero
