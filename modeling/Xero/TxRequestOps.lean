import Xero.TxRequestSelection

/-! The operations of TxRequestTracker keep the selection and the statistics of the peers right. -/
namespace Xero
open Library AnnouncementState Announcement List Function
variable {computer : PriorityComputer} {peers : Set NodeId} {L : List Announcement}
  {it : Announcement} {f : Announcement → Announcement}

def erased (it : Announcement) (L : List Announcement) : List Announcement :=
  L.filter fun a => !it.isAt a

lemma mem_erased {b : Announcement} : b∈erased it L ↔ b∈L ∧ b.key≠it.key := by
  simp [erased,isAt]

section
variable (hnd : (L.map key).Nodup) (hit : it∈L)
include hnd hit

lemma isAt_iff_eq : ∀ b∈L, it.isAt b ↔ b=it := fun b hb => by
  rw [isAt_iff]
  exact ⟨eq_of_key hnd hb hit,congrArg key⟩

lemma perm_erased : L.Perm (it::erased it L) := by
  have he : L.erase it=erased it L := by
    rw [(hnd.of_map key).erase_eq_filter]
    refine filter_congr fun a ha => ?_
    have hi : a=it ↔ a.key=it.key := ⟨congrArg key,eq_of_key hnd ha hit⟩
    simp [bne,isAt,hi]
  rw [← he]
  exact perm_cons_erase hit

lemma perm_modified : (modified it f L).Perm (f it::erased it L) := by
  have hp := (perm_erased hnd hit).map fun a => if it.isAt a then f a else a
  have hr : (erased it L).map (fun a => if it.isAt a then f a else a)=erased it L := by
    conv_rhs => rw [← map_id (erased it L)]
    refine map_congr_left fun a ha => ?_
    simp [(mem_erased.mp ha).2]
  rw [map_cons,hr] at hp
  simpa [modified] using hp
end

def recomputePeerInfo (L : List Announcement) (p : NodeId) : Option PeerInfo :=
  if L.countP (fun a => a.peer==p)=0 then none
  else some ⟨L.countP fun a => a.peer==p,L.countP fun a => a.peer==p && a.state==completed,
    L.countP fun a => a.peer==p && a.state==requested⟩

variable {M : List Announcement}

lemma recomputePeerInfo_perm (h : L.Perm M) : recomputePeerInfo L=recomputePeerInfo M := by
  funext p
  simp only [recomputePeerInfo,h.countP_eq]

lemma recomputePeerInfo_cons_of_ne {p : NodeId} (h : it.peer≠p) :
    recomputePeerInfo (it::L) p=recomputePeerInfo L p := by
  simp [recomputePeerInfo,h]

lemma recomputePeerInfo_cons_self (it : Announcement) (L : List Announcement) :
    recomputePeerInfo (it::L) it.peer=
    some ⟨L.countP (fun a => a.peer==it.peer)+1,
      L.countP (fun a => a.peer==it.peer && a.state==completed)+(it.state==completed).toNat,
      L.countP (fun a => a.peer==it.peer && a.state==requested)+(it.state==requested).toNat⟩ := by
  simp [recomputePeerInfo,countP_cons,Bool.toNat,Bool.cond_eq_ite]

namespace TxRequestTracker
variable {s : TxRequestTracker}

def Counted (s : TxRequestTracker) : Prop := ∀ p, s.peerinfo p=recomputePeerInfo s.index p

lemma Counted.erase (hc : s.Counted) (hnd : (s.index.map key).Nodup) (hit : it∈s.index) :
    (s.erase it).Counted := by
  intro p
  have hp := hc p
  rw [recomputePeerInfo_perm (perm_erased hnd hit)] at hp
  change update s.peerinfo it.peer _ p=recomputePeerInfo (erased it s.index) p
  by_cases h : it.peer=p
  · subst h
    rw [update_self,hp,recomputePeerInfo_cons_self]
    simp only [Option.bind_some,Nat.add_sub_cancel,recomputePeerInfo]
  · rw [update_of_ne (Ne.symm h),hp,recomputePeerInfo_cons_of_ne h]

lemma Counted.modify (hc : s.Counted) (hnd : (s.index.map key).Nodup) (hit : it∈s.index)
    (hf : (f it).peer=it.peer) : (s.modify it f).Counted := by
  intro p
  have hp := hc p
  rw [recomputePeerInfo_perm (perm_erased hnd hit)] at hp
  change update s.peerinfo it.peer _ p=recomputePeerInfo (modified it f s.index) p
  rw [recomputePeerInfo_perm (perm_modified hnd hit)]
  by_cases h : it.peer=p
  · subst h
    have hse := recomputePeerInfo_cons_self (f it) (erased it s.index)
    rw [hf] at hse
    rw [update_self,hp,recomputePeerInfo_cons_self,hse]
    simp only [Option.map_some,Nat.add_sub_cancel]
  · rw [update_of_ne (Ne.symm h),hp,recomputePeerInfo_cons_of_ne h,
      recomputePeerInfo_cons_of_ne (hf ▸ h)]

lemma Counted.emplace (hc : s.Counted) (g : GenTxid) (peer : NodeId) (pr : Bool)
    (reqtime : Int) : (s.emplace g peer pr reqtime).Counted := by
  intro p
  have hp := perm_append_singleton (make g peer pr reqtime s.currentSequence) s.index
  change update s.peerinfo peer _ p=recomputePeerInfo (s.index++[_]) p
  rw [recomputePeerInfo_perm hp]
  by_cases h : peer=p
  · subst h
    have hse := recomputePeerInfo_cons_self (make g peer pr reqtime s.currentSequence) s.index
    have hcp : (candidateDelayed==completed)=false := rfl
    have hr : (candidateDelayed==requested)=false := rfl
    simp only [make,hcp,hr] at hse
    rw [make,hse,hc peer,recomputePeerInfo]
    by_cases hz : s.index.countP (fun a => a.peer==peer)=0
    · have hn {q : Announcement → Bool} : s.index.countP (fun a => a.peer==peer && q a)=0 := by
        refine Nat.le_zero.mp (hz ▸ countP_mono_left fun a _ h => ?_)
        simp only [Bool.and_eq_true] at h
        exact h.1
      simp [hz,hn]
    · simp [hz]
  · rw [update_of_ne (Ne.symm h),hc p,recomputePeerInfo_cons_of_ne h]
end TxRequestTracker

variable {a : Announcement}

lemma exists_of_map_unselect (h : L.map unselect=M.map unselect)
    (ha : a∈M) : ∃ b∈L, b.unselect=a.unselect := by
  have hm : a.unselect∈L.map unselect := h ▸ mem_map_of_mem ha
  exact mem_map.mp hm

lemma key_eq_of_unselect {b : Announcement} (h : a.unselect=b.unselect) : a.key=b.key := by
  rw [← a.unselect_key,← b.unselect_key,h]

lemma unselect_completed : a.unselect.state=completed ↔ a.state=completed := by
  unfold unselect
  split
  · simp_all
  · rfl

/- Every transaction has an announcement that is not completed. -/
def Alive (L : List Announcement) : Prop :=
  ∀ a∈L, ∃ b∈L, b.txhash=a.txhash ∧ b.state≠completed

lemma Alive.congr (hL : Alive L) (h : M.map unselect=L.map unselect) : Alive M := by
  intro a ha
  obtain ⟨b,hb,hba⟩ := exists_of_map_unselect h.symm ha
  obtain ⟨c,hc,hcb,hcs⟩ := hL b hb
  obtain ⟨d,hd,hdc⟩ := exists_of_map_unselect h hc
  refine ⟨d,hd,?_,?_⟩
  · rw [(key_eq_iff.mp (key_eq_of_unselect hdc)).1,hcb,(key_eq_iff.mp (key_eq_of_unselect hba)).1]
  · rw [ne_eq,← unselect_completed,hdc,unselect_completed]
    exact hcs

lemma Alive.modified (hL : Alive L) (hnd : (L.map key).Nodup) (hit : it∈L)
    (hf : (f it).txhash=it.txhash)
    (ho : (f it).state≠completed ∨ ∃ c∈L, c.txhash=it.txhash ∧ c.key≠it.key ∧ c.state≠completed) :
    Alive (modified it f L) := by
  have hm {b} := mem_modified (f := f) (b := b) hnd hit
  have hse : ∃ b∈Xero.modified it f L, b.txhash=it.txhash ∧ b.state≠completed := by
    obtain h | ⟨c,hc,hch,hck,hcs⟩ := ho
    · exact ⟨f it,hm.mpr (.inl rfl),hf,h⟩
    · exact ⟨c,hm.mpr (.inr ⟨hc,hck⟩),hch,hcs⟩
  intro a ha
  obtain rfl | ⟨ha,-⟩ := hm.mp ha
  · rw [hf]
    exact hse
  · obtain ⟨b,hb,hba,hbs⟩ := hL a ha
    by_cases hk : b.key=it.key
    · rw [← hba,(key_eq_iff.mp hk).1]
      exact hse
    · exact ⟨b,hm.mpr (.inr ⟨hb,hk⟩),hba,hbs⟩

namespace TxRequestTracker
variable {s t : TxRequestTracker} {o : IndexOrders computer}

/-- The invariant of the tracker, for announcements by the given peers. -/
structure Sane (computer : PriorityComputer) (peers : Set NodeId)
    (s : TxRequestTracker) : Prop where
  selection : Selection computer s.index
  alive : Alive s.index
  known : ∀ a∈s.index, a.peer∈peers
  counted : s.Counted

/-- The tracker has come to the announcements `U`, with the selection renewed for one transaction. -/
structure Reselected (computer : PriorityComputer) (peers : Set NodeId) (s : TxRequestTracker)
    (txhash : Uint256) (U : List Announcement) (t : TxRequestTracker) : Prop where
  sane : t.Sane computer peers
  index : t.index.map unselect=U.map unselect
  elsewhere : SameElsewhere txhash s.index t.index
  sequence : t.currentSequence=s.currentSequence

lemma Sane.nodup (hs : s.Sane computer peers) : (s.index.map key).Nodup := hs.selection.nodup

variable {st : AnnouncementState}

lemma Sane.reselected (hs : s.Sane computer peers) (hit : it∈s.index)
    (ho : st≠completed ∨ ∃ c∈s.index, c.txhash=it.txhash ∧ c.key≠it.key ∧ c.state≠completed)
    (hi : t.index.map unselect=(restate it st s.index).map unselect)
    (hse : Selection computer t.index)
    (hc : t.Counted) (he : SameElsewhere it.txhash s.index t.index)
    (hsq : t.currentSequence=s.currentSequence) :
    Reselected computer peers s it.txhash (restate it st s.index) t := by
  refine ⟨⟨hse,?_,fun a ha => ?_,hc⟩,hi,he,hsq⟩
  · exact (hs.alive.modified hs.nodup hit rfl ho).congr hi
  · obtain ⟨b,hb,hba⟩ := exists_of_map_unselect hi.symm ha
    rw [← (key_eq_iff.mp (key_eq_of_unselect hba)).2]
    obtain rfl | ⟨hb,-⟩ := (mem_modified hs.nodup hit).mp hb
    · exact hs.known it hit
    · exact hs.known b hb

variable {c : Announcement}

lemma selected_or_completed (hc : c.isSelected)
    (hv : c.byTxHashView computer ≤ it.byTxHashView computer) (hh : c.txhash=it.txhash) :
    it.isSelected ∨ it.state=completed := by
  have hco := (state_le_of_view hv hh).1
  rw [isSelected_iff] at hc ⊢
  cases hit : it.state <;> obtain hc | hc := hc <;> simp [hc,hit,code] at hco ⊢

lemma completed_of_view (hc : c.state=completed)
    (hv : c.byTxHashView computer ≤ it.byTxHashView computer) (hh : c.txhash=it.txhash) :
    it.state=completed := by
  have hco := (state_le_of_view hv hh).1
  rw [hc] at hco
  cases hit : it.state <;> simp [hit,code] at hco ⊢

lemma not_selected_of_next {U : List Announcement} (hU : Keyed computer U) (hit : it∈U)
    (hr : it.state=candidateReady)
    (hnx : ∀ n, (following it.isAt (o.byTxHash.list U)).head?=some n →
      n.txhash≠it.txhash ∨ n.state=completed)
    (hc : c∈U) (hh : c.txhash=it.txhash) : ¬ c.isSelected := by
  have hat := isAt_iff_eq hU.nodup hit
  obtain hb | rfl | ha := (o.byTxHash.mem_around hit hat).mp hc
  · intro hse
    simpa [hr] using selected_or_completed hse ((o.byTxHash.sorted_around hit hat).2.2 c hb) hh
  · simp [hr]
  · obtain ⟨n,hn,hl⟩ := o.byTxHash.next_le hit hat ha
    obtain ⟨_,_,hg⟩ := o.byTxHash.of_next hit hat (hU.nodup.of_map key) hn
    have hsa : n.txhash=it.txhash := le_antisymm (hh ▸ txhash_le_of_view hl) (txhash_le_of_view hg)
    have hcp := (hnx n hn).resolve_left (not_not.mpr hsa)
    simp [completed_of_view hcp hl (hsa.trans hh.symm)]

lemma restate_comm {n : Announcement} (hne : n.key≠it.key) {st' : AnnouncementState} :
    restate n st (restate it st' L)=restate it st' (restate n st L) := by
  simp only [restate,modified,map_map]
  refine map_congr_left fun a _ => ?_
  by_cases h : a.key=it.key
  · simp [h,Ne.symm hne]
  · by_cases hn : a.key=n.key <;> simp [h,hn,hne]

section
variable (hs : s.Sane computer peers) (hit : it∈s.index)
include hs hit

lemma Sane.promote_best (hst : it.state=candidateDelayed)
    (hn : ∀ n, (s.modify it (setState candidateReady)).nextByTxHash o
      (it.setState candidateReady)=some n → n.txhash≠it.txhash ∨ n.state=completed) :
    Reselected computer peers s it.txhash (restate it candidateReady s.index)
      ((s.modify it (setState candidateReady)).modify (it.setState candidateReady)
        (setState candidateBest)) := by
  have hm {b} := mem_modified (f := setState candidateReady) (b := b) hs.nodup hit
  have hkd := hs.selection.toKeyed.restate hit candidateReady
  have hit' : it.setState candidateReady∈restate it candidateReady s.index := hm.mpr (.inl rfl)
  have hct := hs.counted.modify hs.nodup hit (f := setState candidateReady) rfl
  have hno c (hc : c∈s.index) (hch : c.txhash=it.txhash) : ¬ c.isSelected := by
    by_cases hk : c.key=it.key
    · rw [eq_of_key hs.nodup hc hit hk]
      simp [hst]
    · exact not_selected_of_next hkd hit' rfl hn (hm.mpr (.inr ⟨hc,hk⟩)) hch
  refine hs.reselected hit (.inl (by decide)) ?_ ?_ (hct.modify hkd.nodup hit' rfl) ?_ rfl
  · exact map_unselect_restate hkd.nodup hit' (by simp) (.inr rfl)
  · change Selection computer (restate (it.setState candidateReady) candidateBest
      (restate it candidateReady s.index))
    rw [restate_restate]
    exact hs.selection.restate_best hit hno
  · exact (sameElsewhere_modified hs.nodup hit rfl).trans
        (sameElsewhere_modified hkd.nodup hit' rfl :
        SameElsewhere (it.setState candidateReady).txhash _ _)

lemma Sane.promote_waits (hst : it.state=candidateDelayed)
    (hr : ∃ c∈s.index, c.txhash=it.txhash ∧ (c.state=requested ∨
      c.state=candidateBest ∧ it.priority computer ≤ c.priority computer)) :
    Reselected computer peers s it.txhash (restate it candidateReady s.index)
      (s.modify it (setState candidateReady)) := by
  refine hs.reselected hit (.inl (by decide)) rfl (hs.selection.restate_ready hit hst hr) ?_ ?_ rfl
  · exact hs.counted.modify hs.nodup hit rfl
  · exact sameElsewhere_modified hs.nodup hit rfl

lemma Sane.promote_beats {n : Announcement} (hn : n∈s.index) (hh : n.txhash=it.txhash)
    (hb : n.state=candidateBest) (hne : n.key≠it.key)
    (hl : n.priority computer < it.priority computer) :
    Reselected computer peers s it.txhash (restate it candidateReady s.index)
      (((s.modify it (setState candidateReady)).modify n (setState candidateReady)).modify
        (it.setState candidateReady) (setState candidateBest)) := by
  have hk := hs.selection.toKeyed.restate hit candidateReady
  have hn' : n∈restate it candidateReady s.index := (mem_modified hs.nodup hit).mpr (.inr ⟨hn,hne⟩)
  have hk' := hk.restate hn' candidateReady
  have hit' : it.setState candidateReady ∈
      restate n candidateReady (restate it candidateReady s.index) :=
    (mem_modified hk.nodup hn').mpr (.inr ⟨(mem_modified hs.nodup hit).mpr (.inl rfl),hne.symm⟩)
  have hc := (hs.counted.modify hs.nodup hit (f := setState candidateReady) rfl).modify
    hk.nodup hn' (f := setState candidateReady) rfl
  refine hs.reselected hit (.inl (by decide)) ?_ ?_ (hc.modify hk'.nodup hit' rfl) ?_ rfl
  · exact (map_unselect_restate hk'.nodup hit' (by simp) (.inr rfl)).trans
      (map_unselect_restate hk.nodup hn' (by simp [hb]) (.inl rfl))
  · change Selection computer (restate (it.setState candidateReady) candidateBest
      (restate n candidateReady (restate it candidateReady s.index)))
    rw [restate_comm hne,restate_restate]
    exact hs.selection.restate_beats hit hn hh hb hne hl
  · exact ((sameElsewhere_modified hs.nodup hit rfl).trans
      (hh ▸ sameElsewhere_modified hk.nodup hn' rfl)).trans
      (sameElsewhere_modified hk'.nodup hit' rfl :
        SameElsewhere (it.setState candidateReady).txhash _ _)

lemma Sane.promoteCandidateReady (hst : it.state=candidateDelayed) :
    Reselected computer peers s it.txhash (restate it candidateReady s.index)
      (s.promoteCandidateReady o it) := by
  have hme {b} := mem_modified (f := setState candidateReady) (b := b) hs.nodup hit
  have hk := hs.selection.toKeyed.restate hit candidateReady
  have hit' : it.setState candidateReady∈restate it candidateReady s.index := hme.mpr (.inl rfl)
  cases hnx : (s.modify it (setState candidateReady)).nextByTxHash o
      (it.setState candidateReady) with
  | none =>
    simp only [TxRequestTracker.promoteCandidateReady,hnx]
    exact hs.promote_best hit hst fun n hn => absurd (hn.symm.trans hnx) (by simp)
  | some n =>
    obtain ⟨hnU,hne,hg⟩ := o.byTxHash.of_next hit' (isAt_iff_eq hk.nodup hit')
      (hk.nodup.of_map key) hnx
    have hn := (hme.mp hnU).resolve_left hne
    simp only [TxRequestTracker.promoteCandidateReady,hnx]
    by_cases hl : n.txhash≠(it.setState candidateReady).txhash ∨ n.state=completed
    · rw [if_pos hl]
      refine hs.promote_best (o := o) hit hst fun m hm => ?_
      obtain rfl := Option.some.inj (hm.symm.trans hnx)
      exact hl
    rw [if_neg hl]
    rw [not_or,not_not] at hl
    obtain ⟨hh,hcp⟩ := hl
    obtain ⟨hco,hp⟩ := state_le_of_view hg hh.symm
    cases hns : n.state with
    | candidateDelayed =>
      rw [hns,setState_state] at hco
      exact absurd hco (by decide)
    | candidateReady =>
      obtain ⟨c,hc,hch,hse⟩ := hs.selection.ready n hn.1 hns
      have hle := hp rfl hns
      exact hs.promote_waits hit hst ⟨c,hc,hch.trans hh,hse.imp_right fun h => ⟨h.1,hle.trans h.2⟩⟩
    | candidateBest =>
      rw [if_pos rfl]
      split
      case isTrue hlt => exact hs.promote_beats hit hn.1 hh hns hn.2 hlt
      case isFalse hlt =>
        exact hs.promote_waits hit hst ⟨n,hn.1,hh,.inr ⟨hns,not_lt.mp hlt⟩⟩
    | requested => exact hs.promote_waits hit hst ⟨n,hn.1,hh,.inl hns⟩
    | completed => exact absurd hns hcp
end

lemma Sane.ready_le_prev (hs : s.Sane computer peers) (hit : it∈s.index)
    (hse : it.isSelected) (hc : c∈s.index) (hch : c.txhash=it.txhash)
    (hr : c.state=candidateReady) :
    ∃ p, s.prevByTxHash o it=some p ∧ p∈s.index ∧ p.txhash=it.txhash ∧
      p.state=candidateReady ∧ c.priority computer≤p.priority computer := by
  have ha := isAt_iff_eq hs.nodup hit
  have hb : c∈preceding it.isAt (o.byTxHash.list s.index) := by
    obtain h | rfl | h := (o.byTxHash.mem_around hit ha).mp hc
    · exact h
    · simp [hr] at hse
    · have hl := (pairwise_cons.mp (o.byTxHash.sorted_around hit ha).2.1).1 c h
      simpa [hr] using selected_or_completed hse hl hch.symm
  obtain ⟨p,hp,hcp⟩ := o.byTxHash.le_prev hit ha hb
  obtain ⟨hpL,hn,hpi⟩ := o.byTxHash.of_prev hit ha hp
  have hh : p.txhash=it.txhash := le_antisymm (txhash_le_of_view hpi) (hch ▸ txhash_le_of_view hcp)
  obtain ⟨hco,hpo⟩ := state_le_of_view hcp (hch.trans hh.symm)
  have hu : ¬ p.isSelected := fun h =>
    hn (hs.selection.eq_of_selected hpL hit hh h hse)
  rw [isSelected_iff,not_or] at hu
  have hpr : p.state=candidateReady := by
    rw [hr] at hco
    cases hst : p.state with
    | candidateDelayed =>
      rw [hst] at hco
      simp [code] at hco
    | candidateReady => rfl
    | candidateBest => exact absurd hst hu.1
    | requested => exact absurd hst hu.2
    | completed => simp [completed_of_view hst hpi hh] at hse
  exact ⟨p,hp,hpL,hh,hpr,hpo hr hpr⟩

lemma Sane.changeAndReselect (hs : s.Sane computer peers) (hit : it∈s.index)
    (hst : st=completed ∨ st=candidateDelayed)
    (ho : st≠completed ∨ ∃ c∈s.index, c.txhash=it.txhash ∧ c.key≠it.key ∧ c.state≠completed) :
    Reselected computer peers s it.txhash (restate it st s.index)
      (s.changeAndReselect o it st) := by
  have hpl (hn : it.isSelected → ∀ c∈s.index, c.txhash=it.txhash →
      c.state≠candidateReady) : Reselected computer peers s it.txhash (restate it st s.index)
        (s.modify it (setState st)) :=
    hs.reselected hit ho rfl (hs.selection.restate_unselected hit hst hn)
      (hs.counted.modify hs.nodup hit rfl) (sameElsewhere_modified hs.nodup hit rfl) rfl
  unfold TxRequestTracker.changeAndReselect
  by_cases hse : it.isSelected
  case neg =>
    rw [if_neg hse]
    exact hpl fun h => absurd h hse
  rw [if_pos hse]
  cases hpr : s.prevByTxHash o it with
  | none =>
    refine hpl fun _ c hc hch hr => ?_
    obtain ⟨p,hp,-⟩ := hs.ready_le_prev (o := o) hit hse hc hch hr
    exact absurd (hp.symm.trans hpr) (by simp)
  | some p =>
    simp only
    by_cases hp : p.txhash=it.txhash ∧ p.state=candidateReady
    case neg =>
      rw [if_neg hp]
      refine hpl fun _ c hc hch hr => ?_
      obtain ⟨q,hq,-,hqh,hqs,-⟩ := hs.ready_le_prev (o := o) hit hse hc hch hr
      obtain rfl := Option.some.inj (hq.symm.trans hpr)
      exact hp ⟨hqh,hqs⟩
    rw [if_pos hp]
    have hpL := (o.byTxHash.of_prev hit (isAt_iff_eq hs.nodup hit) hpr).1
    have hne : it.key≠p.key := fun h => by
      rw [eq_of_key hs.nodup hit hpL h] at hse
      simp [hp.2] at hse
    have hk := hs.selection.toKeyed.restate hpL candidateBest
    have hit' : it∈restate p candidateBest s.index :=
        (mem_modified hs.nodup hpL).mpr (.inr ⟨hit,hne⟩)
    refine hs.reselected hit ho ?_ ?_ ?_ ?_ rfl
    · exact map_unselect_modified_congr (fun _ => unselect_setState _)
        (map_unselect_restate hs.nodup hpL (by simp [hp.2]) (.inr rfl))
    · refine hs.selection.restate_reselect hit hpL hp.1 hp.2 hse hst fun c hc hch hr => ?_
      obtain ⟨q,hq,-,-,-,hl⟩ := hs.ready_le_prev (o := o) hit hse hc hch hr
      obtain rfl := Option.some.inj (hq.symm.trans hpr)
      exact hl
    · exact (hs.counted.modify hs.nodup hpL rfl).modify hk.nodup hit' rfl
    · exact SameElsewhere.trans (hp.1 ▸ sameElsewhere_modified hs.nodup hpL rfl)
        (sameElsewhere_modified hk.nodup hit' rfl)

lemma Counted.foldl_erase {R : List Announcement} (hc : s.Counted)
    (hnd : (s.index.map key).Nodup) (hR : ∀ a∈R, a∈s.index) (hn : (R.map key).Nodup) :
    (R.foldl TxRequestTracker.erase s).Counted ∧
      (R.foldl TxRequestTracker.erase s).index=s.index.filter (fun a => a.key∉R.map key) ∧
      (R.foldl TxRequestTracker.erase s).currentSequence=s.currentSequence := by
  induction R generalizing s with
  | nil => simpa using hc
  | cons r R ih =>
    rw [map_cons,nodup_cons] at hn
    have hr := hR r mem_cons_self
    have hre a (ha : a∈R) : a∈(s.erase r).index :=
      mem_erased.mpr ⟨hR a (mem_cons_of_mem _ ha),fun h => hn.1 (h ▸ mem_map_of_mem ha)⟩
    have hn' : ((s.erase r).index.map key).Nodup := hnd.sublist (filter_sublist.map key)
    obtain ⟨hct,hi,hse⟩ := ih (hc.erase hnd hr) hn' hre hn.2
    rw [foldl_cons]
    refine ⟨hct,?_,hse⟩
    rw [hi]
    change (erased r s.index).filter _=_
    rw [erased,filter_filter]
    refine filter_congr fun a _ => ?_
    by_cases h : a.key=r.key
    · simp [h]
    · simp [h,isAt]

structure Forgotten (computer : PriorityComputer) (peers : Set NodeId) (s : TxRequestTracker)
    (txhash : Uint256) (t : TxRequestTracker) : Prop where
  sane : t.Sane computer peers
  index : t.index=s.index.filter fun a => a.txhash != txhash
  sequence : t.currentSequence=s.currentSequence

variable {txhash : Uint256}

lemma Forgotten.elsewhere (h : Forgotten computer peers s txhash t) :
    SameElsewhere txhash s.index t.index := fun b hb => by
  rw [h.index,mem_filter]
  simp [hb]

section
variable (hs : s.Sane computer peers)
include hs

/-- What is left of an index is sane if it is for the transaction of which something was removed. -/
lemma Sane.sublist (txhash : Uint256) (hsu : t.index.Sublist s.index)
    (he : SameElsewhere txhash s.index t.index)
    (hr : ∀ a∈t.index, a.txhash=txhash → ∀ b∈s.index, b.isSelected → b.txhash=txhash → b∈t.index)
    (hal : ∀ a∈t.index, a.txhash=txhash → ∃ b∈t.index, b.txhash=txhash ∧ b.state≠completed)
    (hc : t.Counted) : t.Sane computer peers := by
  have hk : Keyed computer t.index :=
    ⟨hs.nodup.sublist (hsu.map key),fun a ha b hb =>
      hs.selection.distinct a (hsu.mem ha) b (hsu.mem hb)⟩
  refine ⟨hs.selection.of_sameElsewhere hk he (fun a ha b hb hah hbh => ?_)
    (fun a ha hah hst => ?_),fun a ha => ?_,fun a ha => hs.known a (hsu.mem ha),hc⟩
  · exact hs.selection.oneSelected a (hsu.mem ha) b (hsu.mem hb) (hah.trans hbh.symm)
  · obtain ⟨b,hb,hbh,hse⟩ := hs.selection.ready a (hsu.mem ha) hst
    refine ⟨b,hr a ha hah b hb ?_ (hbh.trans hah),hbh.trans hah,hse⟩
    rw [isSelected_iff]
    exact (hse.imp_right And.left).symm
  · by_cases h : a.txhash=txhash
    · rw [h]
      exact hal a ha h
    · obtain ⟨b,hb,hba,hbs⟩ := hs.alive a (hsu.mem ha)
      exact ⟨b,(he b (hba ▸ h)).mpr hb,hba,hbs⟩

lemma Sane.forget {R : List Announcement} (hR : R.Perm (s.index.filter fun a => a.txhash==txhash)) :
    Forgotten computer peers s txhash (R.foldl TxRequestTracker.erase s) := by
  have hm a : a∈R ↔ a∈s.index ∧ a.txhash=txhash := by
    rw [hR.mem_iff,mem_filter,beq_iff_eq]
  have hRnodup : (R.map key).Nodup :=
    (hR.map key).nodup_iff.mpr (hs.nodup.sublist (filter_sublist.map key))
  obtain ⟨hc,hi,hse⟩ := hs.counted.foldl_erase hs.nodup (fun a ha => ((hm a).mp ha).1) hRnodup
  have hl : (R.foldl TxRequestTracker.erase s).index= s.index.filter fun a =>
      a.txhash != txhash := by
    rw [hi]
    refine filter_congr fun a ha => ?_
    have hif : a.key∈R.map key ↔ a.txhash=txhash := by
      rw [mem_map]
      constructor
      · intro ⟨b,hb,hk⟩
        rw [← (key_eq_iff.mp hk).1]
        exact ((hm b).mp hb).2
      · exact fun h => ⟨a,(hm a).mpr ⟨ha,h⟩,rfl⟩
    simp only [hif]
    by_cases h : a.txhash=txhash <;> simp [h]
  have hn a (ha : a∈(R.foldl TxRequestTracker.erase s).index) : a.txhash≠txhash := by
    rw [hl,mem_filter] at ha
    simpa using ha.2
  refine ⟨hs.sublist txhash ?_ (fun b hb => ?_) ?_ ?_ hc,hl,hse⟩
  · rw [hl]
    exact filter_sublist
  · rw [hl]
    simp [hb]
  · exact fun a ha h => absurd h (hn a ha)
  · exact fun a ha h => absurd h (hn a ha)

lemma Sane.erase (hit : it∈s.index) (hst : it.state=completed) :
    (s.erase it).Sane computer peers := by
  have hm {b} : b∈(s.erase it).index ↔ b∈s.index ∧ b.key≠it.key := mem_erased
  have hke {b} (hb : b∈s.index) (hbs : b.state≠completed) : b∈(s.erase it).index :=
    hm.mpr ⟨hb,fun h => hbs (eq_of_key hs.nodup hb hit h ▸ hst)⟩
  refine hs.sublist it.txhash filter_sublist (fun b hb => ?_)
    (fun _ _ _ b hb hbs _ => hke hb ?_) (fun a ha hah => ?_) (hs.counted.erase hs.nodup hit)
  · rw [hm]
    exact ⟨And.left,fun h => ⟨h,fun hk => hb (key_eq_iff.mp hk).1⟩⟩
  · rw [isSelected_iff] at hbs
    obtain hbs | hbs := hbs <;> simp [hbs]
  · obtain ⟨b,hb,hba,hbs⟩ := hs.alive a (hm.mp ha).1
    exact ⟨b,hke hb hbs,hba.trans hah,hbs⟩

lemma Sane.not_preceding_of_isOnly (hit : it∈s.index) (ho : s.isOnlyNonCompleted o it)
    (hc : c∈preceding it.isAt (o.byTxHash.list s.index)) : c.txhash≠it.txhash := by
  have ha := isAt_iff_eq hs.nodup hit
  simp only [isOnlyNonCompleted,Bool.and_eq_true,Bool.not_eq_true',Option.any_eq_false] at ho
  intro hch
  obtain ⟨p,hp,hcp⟩ := o.byTxHash.le_prev hit ha hc
  obtain ⟨-,-,hpi⟩ := o.byTxHash.of_prev hit ha hp
  have hh : p.txhash=it.txhash := le_antisymm (txhash_le_of_view hpi) (hch ▸ txhash_le_of_view hcp)
  exact absurd hh (by simpa using ho.1 p hp)

lemma Sane.completed_of_isOnly (hit : it∈s.index) (ho : s.isOnlyNonCompleted o it) (hc : c∈s.index)
    (hch : c.txhash=it.txhash) (hck : c.key≠it.key) : c.state=completed := by
  have ha := isAt_iff_eq hs.nodup hit
  obtain h | rfl | h := (o.byTxHash.mem_around hit ha).mp hc
  · exact absurd hch (hs.not_preceding_of_isOnly hit ho h)
  · exact absurd rfl hck
  simp only [isOnlyNonCompleted,Bool.and_eq_true,Bool.not_eq_true',Option.any_eq_false] at ho
  obtain ⟨n,hn,hnc⟩ := o.byTxHash.next_le hit ha h
  obtain ⟨-,-,hi⟩ := o.byTxHash.of_next hit ha (hs.nodup.of_map key) hn
  have hh : n.txhash=it.txhash := le_antisymm (hch ▸ txhash_le_of_view hnc) (txhash_le_of_view hi)
  have hcp : n.state=completed := by
    have hno := ho.2 n hn
    simpa [hh] using hno
  exact completed_of_view hcp hnc (hh.trans hch.symm)

lemma Sane.exists_of_not_isOnly (hit : it∈s.index)
    (hst : it.state≠completed) (ho : ¬ s.isOnlyNonCompleted o it) :
    ∃ c∈s.index, c.txhash=it.txhash ∧ c.key≠it.key ∧ c.state≠completed := by
  have ha := isAt_iff_eq hs.nodup hit
  simp only [isOnlyNonCompleted,Bool.and_eq_true,Bool.not_eq_true',not_and_or,
    Bool.not_eq_false,Option.any_eq_true] at ho
  obtain ⟨p,hp,hph⟩ | ⟨n,hn,hnh⟩ := ho
  · obtain ⟨hpL,hne,hl⟩ := o.byTxHash.of_prev hit ha hp
    have hh : p.txhash=it.txhash := by simpa using hph
    exact ⟨p,hpL,hh,fun h => hne (eq_of_key hs.nodup hpL hit h),fun hc =>
      hst (completed_of_view hc hl hh)⟩
  · obtain ⟨hnL,hne,-⟩ := o.byTxHash.of_next hit ha (hs.nodup.of_map key) hn
    simp only [beq_iff_eq,bne_iff_ne] at hnh
    exact ⟨n,hnL,hnh.1,fun h => hne (eq_of_key hs.nodup hnL hit h),hnh.2⟩

/-- An announcement is completed already, or it was the last one to wait for and its transaction is
forgotten, or it is completed now and the best candidate is selected. -/
lemma Sane.makeCompleted (hit : it∈s.index) : (it.state=completed ∧ s.makeCompleted o it=(true,s)) ∨
    (∃ t, s.makeCompleted o it=(false,t) ∧ it.state≠completed ∧
      (∀ c∈s.index, c.txhash=it.txhash → c.key≠it.key → c.state=completed) ∧
      Forgotten computer peers s it.txhash t) ∨
    (∃ t, s.makeCompleted o it=(true,t) ∧ it.state≠completed ∧
      Reselected computer peers s it.txhash (restate it completed s.index) t) := by
  unfold TxRequestTracker.makeCompleted
  by_cases hst : it.state=completed
  · exact .inl ⟨hst,if_pos hst⟩
  right
  rw [if_neg hst]
  by_cases ho : s.isOnlyNonCompleted o it
  · rw [if_pos ho]
    refine .inl ⟨_,rfl,hst,fun c hc hch hck => ?_,hs.forget ?_⟩
    · exact hs.completed_of_isOnly hit ho hc hch hck
    have hat := isAt_iff_eq hs.nodup hit
    have hsr := pairwise_cons.mp (o.byTxHash.sorted_around hit hat).2.1
    have hr := takeWhile_eq_filter (fun a : Announcement => a.txhash==it.txhash)
      (hsr.2.imp_of_mem fun {a b} ha _ hl hb => by
        rw [beq_iff_eq] at hb ⊢
        exact le_antisymm (hb ▸ txhash_le_of_view hl) (txhash_le_of_view (hsr.1 a ha)))
    have hbe : (preceding it.isAt (o.byTxHash.list s.index)).filter
        (fun a => a.txhash==it.txhash)=[] := by
      refine filter_eq_nil_iff.mpr fun c hc hch => ?_
      exact hs.not_preceding_of_isOnly hit ho hc (by simpa using hch)
    have hp := (o.byTxHash.perm s.index).filter fun a => a.txhash==it.txhash
    rw [o.byTxHash.around hit hat,filter_append,hbe,nil_append,
        filter_cons_of_pos (by simp),← hr] at hp
    exact hp
  · rw [if_neg ho]
    exact .inr ⟨_,rfl,hst,hs.changeAndReselect hit (.inl rfl)
      (.inr (hs.exists_of_not_isOnly hit hst ho))⟩
end

variable {pe : NodeId}

lemma find_eq_some {b : Bool} (h : s.find (toLex (pe,toLex (b,txhash)))=some it) :
    it∈s.index ∧ it.key=(txhash,pe) ∧ (it.state==candidateBest)=b := by
  have hv := find?_some h
  simp only [byPeerView,beq_iff_eq,EmbeddingLike.apply_eq_iff_eq,Prod.mk.injEq] at hv
  exact ⟨mem_of_find?_eq_some h,by rw [key,hv.1,hv.2.2],hv.2.1⟩

lemma find_eq_none {b : Bool} (h : s.find (toLex (pe,toLex (b,txhash)))=none) :
    ∀ a∈s.index, a.key=(txhash,pe) → (a.state==candidateBest)≠b := by
  intro a ha hk hb
  have hv := find?_eq_none.mp h a ha
  simp only [key,Prod.mk.injEq] at hk
  simp [byPeerView,hk.1,hk.2,hb] at hv

lemma exists_key_of_find (h : s.find (toLex (pe,toLex (true,txhash)))=none)
    (h' : s.find (toLex (pe,toLex (false,txhash)))=none) : ∀ a∈s.index, a.key≠(txhash,pe) := by
  intro a ha hk
  have hb := find_eq_none h a ha hk
  have ho := find_eq_none h' a ha hk
  cases hst : a.state==candidateBest <;> simp [hst] at hb ho

/-- Different peers never have equal priorities for a transaction. -/
def DistinctPriorities (computer : PriorityComputer) (peers : Set NodeId) : Prop :=
  ∀ p∈peers, ∀ q∈peers, p≠q → ∀ txhash b c, computer txhash p b≠computer txhash q c

lemma Sane.emplace (hs : s.Sane computer peers)
    (hd : DistinctPriorities computer peers) {g : GenTxid}
    (hp : pe∈peers) (hn : ∀ a∈s.index, a.key≠(g.hash,pe)) (p : Bool) (reqtime : Int) :
    (s.emplace g pe p reqtime).Sane computer peers := by
  let a := make g pe p reqtime s.currentSequence
  have hm {b} : b∈(s.emplace g pe p reqtime).index ↔ b∈s.index ∨ b=a := by
    change b∈s.index++[a] ↔ _
    rw [mem_append,mem_singleton]
  have hkn b (hb : b∈(s.emplace g pe p reqtime).index) : b.peer∈peers := by
    obtain h | rfl := hm.mp hb
    · exact hs.known b h
    · exact hp
  have hkd : Keyed computer (s.emplace g pe p reqtime).index := by
    refine ⟨?_,fun b hb c hc hh he => ?_⟩
    · change ((s.index++[a]).map key).Nodup
      rw [map_append,nodup_append]
      refine ⟨hs.nodup,by simp,fun k hk k' hk' he => ?_⟩
      obtain ⟨b,hb,rfl⟩ := mem_map.mp hk
      rw [map_singleton,mem_singleton] at hk'
      exact hn b hb (he.trans hk')
    · by_contra hne
      have h := hd b.peer (hkn b hb) c.peer (hkn c hc) hne b.txhash b.preferred c.preferred
      rw [priority,priority,← hh] at he
      exact h he
  have hsa : SameElsewhere a.txhash s.index (s.emplace g pe p reqtime).index := by
    intro b hb
    rw [hm]
    exact or_iff_left fun h => hb (congrArg txhash h)
  refine ⟨hs.selection.of_sameElsewhere hkd hsa ?_ ?_,?_,hkn,hs.counted.emplace g pe p reqtime⟩
  · intro b hb c hc hbh hch hbs hcs
    obtain hb | rfl := hm.mp hb
    · obtain hc | rfl := hm.mp hc
      · exact hs.selection.oneSelected b hb c hc (hbh.trans hch.symm) hbs hcs
      · exact absurd hcs (by simp [a,make])
    · exact absurd hbs (by simp [a,make])
  · intro b hb hbh hst
    obtain hb | rfl := hm.mp hb
    · obtain ⟨c,hc,hch,hse⟩ := hs.selection.ready b hb hst
      exact ⟨c,hm.mpr (.inl hc),hch.trans hbh,hse⟩
    · exact absurd hst (by simp [a,make])
  · intro b hb
    obtain hb | rfl := hm.mp hb
    · obtain ⟨c,hc,hch,hcs⟩ := hs.alive b hb
      exact ⟨c,hm.mpr (.inl hc),hch,hcs⟩
    · exact ⟨a,hm.mpr (.inr rfl),rfl,by simp [a,make]⟩

/-- What a request does to the announcements of its transaction. -/
def requestAt (it : Announcement) (expiry : Int) (a : Announcement) : Announcement :=
  if a.key=it.key then {a with state := requested,time := expiry}
  else if a.txhash=it.txhash ∧ a.state=requested then a.setState completed else a

lemma Sane.request (hs : s.Sane computer peers) (e : Int) {u : TxRequestTracker}
    (hkd : Keyed computer u.index) (hit : it∈u.index) (hct : u.Counted)
    (hsm : SameElsewhere it.txhash s.index u.index) (hse : u.currentSequence=s.currentSequence)
    (hno : ∀ c∈u.index, c.txhash=it.txhash → c.key≠it.key → ¬ c.isSelected)
    (hi : u.index.map unselect=
      (s.index.map fun a => if a.key≠it.key ∧ a.txhash=it.txhash ∧ a.state=requested then
        a.setState completed else a).map unselect) :
    Reselected computer peers s it.txhash (s.index.map (requestAt it e))
      (u.modify it fun ann => {ann with state := requested,time := e}) := by
  let g : Announcement → Announcement := fun ann => {ann with state := requested,time := e}
  have hm {b} := mem_modified (f := g) (b := b) hkd.nodup hit
  have hkd' : Keyed computer (modified it g u.index) := hkd.modified hit (fun _ => rfl) fun _ => rfl
  have hsm' : SameElsewhere it.txhash s.index (modified it g u.index) :=
    hsm.trans (sameElsewhere_modified hkd.nodup hit rfl)
  have hn : g it∈modified it g u.index := hm.mpr (.inl rfl)
  have hg a : g a.unselect=g a := by
    unfold unselect
    split <;> rfl
  have hu : (modified it g u.index).map unselect= (s.index.map (requestAt it e)).map unselect := by
    rw [map_unselect_modified_congr hg hi]
    simp only [modified,map_map]
    refine map_congr_left fun a _ => ?_
    by_cases hk : a.key=it.key
    · simp [requestAt,hk,g]
    · by_cases hr : a.txhash=it.txhash ∧ a.state=requested <;> simp [requestAt,hk,hr]
  refine ⟨⟨hs.selection.of_sameElsewhere hkd' hsm' ?_ ?_,?_,?_,
    hct.modify hkd.nodup hit rfl⟩,hu,hsm',hse⟩
  · have ho {c} (hc : c∈modified it g u.index) (hch : c.txhash=it.txhash)
        (hcs : c.isSelected) : c.peer=it.peer := by
      obtain rfl | h := hm.mp hc
      · rfl
      · exact absurd hcs (hno c h.1 hch h.2)
    intro a ha b hb hah hbh hsa hsb
    rw [ho ha hah hsa,ho hb hbh hsb]
  · exact fun a ha hah hst => ⟨g it,hn,rfl,.inl rfl⟩
  · intro a ha
    by_cases h : a.txhash=it.txhash
    · exact ⟨g it,hn,h.symm,by simp [g]⟩
    · obtain ⟨b,hb,hba,hbs⟩ := hs.alive a ((hsm' a h).mp ha)
      exact ⟨b,(hsm' b (hba ▸ h)).mpr hb,hba,hbs⟩
  · intro a ha
    obtain ⟨b,hb,hba⟩ := exists_of_map_unselect hu.symm ha
    obtain ⟨c,hc,rfl⟩ := mem_map.mp hb
    have hke : (requestAt it e c).peer=c.peer := by
      unfold requestAt
      split
      · rfl
      · split <;> rfl
    rw [← (key_eq_iff.mp (key_eq_of_unselect hba)).2,hke]
    exact hs.known c hc

/- A selected announcement of the transaction is where the search of RequestedTx starts. -/
lemma le_view_of_selected (hc : c.isSelected) (hch : c.txhash=txhash) :
    toLex (txhash,toLex (candidateBest.code,0)) ≤ c.byTxHashView computer := by
  rw [byTxHashView,Prod.Lex.toLex_le_toLex]
  refine .inr ⟨hch.symm,?_⟩
  rw [Prod.Lex.toLex_le_toLex]
  rw [isSelected_iff] at hc
  obtain hc | hc := hc <;> simp [hc,code]

lemma requested_of_le_view (hc : c.txhash=txhash)
    (h : toLex (txhash,toLex (candidateBest.code,0)) ≤ c.byTxHashView computer) :
    c.isSelected ∨ c.state=completed := by
  rw [byTxHashView,Prod.Lex.toLex_le_toLex] at h
  have h' := (h.resolve_left (by simp [hc])).2
  rw [Prod.Lex.toLex_le_toLex] at h'
  cases hst : c.state <;> simp [hst,code] at h' ⊢

lemma Sane.selected_of_lowerBound (hs : s.Sane computer peers) (hc : c∈s.index)
    (hse : c.isSelected) :
    (o.byTxHash.lowerBound s.index (toLex (c.txhash,toLex (candidateBest.code,0)))).head?=
      some c := by
  cases hhe : (o.byTxHash.lowerBound s.index
      (toLex (c.txhash,toLex (candidateBest.code,0)))).head? with
  | none =>
    have hlt := o.byTxHash.lowerBound_head?_eq_none hhe c hc
    exact absurd (le_view_of_selected hse rfl) (not_le.mpr hlt)
  | some b =>
    obtain ⟨hb,hk,hl⟩ := o.byTxHash.lowerBound_head?_eq_some hhe
    have hbc := hl c hc (le_view_of_selected hse rfl)
    have hh : b.txhash=c.txhash := by
      refine le_antisymm (txhash_le_of_view hbc) ?_
      rw [byTxHashView,Prod.Lex.toLex_le_toLex] at hk
      obtain h | h := hk
      · exact le_of_lt h
      · exact le_of_eq h.1
    have hbs : b.isSelected := by
      refine (requested_of_le_view hh hk).resolve_right fun hcp => ?_
      simp [completed_of_view hcp hbc hh] at hse
    rw [hs.selection.eq_of_selected hb hc hh hbs hse]

lemma map_of_no_request (hn : ∀ a∈s.index, a.txhash=it.txhash → a.state≠requested) :
    (s.index.map fun a => if a.key≠it.key ∧ a.txhash=it.txhash ∧ a.state=requested then
      a.setState completed else a)=s.index := by
  conv_rhs => rw [← map_id s.index]
  refine map_congr_left fun a ha => ?_
  rw [if_neg fun h => hn a ha h.2.1 h.2.2]
  rfl

/-- Only a candidate can be requested; what was requested before is completed. -/
lemma Sane.requestedTx (hs : s.Sane computer peers) (pe : NodeId) (txhash : Uint256) (e : Int) :
    ((∀ a∈s.index, a.key=(txhash,pe) → a.state=requested ∨ a.state=completed) ∧
      s.requestedTx o pe txhash e=s) ∨
    ∃ it∈s.index, it.key=(txhash,pe) ∧ it.state≠requested ∧ it.state≠completed ∧
      Reselected computer peers s txhash (s.index.map (requestAt it e))
        (s.requestedTx o pe txhash e) := by
  unfold TxRequestTracker.requestedTx
  cases hbe : s.find (toLex (pe,toLex (true,txhash))) with
  | some it =>
    obtain ⟨hit,hk,hsa⟩ := find_eq_some hbe
    rw [beq_iff_eq] at hsa
    have hha : it.txhash=txhash := congrArg Prod.fst hk
    have ho {c} (hc : c∈s.index) (hch : c.txhash=it.txhash)
        (hcs : c.isSelected) : c=it := hs.selection.eq_of_selected hc hit hch hcs (by simp [hsa])
    refine .inr ⟨it,hit,hk,by simp [hsa],by simp [hsa],?_⟩
    rw [← hha]
    refine hs.request e hs.selection.toKeyed hit hs.counted (fun _ _ => Iff.rfl) rfl
      (fun c hc hch hck hcs => hck (congrArg key (ho hc hch hcs))) ?_
    rw [map_of_no_request fun a ha hah hre => ?_]
    rw [ho ha hah (by simp [hre]),hsa] at hre
    cases hre
  | none =>
    cases hot : s.find (toLex (pe,toLex (false,txhash))) with
    | none =>
      refine .inl ⟨fun a ha hk => ?_,rfl⟩
      exact absurd hk (exists_key_of_find hbe hot a ha)
    | some it =>
      obtain ⟨hit,hk,hsa⟩ := find_eq_some hot
      have hha : it.txhash=txhash := congrArg Prod.fst hk
      subst hha
      simp only
      by_cases hca : it.state≠candidateDelayed ∧ it.state≠candidateReady
      · rw [if_pos hca]
        refine .inl ⟨fun a ha hak => ?_,rfl⟩
        rw [eq_of_key hs.nodup ha hit (hak.trans hk.symm)]
        cases h : it.state <;> simp [h] at hca hsa ⊢
      rw [if_neg hca]
      refine .inr ⟨it,hit,hk,?_,?_,?_⟩
      · intro h
        simp [h] at hca
      · intro h
        simp [h] at hca
      have hu : ¬ it.isSelected := by
        rw [isSelected_iff]
        intro h
        obtain h | h := h <;> simp [h] at hca hsa
      by_cases he : ∃ c∈s.index, c.txhash=it.txhash ∧ c.isSelected
      case neg =>
        have hp : Reselected computer peers s it.txhash (s.index.map (requestAt it e))
            (s.modify it fun an => {an with state := requested,time := e}) := by
          refine hs.request e hs.selection.toKeyed hit hs.counted (fun _ _ => Iff.rfl) rfl
            (fun c hc hch _ hcs => he ⟨c,hc,hch,hcs⟩) ?_
          rw [map_of_no_request fun a ha hah hre => he ⟨a,ha,hah,by simp [hre]⟩]
        cases hh : (o.byTxHash.lowerBound s.index
            (toLex (it.txhash,toLex (candidateBest.code,0)))).head? with
        | none => exact hp
        | some ol =>
          have hol := (o.byTxHash.lowerBound_head?_eq_some hh).1
          simp only
          split_ifs with hsm hb hr
          · exact absurd ⟨ol,hol,hsm,by simp [hb]⟩ he
          · exact absurd ⟨ol,hol,hsm,by simp [hr]⟩ he
          · exact hp
          · exact hp
      obtain ⟨c,hc,hch,hcs⟩ := he
      have hh := hs.selected_of_lowerBound (o := o) hc hcs
      rw [hch] at hh
      have hne : it.key≠c.key := fun h => hu (eq_of_key hs.nodup hit hc h ▸ hcs)
      have ho {b} (hb : b∈s.index) (hbh : b.txhash=it.txhash) (hbs : b.isSelected) : b=c :=
        hs.selection.eq_of_selected hb hc (hbh.trans hch.symm) hbs hcs
      have hm {st} {b} := mem_modified (f := setState st) (b := b) hs.nodup hc
      have hrq st (hst : st=candidateReady ∨ st=completed) (hi :
          (restate c st s.index).map unselect=
            (s.index.map fun a => if a.key≠it.key ∧ a.txhash=it.txhash ∧ a.state=requested then
              a.setState completed else a).map unselect) :
          Reselected computer peers s it.txhash (s.index.map (requestAt it e))
            ((s.modify c (setState st)).modify it
              fun an => {an with state := requested,time := e}) := by
        refine hs.request e (hs.selection.toKeyed.restate hc st)
          (hm.mpr (.inr ⟨hit,hne⟩)) (hs.counted.modify hs.nodup hc rfl)
          (hch ▸ sameElsewhere_modified hs.nodup hc rfl) rfl (fun b hb hbh _ hbs => ?_) hi
        obtain rfl | h := hm.mp hb
        · obtain rfl | rfl := hst <;> simp at hbs
        · exact h.2 (congrArg key (ho h.1 hbh hbs))
      simp only [hh,hch,if_true]
      rw [isSelected_iff] at hcs
      obtain hct | hct := hcs
      · rw [if_pos hct]
        refine hrq candidateReady (.inl rfl) ?_
        rw [map_of_no_request fun a ha hah hre => ?_]
        · exact map_unselect_restate hs.nodup hc (by simp [hct]) (.inl rfl)
        · rw [ho ha hah (by simp [hre]),hct] at hre
          cases hre
      · rw [if_neg (by simp [hct]),if_pos hct]
        refine hrq completed (.inr rfl) (congrArg _ (map_congr_left fun a ha => ?_))
        by_cases hak : a.key=c.key
        · have heq := eq_of_key hs.nodup ha hc hak
          simp [heq,hch,hct,Ne.symm hne]
        · have hn : ¬(a.key≠it.key ∧ a.txhash=it.txhash ∧ a.state=requested) := fun h =>
            hak (congrArg key (ho ha h.2.1 (by simp [h.2.2])))
          rw [if_neg hn]
          simp [hak]
end TxRequestTracker
end Xero
