import Xero.TxRequest

/-! For every transaction the tracker marks the candidate to request next: the ready one of highest
priority, when nothing is requested. The neighbours in the ByTxHash index are enough to keep it so. -/
namespace Xero
open AnnouncementState List Prod.Lex
namespace Announcement
variable {computer : PriorityComputer} {a b : Announcement}

@[simp] lemma isSelectable_iff : a.isSelectable ↔ a.state=candidateReady ∨
    a.state=candidateBest := by
  simp [isSelectable]

@[simp] lemma isSelected_iff : a.isSelected ↔ a.state=candidateBest ∨ a.state=requested := by
  simp [isSelected]

@[simp] lemma isWaiting_iff : a.isWaiting ↔ a.state=requested ∨ a.state=candidateDelayed := by
  simp [isWaiting]

@[simp] lemma isAt_iff {it : Announcement} : it.isAt a ↔ a.key=it.key := by
  simp [isAt]

variable (st : AnnouncementState)

@[simp] lemma setState_key : (a.setState st).key=a.key := rfl
@[simp] lemma setState_state : (a.setState st).state=st := rfl
@[simp] lemma setState_txhash : (a.setState st).txhash=a.txhash := rfl
@[simp] lemma setState_peer : (a.setState st).peer=a.peer := rfl
@[simp] lemma setState_priority : (a.setState st).priority computer=a.priority computer := rfl
@[simp] lemma setState_setState (st' : AnnouncementState) :
    (a.setState st).setState st'=a.setState st' := rfl

lemma key_eq_iff : a.key=b.key ↔ a.txhash=b.txhash ∧ a.peer=b.peer := by
  simp [key]

lemma txhash_le_of_view (h : a.byTxHashView computer≤b.byTxHashView computer) :
    a.txhash≤b.txhash := by
  rw [byTxHashView,byTxHashView,toLex_le_toLex] at h
  obtain h | ⟨h,-⟩ := h
  · exact le_of_lt h
  · exact le_of_eq h

/-- Among the announcements of one transaction the index sorts by state and then by priority. -/
lemma state_le_of_view (h : a.byTxHashView computer≤b.byTxHashView computer)
    (hh : a.txhash=b.txhash) :
    a.state.code≤b.state.code ∧ (a.state=candidateReady → b.state=candidateReady →
      a.priority computer≤b.priority computer) := by
  rw [byTxHashView,byTxHashView,toLex_le_toLex] at h
  have h' := (h.resolve_left (by simp [hh])).2
  rw [toLex_le_toLex] at h'
  obtain h' | ⟨hc,hp⟩ := h'
  · refine ⟨le_of_lt h',fun ha hb => ?_⟩
    rw [ha,hb] at h'
    exact absurd h' (lt_irrefl _)
  · refine ⟨le_of_eq hc,fun ha hb => ?_⟩
    simpa [ha,hb] using hp

/- The announcement without the mark of the best candidate. -/
def unselect (a : Announcement) : Announcement :=
  if a.state=candidateBest then a.setState candidateReady else a

@[simp] lemma unselect_key : a.unselect.key=a.key := by
  unfold unselect
  split <;> rfl

@[simp] lemma unselect_setState : a.unselect.setState st=a.setState st := by
  unfold unselect
  split <;> rfl

@[simp] lemma unselect_unselect : a.unselect.unselect=a.unselect := by
  unfold unselect
  split <;> simp_all

lemma unselect_setState_of_selectable (ha : a.isSelectable) {st : AnnouncementState}
    (hst : st=candidateReady ∨ st=candidateBest) : (a.setState st).unselect=a.unselect := by
  have hr : (a.setState st).unselect=a.setState candidateReady := by
    obtain rfl | rfl := hst <;> simp [unselect]
  cases a with
  | mk t ti pe se pr i s =>
    cases s <;> simp_all [unselect,setState]
end Announcement

open Announcement
variable {computer : PriorityComputer} {L : List Announcement} {it p n : Announcement}

structure Keyed (computer : PriorityComputer) (L : List Announcement) : Prop where
  nodup : (L.map key).Nodup
  distinct : ∀ a∈L, ∀ b∈L, a.txhash=b.txhash →
    a.priority computer=b.priority computer → a.peer=b.peer

/-- At most one announcement of a transaction is selected, and a ready candidate waits behind a
request or behind a best candidate. -/
structure Selection (computer : PriorityComputer) (L : List Announcement) : Prop
    extends Keyed computer L where
  oneSelected : ∀ a∈L, ∀ b∈L, a.txhash=b.txhash → a.isSelected → b.isSelected →
    a.peer=b.peer
  ready : ∀ a∈L, a.state=candidateReady → ∃ b∈L, b.txhash=a.txhash ∧ (b.state=requested ∨
    b.state=candidateBest ∧ a.priority computer≤b.priority computer)

lemma eq_of_key (hn : (L.map key).Nodup) {a b : Announcement} (ha : a∈L) (hb : b∈L)
    (h : a.key=b.key) : a=b := inj_on_of_nodup_map hn ha hb h

section
variable {f : Announcement → Announcement}

def modified (it : Announcement) (f : Announcement → Announcement) (L : List Announcement) :
    List Announcement := L.map fun a => if it.isAt a then f a else a

lemma map_key_modified (hf : ∀ a, (f a).key=a.key) : (modified it f L).map key=L.map key := by
  rw [modified,map_map]
  refine map_congr_left fun a _ => ?_
  simp only [Function.comp]
  split
  · exact hf a
  · rfl

lemma mem_modified (hn : (L.map key).Nodup) (hi : it∈L) {b : Announcement} :
    b∈modified it f L ↔ b=f it ∨ (b∈L ∧ b.key≠it.key) := by
  rw [modified,mem_map]
  constructor
  · rintro ⟨a,ha,rfl⟩
    by_cases h : a.key=it.key
    · have he := eq_of_key hn ha hi h
      simp [he]
    · simp [h,ha]
  · intro h
    obtain rfl | ⟨hb,hne⟩ := h
    · exact ⟨it,hi,by simp⟩
    · exact ⟨b,hb,by simp [hne]⟩
end

abbrev restate (it : Announcement) (st : AnnouncementState) (L : List Announcement) :
    List Announcement := modified it (setState st) L

lemma restate_restate {st st' s'' : AnnouncementState} :
    restate (it.setState s'') st' (restate it st L)=restate it st' L := by
  simp only [restate,modified,map_map]
  refine map_congr_left fun a _ => ?_
  by_cases h : a.key=it.key <;> simp [h]

lemma map_unselect_restate (hnd : (L.map key).Nodup) (hn : n∈L)
    (hse : n.isSelectable) {st : AnnouncementState} (hst : st=candidateReady ∨ st=candidateBest) :
    (restate n st L).map unselect=L.map unselect := by
  rw [restate,modified,map_map]
  refine map_congr_left fun a ha => ?_
  by_cases h : a.key=n.key
  · have he := eq_of_key hnd ha hn h
    subst he
    simp [unselect_setState_of_selectable hse hst]
  · simp [h]

variable {f : Announcement → Announcement} {M : List Announcement}

lemma map_unselect_modified_congr (hf : ∀ a, f a.unselect=f a) (h : M.map unselect=L.map unselect) :
    (modified it f M).map unselect=(modified it f L).map unselect := by
  have hc N : (modified it f N).map unselect= (modified it f (N.map unselect)).map unselect := by
    simp only [modified,map_map]
    refine map_congr_left fun a _ => ?_
    by_cases hk : a.key=it.key <;> simp [hk,hf]
  rw [hc M,hc L,h]

lemma Keyed.modified (hs : Keyed computer L) (hi : it∈L)
    (hf : ∀ a, (f a).key=a.key) (hp : ∀ a, (f a).priority computer=a.priority computer) :
    Keyed computer (modified it f L) := by
  have ho a (ha : a∈Xero.modified it f L) :
      ∃ c∈L, c.key=a.key ∧ c.priority computer=a.priority computer := by
    obtain h | h := (mem_modified hs.nodup hi).mp ha
    · exact ⟨it,hi,by rw [h,hf],by rw [h,hp]⟩
    · exact ⟨a,h.1,rfl,rfl⟩
  refine ⟨by rw [map_key_modified hf]; exact hs.nodup,fun a ha b hb hh he => ?_⟩
  obtain ⟨c,hc,hck,hcp⟩ := ho a ha
  obtain ⟨d,hd,hdk,hdp⟩ := ho b hb
  rw [key_eq_iff] at hck hdk
  have hpe := hs.distinct c hc d hd (by rw [hck.1,hdk.1,hh]) (by rw [hcp,hdp,he])
  rw [← hck.2,← hdk.2,hpe]

lemma Keyed.restate (hs : Keyed computer L) (hi : it∈L) (st : AnnouncementState) :
    Keyed computer (restate it st L) := hs.modified hi (fun _ => rfl) fun _ => rfl

/- Announcements of other transactions are the same in both lists. -/
def SameElsewhere (txhash : Uint256) (L M : List Announcement) : Prop :=
  ∀ b : Announcement, b.txhash≠txhash → (b∈M ↔ b∈L)

lemma sameElsewhere_modified (hn : (L.map key).Nodup)
    (hi : it∈L) (hf : (f it).txhash=it.txhash) : SameElsewhere it.txhash L (modified it f L) := by
  intro b hb
  rw [mem_modified hn hi]
  constructor
  · intro h
    obtain rfl | h := h
    · exact absurd hf hb
    · exact h.1
  · intro h
    exact Or.inr ⟨h,fun hk => hb (key_eq_iff.mp hk).1⟩

lemma SameElsewhere.trans {tx : Uint256} {L N : List Announcement}
    (h : SameElsewhere tx L M) (h' : SameElsewhere tx M N) : SameElsewhere tx L N :=
  fun b hb => (h' b hb).trans (h b hb)

namespace Selection
variable (hs : Selection computer L)
include hs

/-- The selection is kept for every transaction if it is for the one whose announcements change. -/
lemma of_sameElsewhere {tx : Uint256} (hM : Keyed computer M) (hsa : SameElsewhere tx L M)
    (ho : ∀ a∈M, ∀ b∈M, a.txhash=tx → b.txhash=tx → a.isSelected →
      b.isSelected → a.peer=b.peer)
    (hr : ∀ a∈M, a.txhash=tx → a.state=candidateReady → ∃ b∈M, b.txhash=tx ∧
      (b.state=requested ∨ b.state=candidateBest ∧ a.priority computer≤b.priority computer)) :
    Selection computer M := by
  refine ⟨hM,fun a ha b hb hh => ?_,fun a ha hst => ?_⟩
  · by_cases h : a.txhash=tx
    · exact ho a ha b hb h (hh ▸ h)
    · exact hs.oneSelected a ((hsa a h).mp ha) b ((hsa b (hh ▸ h)).mp hb) hh
  · by_cases h : a.txhash=tx
    · rw [h]
      exact hr a ha h hst
    · obtain ⟨b,hb,hh,hse⟩ := hs.ready a ((hsa a h).mp ha) hst
      exact ⟨b,(hsa b (hh ▸ h)).mpr hb,hh,hse⟩

lemma eq_of_selected {a b : Announcement} (ha : a∈L) (hb : b∈L) (hh : a.txhash=b.txhash)
    (hsa : a.isSelected) (hsb : b.isSelected) : a=b :=
  eq_of_key hs.nodup ha hb (key_eq_iff.mpr ⟨hh,hs.oneSelected a ha b hb hh hsa hsb⟩)

lemma restate_ready (hi : it∈L) (hsta : it.state=candidateDelayed)
    (hr : ∃ c∈L, c.txhash=it.txhash ∧ (c.state=requested ∨
      c.state=candidateBest ∧ it.priority computer ≤ c.priority computer)) :
    Selection computer (restate it candidateReady L) := by
  have hm {b} := mem_modified (f := setState candidateReady) (b := b) hs.nodup hi
  have hk {c} (hc : c∈L) (hcs : c.state=requested ∨ c.state=candidateBest) :
      c∈restate it candidateReady L := by
    refine hm.mpr (Or.inr ⟨hc,fun h => ?_⟩)
    have he := eq_of_key hs.nodup hc hi h
    grind
  refine hs.of_sameElsewhere (hs.toKeyed.restate hi _) (sameElsewhere_modified hs.nodup hi rfl)
    (fun a ha b hb hah hbh hsa hsb => ?_) (fun a ha hah hst => ?_)
  · have ho {c} (hc : c∈restate it candidateReady L) (hcs : c.isSelected) : c∈L := by
      obtain rfl | h := hm.mp hc
      · simp at hcs
      · exact h.1
    exact hs.oneSelected a (ho ha hsa) b (ho hb hsb) (hah.trans hbh.symm) hsa hsb
  · obtain ⟨c,hc,hch,hse⟩ : ∃ c∈L, c.txhash=it.txhash ∧ (c.state=requested ∨
        c.state=candidateBest ∧ a.priority computer ≤ c.priority computer) := by
      obtain rfl | h := hm.mp ha
      · exact hr
      · rw [← hah]
        exact hs.ready a h.1 hst
    exact ⟨c,hk hc (hse.imp_right And.left),hch,hse⟩

lemma restate_best (hi : it∈L) (hn : ∀ c∈L, c.txhash=it.txhash → ¬ c.isSelected) :
    Selection computer (restate it candidateBest L) := by
  have hm {b} := mem_modified (f := setState candidateBest) (b := b) hs.nodup hi
  refine hs.of_sameElsewhere (hs.toKeyed.restate hi _) (sameElsewhere_modified hs.nodup hi rfl)
    (fun a ha b hb hah hbh hsa hsb => ?_) (fun a ha hah hst => ?_)
  · have hne {c} (hc : c∈restate it candidateBest L) (hch : c.txhash=it.txhash)
        (hcs : c.isSelected) : c.peer=it.peer := by
      obtain rfl | h := hm.mp hc
      · rfl
      · exact absurd hcs (hn c h.1 hch)
    rw [hne ha hah hsa,hne hb hbh hsb]
  · obtain rfl | h := hm.mp ha
    · cases hst
    · obtain ⟨b,hb,hh,hse⟩ := hs.ready a h.1 hst
      refine absurd ?_ (hn b hb (hh.trans hah))
      rw [isSelected_iff]
      exact (hse.imp_right And.left).symm

lemma restate_beats (hi : it∈L) (hn : n∈L) (hh : n.txhash=it.txhash) (hbe : n.state=candidateBest)
    (hne : n.key≠it.key) (hl : n.priority computer < it.priority computer) :
    Selection computer (restate it candidateBest (restate n candidateReady L)) := by
  have hm {b} := mem_modified (f := setState candidateReady) (b := b) hs.nodup hn
  have hk := hs.toKeyed.restate hn candidateReady
  have hi' : it∈restate n candidateReady L := hm.mpr (Or.inr ⟨hi,hne.symm⟩)
  have hm' {b} := mem_modified (f := setState candidateBest) (b := b) hk.nodup hi'
  have hf : SameElsewhere it.txhash L (restate it candidateBest (restate n candidateReady L)) :=
    SameElsewhere.trans (hh ▸ sameElsewhere_modified hs.nodup hn rfl)
      (sameElsewhere_modified hk.nodup hi' rfl)
  have ho {c} (hc : c∈L) (hch : c.txhash=it.txhash) (hcs : c.isSelected) : c=n :=
    hs.eq_of_selected hc hn (hch.trans hh.symm) hcs (by simp [hbe])
  refine hs.of_sameElsewhere (hk.restate hi' _) hf
    (fun a ha b hb hah hbh hsa hsb => ?_) (fun a ha hah hst => ?_)
  · have hnw {c} (hc : c∈restate it candidateBest (restate n candidateReady L))
        (hch : c.txhash=it.txhash) (hcs : c.isSelected) : c.peer=it.peer := by
      rw [hm',hm] at hc
      obtain rfl | ⟨rfl | ⟨hc,hcn⟩,-⟩ := hc
      · rfl
      · simp at hcs
      · exact absurd (congrArg key (ho hc hch hcs)) hcn
    rw [hnw ha hah hsa,hnw hb hbh hsb]
  · refine ⟨it.setState candidateBest,hm'.mpr (Or.inl rfl),rfl,Or.inr ⟨rfl,?_⟩⟩
    rw [hm',hm] at ha
    obtain rfl | ⟨rfl | ⟨ha,-⟩,-⟩ := ha
    · exact le_rfl
    · exact le_of_lt hl
    · obtain ⟨b,hb,hbh,hse⟩ := hs.ready a ha hst
      have he : b=n := ho hb (hbh.trans hah) (by
        rw [isSelected_iff]
        exact (hse.imp_right And.left).symm)
      obtain hse | hse := hse
      · rw [he,hbe] at hse
        cases hse
      · exact hse.2.trans (he ▸ le_of_lt hl)

lemma restate_unselected (hi : it∈L) {st : AnnouncementState}
    (hst : st=completed ∨ st=candidateDelayed)
    (hn : it.isSelected → ∀ c∈L, c.txhash=it.txhash → c.state≠candidateReady) :
    Selection computer (restate it st L) := by
  have hm {b} := mem_modified (f := setState st) (b := b) hs.nodup hi
  have ho {c} (hc : c∈restate it st L)
      (hcs : c.isSelected ∨ c.state=candidateReady) : c∈L ∧ c.key≠it.key := by
    obtain rfl | h := hm.mp hc
    · obtain rfl | rfl := hst <;> simp at hcs
    · exact h
  refine hs.of_sameElsewhere (hs.toKeyed.restate hi _) (sameElsewhere_modified hs.nodup hi rfl)
    (fun a ha b hb hah hbh hsa hsb => ?_) (fun a ha hah hr => ?_)
  · exact hs.oneSelected a (ho ha (Or.inl hsa)).1 b (ho hb (Or.inl hsb)).1
        (hah.trans hbh.symm) hsa hsb
  · have haL := (ho ha (Or.inr hr)).1
    obtain ⟨b,hb,hbh,hse⟩ := hs.ready a haL hr
    refine ⟨b,hm.mpr (Or.inr ⟨hb,fun hk => ?_⟩),hbh.trans hah,hse⟩
    rw [eq_of_key hs.nodup hb hi hk] at hse
    refine hn ?_ a haL hah hr
    rw [isSelected_iff]
    exact (hse.imp_right And.left).symm

lemma restate_reselect (hi : it∈L) (hp : p∈L) (hh : p.txhash=it.txhash)
    (hps : p.state=candidateReady)
    (hse : it.isSelected) {st : AnnouncementState} (hst : st=completed ∨ st=candidateDelayed)
    (ht : ∀ c∈L, c.txhash=it.txhash → c.state=candidateReady →
    c.priority computer≤p.priority computer) :
    Selection computer (restate it st (restate p candidateBest L)) := by
  have hne : it.key≠p.key := fun h => by
    have he := eq_of_key hs.nodup hi hp h
    simp [he,hps] at hse
  have hm {b} := mem_modified (f := setState candidateBest) (b := b) hs.nodup hp
  have hk := hs.toKeyed.restate hp candidateBest
  have hi' : it∈restate p candidateBest L := hm.mpr (Or.inr ⟨hi,hne⟩)
  have hm' {b} := mem_modified (f := setState st) (b := b) hk.nodup hi'
  have hf : SameElsewhere it.txhash L (restate it st (restate p candidateBest L)) :=
    SameElsewhere.trans (hh ▸ sameElsewhere_modified hs.nodup hp rfl)
      (sameElsewhere_modified hk.nodup hi' rfl)
  have hpn : p.setState candidateBest∈restate it st (restate p candidateBest L) :=
    hm'.mpr (Or.inr ⟨hm.mpr (Or.inl rfl),hne.symm⟩)
  refine hs.of_sameElsewhere (hk.restate hi' _) hf
    (fun a ha b hb hah hbh hsa hsb => ?_) (fun a ha hah hr => ?_)
  · have hn {c} (hc : c∈restate it st (restate p candidateBest L))
        (hch : c.txhash=it.txhash) (hcs : c.isSelected) : c.peer=p.peer := by
      rw [hm',hm] at hc
      obtain rfl | ⟨rfl | ⟨hc,-⟩,hci⟩ := hc
      · obtain rfl | rfl := hst <;> simp at hcs
      · rfl
      · exact absurd (congrArg key (hs.eq_of_selected hc hi hch hcs hse)) hci
    rw [hn ha hah hsa,hn hb hbh hsb]
  · refine ⟨_,hpn,hh,Or.inr ⟨rfl,?_⟩⟩
    rw [hm',hm] at ha
    obtain rfl | ⟨rfl | ⟨ha,-⟩,-⟩ := ha
    · obtain rfl | rfl := hst <;> cases hr
    · exact le_rfl
    · exact ht a ha hah hr
end Selection
end Xero
