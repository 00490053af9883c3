import Xero.AddrManInvariant

/-! Moves between the tables: an entry leaves the new table, makes room in the tried table and
enters it; an address is added to the new table. -/
namespace Xero
open Library Function List
namespace AddrMan
variable {Service NetAddr : Type} {env : AddrSpace Service NetAddr} {s s' : AddrMan Service NetAddr}
variable {nId : Int} {pd : List Network} {lo : List Int} {info : AddrInfo Service NetAddr}

/- What the loop over the new buckets has done to the entry and left of the rest. -/
structure LeftBuckets (env : AddrSpace Service NetAddr) (s s' : AddrMan Service NetAddr) (nId : Int)
    (info : AddrInfo Service NetAddr) (buckets : List (Fin ADDRMAN_NEW_BUCKET_COUNT)) : Prop where
  entry : ∃ refs, s'.mapInfo nId=some {info with nRefCount := refs} ∧
    (refs=0 ∨ ∀ bucket∈buckets, s'.vvNew (bucket,env.getNewPosition info.service bucket)≠nId)
  others : ∀ j, j≠nId → s'.mapInfo j=s.mapInfo j
  slots : ∀ slot, s'.vvNew slot=nId → s.vvNew slot=nId
  rest : s'={s with mapInfo := s'.mapInfo, vvNew := s'.vvNew}

lemma Coherent.removeFromNew (h : Coherent env s pd (nId::lo))
    (hi : s.mapInfo nId=some info) (b : List (Fin ADDRMAN_NEW_BUCKET_COUNT)) :
    Coherent env (AddrMan.removeFromNew env nId info.service b s) pd (nId::lo) ∧
      LeftBuckets env s (AddrMan.removeFromNew env nId info.service b s) nId info b := by
  induction b generalizing s info with
  | nil =>
    refine ⟨h,⟨info.nRefCount,hi,.inr nofun⟩,fun _ _ => rfl,fun _ hs => hs,rfl⟩
  | cons bucket b ih =>
    have hid := h.placed.ne_neg_one (places_eq hi)
    unfold AddrMan.removeFromNew
    generalize hp : (bucket,env.getNewPosition info.service bucket)=slot
    by_cases hs : s.vvNew slot=nId
    · rw [if_pos hs]
      have hd := (h.dropRef hi hs).loosen (nId::lo) fun j hn => by simpa using hn
      have hm := mapInfo_dropRef hi slot
      have hi' : (s.dropRef slot nId).mapInfo nId=
          some {info with nRefCount := info.nRefCount-1} := by
        rw [hm,update_self]
      have hot : ∀ j, j≠nId → (s.dropRef slot nId).mapInfo j=s.mapInfo j := by
        intro j hne
        rw [hm,update_of_ne hne]
      have hsl : ∀ slot', (s.dropRef slot nId).vvNew slot'=nId → s.vvNew slot'=nId := by
        intro slot' hs'
        by_cases heq : slot'=slot
        · rw [heq]
          exact hs
        · have hsa : (s.dropRef slot nId).vvNew slot'=s.vvNew slot' := update_of_ne heq ..
          exact hsa.symm.trans hs'
      by_cases hz : (s.dropRef slot nId).refCount nId=0
      · rw [if_pos hz]
        refine ⟨hd,⟨info.nRefCount-1,hi',.inl ?_⟩,hot,hsl,rfl⟩
        rw [refCount,hi'] at hz
        exact hz
      · rw [if_neg hz]
        obtain ⟨hc,⟨refs,he,hl⟩,ho,hsl',hr⟩ := ih hd hi'
        refine ⟨hc,⟨refs,he,hl.imp_right fun hb =>
            forall_mem_cons.mpr ⟨fun hh => ?_,hb⟩⟩,
          fun j hne => (ho j hne).trans (hot j hne),
          fun slot' hs' => hsl slot' (hsl' slot' hs'),hr⟩
        have hf : (s.dropRef slot nId).vvNew slot=-1 := update_self ..
        rw [hp] at hh
        exact hid ((hsl' slot hh).symm.trans hf)
    · rw [if_neg hs]
      obtain ⟨hc,⟨refs,he,hl⟩,ho,hsl',hr⟩ := ih h hi
      refine ⟨hc,⟨refs,he,hl.imp_right fun hb =>
        forall_mem_cons.mpr ⟨fun hh => ?_,hb⟩⟩,ho,hsl',hr⟩
      rw [hp] at hh
      exact hs (hsl' slot hh)

lemma mem_bucketsFrom (st b : Fin ADDRMAN_NEW_BUCKET_COUNT) : b∈bucketsFrom st := by
  have hs := st.isLt
  have hb := b.isLt
  unfold ADDRMAN_NEW_BUCKET_COUNT at hs hb
  refine mem_map.mpr ⟨⟨(b.val+1024-st.val)%1024,?_⟩,mem_finRange _,?_⟩
  · exact Nat.mod_lt _ (by decide)
  · refine Fin.ext ?_
    show (st.val+(b.val+1024-st.val)%1024)%1024=b.val
    omega

lemma Coherent.leaveNew (h : Coherent env s pd (nId::lo)) (hi : s.mapInfo nId=some info) :
    ∃ s', s.leaveNew env info nId=s' ∧
      Coherent env s' (env.getNetwork info.service::pd) (nId::lo) ∧
      s'.mapInfo nId=some {info with nRefCount := 0} ∧ (∀ j, j≠nId → s'.mapInfo j=s.mapInfo j) ∧
      s'.vvTried=s.vvTried ∧ s'.nIdCount=s.nIdCount ∧ s'.triedCollisions=s.triedCollisions := by
  generalize hs1 : AddrMan.removeFromNew env nId info.service
    (bucketsFrom (env.getNewBucket info.service info.source)) s=s1
  have hl := h.removeFromNew hi (bucketsFrom (env.getNewBucket info.service info.source))
  rw [hs1] at hl
  obtain ⟨hc,⟨r,he,hle⟩,ho,-,hr⟩ := hl
  have hz : r=0 := by
    refine hle.elim id fun hb => ?_
    have hre := hc.placed.refs nId _ (places_eq he)
    have hn : occurrences s1.vvNew nId=0 := by
      rw [occurrences_eq_zero]
      rintro ⟨b,p⟩ hs
      have hp := (hc.placed.of_slot hs (places_eq he)).2.2
      refine hb b (mem_bucketsFrom _ b) ?_
      rw [show env.getNewPosition info.service b=p from hp]
      exact hs
    rw [hn] at hre
    exact hre
  subst hz
  unfold AddrMan.leaveNew
  rw [hs1]
  generalize hs' : ({s1 with nNew := s1.nNew-1} : AddrMan Service NetAddr).addCounts
    (env.getNetwork info.service) (-1) 0=s'
  have hm : s'.mapInfo=s1.mapInfo := by rw [← hs']; rfl
  refine ⟨s',rfl,?_,by rw [hm]; exact he,fun j hne => by rw [hm]; exact ho j hne,
    by rw [← hs',hr]; rfl,by rw [← hs',hr]; rfl,by rw [← hs',hr]; rfl⟩
  have hpl : s'.places=s1.places := by rw [← hs']; rfl
  refine ⟨?_,?_,?_,?_,fun j i hj => ?_,fun j i hj => ?_,fun j i hj => ?_⟩
  · rw [← hs']
    exact hc.mapped
  · rw [← hs']
    exact hc.listed
  · rw [← hs']
    exact hc.placed
  · rw [hpl,show s'.vRandom=s1.vRandom by rw [← hs']; rfl]
    refine hc.counted.recount fun t c => ?_
    have hsu : s'.totals t c-s1.totals t c=_ :=
      totals_sub (env.getNetwork info.service) (-1) 0 (by rw [← hs']; rfl)
        (by rw [← hs']; simp [addCounts]) (by rw [← hs']; rfl) t c
    rw [map_cons,sum_cons]
    omega
  · rw [← hs']
    exact isSome_addCounts (hc.known j i (hm ▸ hj))
  · exact hc.referenced j i (hm ▸ hj)
  · exact hc.timed j i (hm ▸ hj)

lemma Coherent.leaveTried {slot : TriedSlot} (h : Coherent env s pd lo)
    (hi : s.mapInfo nId=some info) (hs : s.vvTried slot=nId)
    (hm : s'.mapInfo=update s.mapInfo nId (some {info with fInTried := false}))
    (hr : s'={s with
      mapInfo := s'.mapInfo
      vvTried := update s.vvTried slot (-1)
      nTried := s.nTried-1
      networkCounts := (s.addCounts (env.getNetwork info.service) 0 (-1)).networkCounts}) :
    Coherent env s' (env.getNetwork info.service::pd) (nId::lo) := by
  obtain ⟨p,hp,ht,-⟩ := h.placed.tried slot (hs ▸ h.placed.ne_neg_one (places_eq hi))
  rw [hs,places_eq hi] at hp
  cases hp
  have hpl := (h.placed.leaveTried (places_eq hi) hs).2.2
  obtain ⟨htr,hsu,-⟩ := h.timed nId info hi
  refine h.setInfo hi hm rfl rfl (by rw [hr]) (by rw [hr]) (by rw [hr]) ?_ ?_ ?_ ?_ ?_
    ⟨htr,hsu,fun hf => by cases hf⟩
  · rw [hr]
    exact hpl
  · refine h.counted.update (h.mem_vRandom hi) (places_eq hi) fun t c => ?_
    have hsb : s'.totals t c-s.totals t c=_ :=
      totals_sub (env.getNetwork info.service) 0 (-1) (by rw [hr]; simp) (by rw [hr]; rfl)
        (by rw [hr]) t c
    have hw : info.fInTried := ht
    rw [map_cons,sum_cons]
    simp only [Place.weight,AddrInfo.place,hw]
    omega
  · intro _ hk
    rw [hr]
    exact isSome_addCounts hk
  · exact fun j _ hn hme => hn (mem_cons_of_mem _ hme)
  · exact fun _ hn => absurd mem_cons_self hn

lemma Coherent.enterNew {slot : NewSlot} {n : Network} (h : Coherent env s (n::pd) (nId::lo))
    (hi : s.mapInfo nId=some info) (ht : info.fInTried=false) (hre : info.nRefCount=0)
    (hs : s.vvNew slot=-1) (hpo : env.getNewPosition info.service slot.1=slot.2)
    (hm : s'.mapInfo=update s.mapInfo nId (some {info with nRefCount := 1}))
    (hr : s'={s with
      mapInfo := s'.mapInfo
      vvNew := update s.vvNew slot nId
      nNew := s.nNew+1
      networkCounts := (s.addCounts n 1 0).networkCounts}) :
    Coherent env s' pd lo := by
  have hp := h.placed.addRef (places_eq hi) ht
    (by rw [show info.place.nRefCount=0 from hre]; decide) hs hpo
  rw [show info.place.nRefCount=0 from hre] at hp
  refine h.setInfo hi hm rfl rfl (by rw [hr]) (by rw [hr]) (by rw [hr]) ?_ ?_ ?_ ?_
    (fun _ _ => one_pos) (h.timed nId info hi)
  · rw [hr]
    exact hp
  · refine h.counted.update (h.mem_vRandom hi) (places_eq hi) fun t c => ?_
    have hsu : s'.totals t c-s.totals t c=_ :=
      totals_sub n 1 0 (by rw [hr]) (by rw [hr]; simp) (by rw [hr]) t c
    rw [map_cons,sum_cons]
    simp only [Place.weight,AddrInfo.place]
    omega
  · intro _ hk
    rw [hr]
    exact isSome_addCounts hk
  · exact fun j hne hn => by simp [hne,hn]

lemma Coherent.enterTried {service : Service}
    (h : Coherent env s (env.getNetwork service::pd) (nId::lo))
    (hi : s.mapInfo nId=some info) (hsv : info.service=service) (ht : info.fInTried=false)
    (hr : info.nRefCount=0) (hs : s.vvTried (env.triedSlot service)=-1)
    (hsu : 0 < info.lastSuccess) :
    Coherent env (s.enterTried env service nId) pd lo ∧
      (s.enterTried env service nId).services=s.services := by
  subst hsv
  generalize hs' : s.enterTried env info.service nId=s'
  have hm : s'.mapInfo=update s.mapInfo nId (some {info with fInTried := true}) := by
    rw [← hs']
    exact mapInfo_modifyInfo hi _
  have hp := h.placed.enterTried (places_eq hi) hr hs
  obtain ⟨htr,hnn,-⟩ := h.timed nId info hi
  refine ⟨h.setInfo hi hm rfl rfl (by rw [← hs']; rfl) (by rw [← hs']; rfl)
    (by rw [← hs']; rfl) ?_ ?_ ?_ ?_ (fun hf => by cases hf) ⟨htr,hnn,fun _ => hsu⟩,
    services_of_update hi hm rfl⟩
  · rw [← hs']
    exact hp
  · refine h.counted.update (h.mem_vRandom hi) (places_eq hi) fun t c => ?_
    have hsb : s'.totals t c-s.totals t c=_ :=
      totals_sub (env.getNetwork info.service) 0 1
          (by rw [← hs']; simp [AddrMan.enterTried,addCounts,
        AddrMan.modifyInfo]) (by rw [← hs']; rfl) (by rw [← hs']; rfl) t c
    rw [map_cons,sum_cons]
    simp only [Place.weight,AddrInfo.place,ht]
    omega
  · intro _ hk
    rw [← hs']
    exact isSome_addCounts hk
  · exact fun j hne hn => by simp [hne,hn]

lemma Coherent.vvNew_ne (h : Coherent env s pd lo) (hi : s.mapInfo nId=some info)
    (hr : info.nRefCount=0) (slot : NewSlot) : s.vvNew slot≠nId := by
  intro hs
  have hp : 0 < info.nRefCount := (h.placed.of_slot hs (places_eq hi)).1
  omega

section
variable [DecidableEq Service]

/- What eviction from a tried slot leaves of a state. -/
structure Evicted (s s' : AddrMan Service NetAddr) (slot : TriedSlot) : Prop where
  tried : s'.vvTried=update s.vvTried slot (-1)
  count : s'.nIdCount=s.nIdCount
  collisions : s'.triedCollisions=s.triedCollisions
  services : ∀ j service, s'.services j=some service → s.services j=some service
  unslotted : ∀ j info, s.mapInfo j=some info → s.vvTried slot≠j → info.nRefCount=0 →
    ∃ pos, s'.mapInfo j=some {info with nRandomPos := pos}

/-- The entry in the slot moves back to the new table, where it may push out another. -/
lemma Coherent.evictTried (h : Coherent env s pd loose) (slot : TriedSlot) :
    ∃ s', s.evictTried env slot=.ok s' ∧ Coherent env s' pd loose ∧ Evicted s s' slot := by
  unfold AddrMan.evictTried
  by_cases hsl : s.vvTried slot=-1
  · rw [if_neg (not_not_intro hsl)]
    refine ⟨s,rfl,h,?_,rfl,rfl,fun _ _ hs => hs,fun j info hi _ _ => ⟨info.nRandomPos,hi⟩⟩
    rw [← hsl,update_eq_self]
  rw [if_pos hsl]
  obtain ⟨p,hp,_,-⟩ := h.placed.tried slot hsl
  obtain ⟨info,hi,rfl⟩ := Option.map_eq_some_iff.mp hp
  have hr : info.nRefCount=0 := (h.placed.leaveTried hp rfl).2.1
  generalize hid : s.vvTried slot=nId at hi hp
  simp only [hi]
  generalize hs1 : ({s.modifyInfo nId fun info => {info with fInTried := false} with
      vvTried := update (s.modifyInfo nId fun info => {info with fInTried := false}).vvTried
        slot (-1)
      nTried := (s.modifyInfo nId fun info => {info with fInTried := false}).nTried-1} :
      AddrMan Service NetAddr).addCounts (env.getNetwork info.service) 0 (-1)=s1
  have hm1 : s1.mapInfo=update s.mapInfo nId (some {info with fInTried := false}) := by
    rw [← hs1]
    exact mapInfo_modifyInfo hi _
  have hc1 : Coherent env s1 (env.getNetwork info.service::pd) (nId::loose) :=
    h.leaveTried hi hid hm1 (by rw [← hs1]; rfl)
  have hi1 : s1.mapInfo nId=some {info with fInTried := false} := by
    rw [hm1,update_self]
  obtain ⟨s2,hok2,hc2,hc,hn2⟩ := hc1.clearNew (env.newSlot info.service info.source)
  have ho : ∀ j i, s1.mapInfo j=some i → i.nRefCount=0 →
      ∃ po, s2.mapInfo j=some {i with nRandomPos := po} := fun j i hj hz =>
    hc.mapInfo (fun he => hc1.vvNew_ne hj hz _ he.symm) hj
  obtain ⟨po,hi2⟩ := ho nId _ hi1 hr
  have hf : s2.vvNew (env.newSlot info.service info.source)=-1 := by
    rw [hn2,update_self]
  simp only [hok2,ok_bind,addrAssert,hf,decide_true,if_true,pure_ok]
  generalize hs3 : ({s2.modifyInfo nId fun info => {info with nRefCount := 1} with
      vvNew := update (s2.modifyInfo nId fun info => {info with nRefCount := 1}).vvNew
        (env.newSlot info.service info.source) nId
      nNew := (s2.modifyInfo nId fun info => {info with nRefCount := 1}).nNew+1} :
      AddrMan Service NetAddr).addCounts (env.getNetwork info.service) 1 0=s3
  have hm3 : s3.mapInfo=update s2.mapInfo nId
      (some {info with fInTried := false, nRandomPos := po, nRefCount := 1}) := by
    rw [← hs3]
    exact mapInfo_modifyInfo hi2 _
  have hc3 : Coherent env s3 pd loose := hc2.enterNew hi2 rfl hr hf rfl hm3 (by rw [← hs3]; rfl)
  refine ⟨s3,rfl,hc3,?_,?_,?_,fun j se hs => ?_,fun j i hj hn hz => ?_⟩
  · rw [← hs3]
    exact hc.tried.trans (by rw [← hs1]; rfl)
  · rw [← hs3]
    exact hc.count.trans (by rw [← hs1]; rfl)
  · rw [← hs3]
    exact hc.collisions.trans (by rw [← hs1]; rfl)
  · rw [services_of_update hi2 hm3 rfl] at hs
    rw [← services_of_update hi hm1 rfl]
    exact hc.services hs
  · rw [hid] at hn
    rw [hm3,update_of_ne (fun he => hn he.symm)]
    refine ho j i ?_ hz
    rw [hm1,update_of_ne (fun he => hn he.symm)]
    exact hj

/-- MakeTried: the entry is in its tried slot; whoever was there is in the new table. -/
lemma Coherent.makeTried (h : Coherent env s pd lo) (hi : s.mapInfo nId=some info)
    (htr : info.fInTried=false) (hsu : 0 < info.lastSuccess) :
    ∃ s', s.makeTried env info nId=.ok s' ∧ Coherent env s' pd lo ∧ Follows s s' := by
  have hne := h.placed.ne_neg_one (places_eq hi)
  have hn : s.vvTried (env.triedSlot info.service)≠nId := by
    intro heq
    obtain ⟨p,hp,ht,-⟩ := h.placed.tried _ (heq ▸ hne)
    rw [heq,places_eq hi] at hp
    cases hp
    rw [show info.place.fInTried=false from htr] at ht
    cases ht
  obtain ⟨s1,hs1,hc1,hi1,hot,hv1,hcn1,hco1⟩ := (h.loosen (nId::lo)
    fun j hn hm => hn (mem_cons_of_mem _ hm)).leaveNew hi
  obtain ⟨s2,hok2,hc2,he⟩ := hc1.evictTried (env.triedSlot info.service)
  obtain ⟨_,hi2⟩ := he.unslotted nId _ hi1 (by rw [hv1]; exact hn) rfl
  have hf : s2.vvTried (env.triedSlot info.service)=-1 := by
    rw [he.tried,update_self]
  have hc3 := hc2.enterTried hi2 rfl htr rfl hf hsu
  unfold AddrMan.makeTried
  have hz : s1.refCount nId=0 := by
    rw [refCount,hi1]
    rfl
  simp only [hs1,addrAssert,hz,decide_true,if_true,ok_bind,hok2,hf,pure_ok]
  refine ⟨_,rfl,hc3.1,?_,fun sl hsl => ?_,fun j service hl hs => ?_,?_⟩
  · exact (he.count.trans hcn1).ge
  · have hso : (s2.enterTried env info.service nId).vvTried=
        update s.vvTried (env.triedSlot info.service) nId := by
      show update s2.vvTried _ _=_
      rw [he.tried,update_idem,hv1]
    rw [hso]
    by_cases heq : sl=env.triedSlot info.service
    · rw [heq,update_self]
      exact hne
    · rw [update_of_ne heq]
      exact hsl
  · rw [hc3.2] at hs
    have ho := he.services j service hs
    by_cases heq : j=nId
    · subst heq
      rw [services_eq hi1] at ho
      rw [services_eq hi]
      exact ho
    · rw [AddrMan.services,hot j heq] at ho
      exact ho
  · show s2.triedCollisions⊆_
    rw [he.collisions,hco1]
end
end AddrMan
end Xero
