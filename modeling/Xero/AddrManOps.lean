import Xero.AddrManMoves
import Xero.Library.Ensures
import Xero.Library.Simulation

/-! The operations of the address manager keep its invariant; they fail only when the id counter
would overflow. -/
namespace Xero
open Library List Function Option
namespace AddrMan
variable {Service NetAddr : Type}

/-- The invariant between operations: what waits in the set of collisions has an occupied tried
slot, as long as it is known at all. -/
structure Consistent (env : AddrSpace Service NetAddr) (s : AddrMan Service NetAddr) : Prop where
  coherent : Coherent env s [] []
  given : ∀ nId∈s.triedCollisions, nId < s.nIdCount
  colliding : ∀ nId∈s.triedCollisions, ∀ service, s.services nId=some service →
    s.vvTried (env.triedSlot service)≠-1

/-- Consistent still, and no tried slot has become free. -/
structure Progress (env : AddrSpace Service NetAddr) (s s' : AddrMan Service NetAddr) : Prop where
  consistent : Consistent env s'
  occupied : ∀ slot, s.vvTried slot≠-1 → s'.vvTried slot≠-1

variable {env : AddrSpace Service NetAddr} {s s' : AddrMan Service NetAddr} {nId : Int}
variable {pd : List Network} {lo : List Int} {info : AddrInfo Service NetAddr}

lemma Consistent.refl (h : Consistent env s) : Progress env s s := ⟨h,fun _ hs => hs⟩

lemma Progress.trans {s'' : AddrMan Service NetAddr} (h : Progress env s s')
    (h' : Progress env s' s'') : Progress env s s'' :=
  ⟨h'.consistent,fun sl hs => h'.occupied sl (h.occupied sl hs)⟩

lemma Consistent.follow (h : Consistent env s) (hc : Coherent env s' [] [])
    (hf : Follows s s') : Progress env s s' := by
  refine ⟨⟨hc,fun nId hm => ?_,fun nId hm service hs => ?_⟩,hf.occupied⟩
  · exact (h.given nId (hf.collisions hm)).trans_le hf.count
  · have hm' := hf.collisions hm
    have ho := hf.services nId service (h.given nId hm') hs
    exact hf.occupied _ (h.colliding nId hm' service ho)

section
variable (h : Coherent env s pd lo)
include h

lemma Coherent.find {a : Service}
    (hf : s.find a=some (nId,info)) : s.mapInfo nId=some info ∧ info.service=a := by
  unfold AddrMan.find at hf
  simp only [bind,bind_eq_some_iff,pure,some.injEq,Prod.mk.injEq] at hf
  obtain ⟨n',ha,_,hi,rfl,rfl⟩ := hf
  refine ⟨hi,?_⟩
  have hs := h.mapped.toInfo a n' ha
  rw [services_eq hi] at hs
  exact some.inj hs

lemma Coherent.find_none {a : Service} (hf : s.find a=none) : s.mapAddr a=none := by
  cases ha : s.mapAddr a with
  | none => rfl
  | some nId =>
    obtain ⟨_,hi,-⟩ := map_eq_some_iff.mp (h.mapped.toInfo a nId ha)
    simp [AddrMan.find,ha,hi] at hf

lemma Coherent.mayInsert (info : AddrInfo Service NetAddr)
    (slot : NewSlot) (now : Int) : ∃ b, s.mayInsert env info slot now=(s,b) := by
  unfold AddrMan.mayInsert
  by_cases hs : s.vvNew slot=-1
  · rw [if_pos hs]
    exact ⟨true,rfl⟩
  · rw [if_neg hs]
    obtain ⟨p,hp,-⟩ := h.placed.new slot hs
    obtain ⟨_,hi',-⟩ := map_eq_some_iff.mp hp
    rw [infoAt_eq hi']
    exact ⟨_,rfl⟩
end

lemma Consistent.erase_collision (h : Consistent env s) (i : Int) :
    Consistent env {s with triedCollisions := s.triedCollisions.erase i} where
  coherent := ⟨h.coherent.mapped,h.coherent.listed,h.coherent.placed,h.coherent.counted,
    h.coherent.known,h.coherent.referenced,h.coherent.timed⟩
  given := fun nId hm => h.given nId (Finset.mem_of_mem_erase hm)
  colliding := fun nId hm => h.colliding nId (Finset.mem_of_mem_erase hm)

section
variable [DecidableEq Service]

lemma Coherent.insertNew (h : Coherent env s pd (nId::loose))
    (hi : s.mapInfo nId=some info) (ht : info.fInTried=false)
    (hm : info.nRefCount≠ADDRMAN_NEW_BUCKETS_PER_ADDRESS) (source : NetAddr) (now : Int) :
    ∃ b s', s.insertNew env nId info source now=.ok (b,s') ∧ Coherent env s' pd loose ∧
      Follows s s' := by
  have hl : info.nRefCount≤ADDRMAN_NEW_BUCKETS_PER_ADDRESS := h.placed.most nId _ (places_eq hi)
  have hnn : 0 ≤ info.nRefCount := h.placed.refs_nonneg (places_eq hi)
  have hk : 0 < info.nRefCount → Coherent env s pd loose := fun hp =>
    h.tighten fun i' hi' _ => by
      rw [hi] at hi'
      cases hi'
      exact hp
  unfold AddrMan.insertNew
  dsimp only
  by_cases hsl : s.vvNew (env.newSlot info.service source)=nId
  · rw [if_pos hsl]
    exact ⟨false,s,rfl,hk (h.placed.of_slot hsl (places_eq hi)).1,Follows.refl s⟩
  rw [if_neg hsl]
  obtain ⟨b,hb⟩ := h.mayInsert info (env.newSlot info.service source) now
  rw [hb]
  dsimp only
  cases b with
  | true =>
    obtain ⟨s1,ho,hc,hcl,hne⟩ := h.clearNew (env.newSlot info.service source)
    obtain ⟨_,hi1⟩ := hcl.mapInfo (fun he => hsl he.symm) hi
    have hc' : Coherent env (s1.addRef (env.newSlot info.service source) nId) pd loose :=
      hc.addRef hi1 ht (lt_of_le_of_ne hl hm) (by rw [hne,update_self]) rfl
    simp only [if_true,ho,ok_bind,pure_ok]
    refine ⟨true,_,rfl,hc',hcl.follows.trans ?_⟩
    refine .of_services rfl rfl rfl fun j se hs => ?_
    rw [services_of_update hi1 (mapInfo_addRef hi1 _) rfl] at hs
    exact hs
  | false =>
    by_cases hz : info.nRefCount=0
    · obtain ⟨s1,ho,hc,hcl,hn,-⟩ := h.delete hi ht hz
      rw [if_pos hz,ho]
      refine ⟨false,s1,rfl,hc.tighten fun i' hi' => ?_,hcl.follows⟩
      rw [hn] at hi'
      cases hi'
    · rw [if_neg hz]
      exact ⟨false,s,rfl,hk (lt_of_le_of_ne hnn (Ne.symm hz)),Follows.refl s⟩

section
variable (h : Consistent env s)
include h

lemma Consistent.addSingle [DecidableEq NetAddr]
    (a : NetworkAddress Service) (source : NetAddr) (tp now : Int) (ra : Nat) :
    Ensures (fun e => e=.overflow) (fun r => Progress env s r.2)
      (s.addSingle env a source tp now ra) := by
  refine .ite (fun _ => h.refl) fun hr => ?_
  generalize (if env.netAddr a.service=source then 0 else tp)=penalty
  cases hfi : s.find a.service with
  | some fo =>
    obtain ⟨nId,info⟩ := fo
    obtain ⟨hi,-⟩ := h.coherent.find hfi
    dsimp only
    generalize hu : updateExisting info a penalty now ra=updated
    obtain ⟨i',g⟩ := updated
    have hs : i'.place=info.place ∧ i'.nRandomPos=info.nRandomPos ∧
        i'.lastTry=info.lastTry ∧ i'.lastSuccess=info.lastSuccess := by
      cases hu
      exact ⟨rfl,rfl,rfl,rfl⟩
    have hg : g → i'.fInTried=false ∧ i'.nRefCount≠ADDRMAN_NEW_BUCKETS_PER_ADDRESS := by
      cases hu
      intro ht
      simp only [Bool.and_eq_true,decide_eq_true_eq,Bool.not_eq_true'] at ht
      exact ⟨ht.1.1.2,ht.1.2⟩
    obtain ⟨hp,hpo,htr,hsu⟩ := hs
    have htri : i'.fInTried=info.fInTried := congrArg Place.fInTried hp
    have hti := h.coherent.timed nId info hi
    rw [← htr,← hsu,← htri] at hti
    have hc : Coherent env (s.modifyInfo nId fun _ => i') [] [] :=
        h.coherent.modifyInfo hi hp hpo hti
    have hf : Follows s (s.modifyInfo nId fun _ => i') :=
      Follows.modifyInfo hi (congrArg Place.service hp)
    have hi1 : (s.modifyInfo nId fun _ => i').mapInfo nId=some i' := by
      rw [mapInfo_modifyInfo hi,update_self]
    refine .ite (fun hon => ?_) fun _ => h.follow hc hf
    obtain ⟨b,s2,ho,hc2,hf2⟩ := (hc.loosen [nId] fun _ _ => not_mem_nil).insertNew
      hi1 (hg hon).1 (hg hon).2 source now
    rw [ho]
    exact h.follow hc2 (hf.trans hf2)
  | none =>
    by_cases hcn : s.nIdCount=2^31-1
    · rw [AddrMan.create,if_pos hcn]
      exact rfl
    obtain ⟨s1,ho1,hc1,hf1,hi1,-⟩ := h.coherent.create a source
      (h.coherent.find_none hfi) (by simpa using hr) hcn
    rw [ho1]
    dsimp only [bind,Except.bind]
    have hm := mapInfo_modifyInfo hi1 fun info => {info with nTime := max 0 (info.nTime-penalty)}
    have hti := hc1.timed _ _ hi1
    have hc2 := hc1.modifyInfo (f := fun info => {info with nTime := max 0 (info.nTime-penalty)})
      hi1 rfl rfl hti
    have hf2 := Follows.modifyInfo
      (f := fun info => {info with nTime := max 0 (info.nTime-penalty)}) hi1 rfl
    generalize (s1.modifyInfo s.nIdCount fun info =>
      {info with nTime := max 0 (info.nTime-penalty)})=s2 at hm hc2 hf2 ⊢
    have hi2 := congrFun hm s.nIdCount
    rw [update_self] at hi2
    rw [hi2]
    obtain ⟨b,_,ho3,hc3,hf3⟩ := hc2.insertNew hi2 rfl
      (show (0 : Int)≠ADDRMAN_NEW_BUCKETS_PER_ADDRESS by decide) source now
    dsimp only
    rw [ho3]
    exact h.follow hc3 ((hf1.trans hf2).trans hf3)

lemma Consistent.add [DecidableEq NetAddr]
    (va : List (NetworkAddress Service×Int×Nat)) (source : NetAddr) (tp : Int) :
    Ensures (fun e => e=.overflow) (Progress env s) (s.add env va source tp) := by
  refine Ensures.foldlM_keeps (fun s' en _ hs' => ?_) h.refl
  refine Ensures.bind (hs'.consistent.addSingle en.1 source tp en.2.1 en.2.2) ?_
  exact fun r hr => hs'.trans hr

lemma Consistent.moveToTried (hi : s.mapInfo nId=some info) (hsu : 0 < info.lastSuccess)
    (tbe : Bool) :
    ∃ b s', s.moveToTried env nId info tbe=.ok (b,s') ∧ Progress env s s' := by
  have hc := h.coherent
  unfold AddrMan.moveToTried
  by_cases htr : info.fInTried
  · rw [if_pos htr]
    exact ⟨false,s,rfl,h.refl⟩
  rw [if_neg htr]
  by_cases hr : info.nRefCount≤0
  · rw [if_pos hr]
    exact ⟨false,s,rfl,h.refl⟩
  rw [if_neg hr]
  by_cases ht : tbe ∧ s.vvTried (env.triedSlot info.service)≠-1
  · rw [if_pos ht]
    refine ⟨false,_,rfl,?_⟩
    split
    · refine ⟨⟨⟨hc.mapped,hc.listed,hc.placed,hc.counted,hc.known,hc.referenced,
        hc.timed⟩,fun j hm => ?_,fun j hm service hs => ?_⟩,fun _ hsl => hsl⟩
      · obtain rfl | hm := Finset.mem_insert.mp hm
        · exact (hc.mapped.range j _ (services_eq hi)).2
        · exact h.given j hm
      · obtain rfl | hm := Finset.mem_insert.mp hm
        · have hsv := services_eq hi
          rw [show s.services j=some service from hs] at hsv
          rw [some.inj hsv]
          exact ht.2
        · exact h.colliding j hm service hs
    · exact h.refl
  · rw [if_neg ht]
    obtain ⟨s2,ho,hc2,hf⟩ := hc.makeTried hi (Bool.eq_false_iff.mpr htr) hsu
    rw [ho]
    exact ⟨true,s2,rfl,h.follow hc2 hf⟩

lemma Consistent.good (a : Service) (tbe : Bool) {t : Int} (ht : 0<t) :
    ∃ b s', s.good env a tbe t=.ok (b,s') ∧ Progress env s s' := by
  unfold AddrMan.good
  dsimp only
  have h0 : Consistent env {s with lastGood := t} :=
    ⟨⟨h.coherent.mapped,h.coherent.listed,h.coherent.placed,h.coherent.counted,h.coherent.known,
      h.coherent.referenced,h.coherent.timed⟩,h.given,h.colliding⟩
  generalize hs0 : ({s with lastGood := t} : AddrMan Service NetAddr)=s0 at h0 ⊢
  have hp : Progress env s s0 := ⟨h0,by rw [← hs0]; exact fun _ hs => hs⟩
  cases hf : s0.find a with
  | none => exact ⟨false,s0,rfl,hp⟩
  | some f =>
    obtain ⟨nId,info⟩ := f
    obtain ⟨hi,-⟩ := h0.coherent.find hf
    dsimp only
    generalize hi' : ({info with lastSuccess := t, lastTry := t, nAttempts := 0} :
      AddrInfo Service NetAddr)=info'
    have hpl : info'.place=info.place := by rw [← hi']; rfl
    have hc : Coherent env (s0.modifyInfo nId fun _ => info') [] [] := by
      refine h0.coherent.modifyInfo hi hpl (by rw [← hi']) ?_
      rw [← hi']
      exact ⟨ht.le,ht.le,fun _ => ht⟩
    have hi1 : (s0.modifyInfo nId fun _ => info').mapInfo nId=some info' := by
      rw [mapInfo_modifyInfo hi,update_self]
    have hp1 := hp.trans (h0.follow hc (Follows.modifyInfo hi (congrArg Place.service hpl)))
    obtain ⟨b,s',ho,hm⟩ := hp1.consistent.moveToTried hi1 (by rw [← hi']; exact ht) tbe
    exact ⟨b,s',ho,hp1.trans hm⟩

lemma Consistent.resolveCollision (ie : Int) {t : Int} (ht : 0<t) :
    ∃ b s', s.resolveCollision env ie t=.ok (b,s') ∧ Progress env s s' := by
  unfold AddrMan.resolveCollision
  cases hn : s.mapInfo ie with
  | none => exact ⟨true,s,rfl,h.refl⟩
  | some i =>
    dsimp only
    by_cases hv : (!env.isValid i.service)
    · rw [if_pos hv]
      exact ⟨true,s,rfl,h.refl⟩
    rw [if_neg hv]
    obtain ⟨b,s',hok,hpr⟩ := h.good i.service false ht
    by_cases hs : s.vvTried (env.triedSlot i.service)=-1
    · rw [if_neg (not_not_intro hs),hok]
      exact ⟨true,s',rfl,hpr⟩
    · rw [if_pos hs]
      obtain ⟨p,hp,-⟩ := h.coherent.placed.tried _ hs
      obtain ⟨_,ho,-⟩ := map_eq_some_iff.mp hp
      rw [infoAt_eq ho]
      split
      · rw [hok]
        exact ⟨_,s',rfl,hpr⟩
      · exact ⟨_,s,rfl,h.refl⟩

lemma Consistent.resolveCollisions {c : Int → Int} (hc : ∀ nId, 0 < c nId) :
    ∃ s', s.resolveCollisions env c=.ok s' ∧ Progress env s s' := by
  refine foldlM_succeeds _ (fun s' i _ hs' => ?_) s h.refl
  obtain ⟨b,_,ho,hp⟩ := hs'.consistent.resolveCollision i (hc i)
  rw [ho]
  refine ⟨_,rfl,hs'.trans ?_⟩
  cases b with
  | false => exact hp
  | true => exact hp.trans ⟨hp.consistent.erase_collision i,fun _ hs => hs⟩
end
end
section
variable (h : Consistent env s) (ad : Service)
include h ad

lemma Consistent.modifyFound {f : AddrInfo Service NetAddr → AddrInfo Service NetAddr}
    (hp : ∀ info, (f info).place=info.place) (hpo : ∀ info, (f info).nRandomPos=info.nRandomPos)
    (ht : ∀ info, 0 ≤ info.lastTry → 0≤(f info).lastTry)
    (hs : ∀ info, (f info).lastSuccess=info.lastSuccess) : Progress env s (s.modifyFound ad f) := by
  unfold AddrMan.modifyFound
  cases hf : s.find ad with
  | none => exact h.refl
  | some fo =>
    obtain ⟨nId,info⟩ := fo
    obtain ⟨hi,-⟩ := h.coherent.find hf
    have htr : (f info).fInTried=info.fInTried := congrArg Place.fInTried (hp info)
    obtain ⟨ho,hr⟩ := h.coherent.timed nId info hi
    refine h.follow (h.coherent.modifyInfo hi (hp info) (hpo info) ⟨ht info ho,?_⟩)
      (Follows.modifyInfo hi (congrArg Place.service (hp info)))
    rw [hs,htr]
    exact hr

lemma Consistent.attempt (fcf : Bool) {t : Int} (ht : 0≤t) :
    Progress env s (s.attempt ad fcf t) := by
  refine h.modifyFound ad (fun info => ?_) (fun info => ?_) (fun info _ => ?_) fun info => ?_
  · dsimp only
    split <;> rfl
  · dsimp only
    split <;> rfl
  · dsimp only
    split <;> exact ht
  · dsimp only
    split <;> rfl

lemma Consistent.connected (t : Int) : Progress env s (s.connected ad t) := by
  refine h.modifyFound ad (fun info => ?_) (fun info => ?_) (fun info hi => ?_) fun info => ?_
  · split <;> rfl
  · split <;> rfl
  · split <;> exact hi
  · split <;> rfl

lemma Consistent.setServices (ns : Nat) : Progress env s (s.setServices ad ns) :=
  h.modifyFound ad (fun _ => rfl) (fun _ => rfl) (fun _ hi => hi) fun _ => rfl
end

/- Whatever the draws, the ids in a table are known. -/
lemma selectFrom_ok {n : Nat} (hn : 0<n) {t : Fin n×Fin ADDRMAN_BUCKET_SIZE → Int}
    (ht : ∀ slot, t slot≠-1 → ∃ info, s.mapInfo (t slot)=some info)
    (dr : List SelectDraw) : ∃ r, s.selectFrom hn t dr=.ok r := by
  induction dr with
  | nil => exact ⟨none,rfl⟩
  | cons d dr ih =>
    unfold selectFrom
    dsimp only
    split
    · exact ih
    · rename_i nId hf
      obtain ⟨i,-,hi⟩ := mem_map.mp (mem_of_find?_eq_some hf)
      have hne : nId≠-1 := by simpa using find?_some hf
      obtain ⟨info,hin⟩ := ht _ (hi ▸ hne)
      rw [hi] at hin
      rw [hin]
      dsimp only
      split
      · exact ⟨_,rfl⟩
      · exact ih

lemma Consistent.select (h : Consistent env s) (no c : Bool) (d : List SelectDraw) :
    ∃ r, s.select no c d=.ok r := by
  unfold AddrMan.select
  split
  · exact ⟨none,rfl⟩
  split
  · exact ⟨none,rfl⟩
  split
  · refine selectFrom_ok _ (fun sl hs => ?_) d
    obtain ⟨p,hp,-⟩ := h.coherent.placed.tried sl hs
    obtain ⟨info,hi,-⟩ := map_eq_some_iff.mp hp
    exact ⟨info,hi⟩
  · refine selectFrom_ok _ (fun sl hs => ?_) d
    obtain ⟨p,hp,-⟩ := h.coherent.placed.new sl hs
    obtain ⟨info,hi,-⟩ := map_eq_some_iff.mp hp
    exact ⟨info,hi⟩

lemma Reordered.follows (h : Reordered s s') : Follows s s' := by
  have hr := h.rest
  refine .of_services (by rw [hr]) (by rw [hr]) (by rw [hr]) fun j se hs => ?_
  have hsa : s'.services j=s.services j := map_of_strip (fun _ => rfl) (h.entries j)
  rw [← hsa]
  exact hs

lemma Consistent.getAddrLoop (h : Consistent env s) (nn : Nat) (nt : Option Network) (now : Int)
    (ra : Nat → Nat)
    (r : List Nat) (hr : ∀ n∈r, n < s.vRandom.length) (a : List (AddrInfo Service NetAddr)) :
    ∃ found s', AddrMan.getAddrLoop env nn nt now ra r a s=.ok (found,s') ∧
      Progress env s s' := by
  induction r generalizing s a with
  | nil => exact ⟨a,s,rfl,h.refl⟩
  | cons n r ih =>
    unfold AddrMan.getAddrLoop
    by_cases hd : nn≤a.length
    · rw [if_pos hd]
      exact ⟨a,s,rfl,h.refl⟩
    rw [if_neg hd]
    have hn := hr n (by simp)
    have ho : ra n%(s.vRandom.length-n)+n < s.vRandom.length := by
      have hmo := Nat.mod_lt (ra n) (show 0 < s.vRandom.length-n by omega)
      omega
    obtain ⟨s1,hok,hc,hre,hle,-⟩ := h.coherent.swapRandom hn ho
    have hp := h.follow hc hre.follows
    obtain ⟨nId,hni⟩ : ∃ nId, s1.vRandom[n]?=some nId := ⟨_,getElem?_eq_getElem (by omega)⟩
    obtain ⟨ai,ha⟩ := mapInfo_of_mem hc hni
    have ht : ∀ a, ∃ found s', AddrMan.getAddrLoop env nn nt now ra r
        a s1=.ok (found,s') ∧ Progress env s s' := by
      intro a
      obtain ⟨found,s',hl,hp'⟩ := ih hp.consistent (fun m hm => hle ▸ hr m (mem_cons_of_mem n hm)) a
      exact ⟨found,s',hl,hp.trans hp'⟩
    simp only [hok,ok_bind,hni,bind_some,ha]
    split
    · exact ht a
    · exact ht (a++[ai])

lemma Consistent.getAddr (h : Consistent env s) (ma m : Nat) (n : Option Network) (now : Int)
    (r : Nat → Nat) :
    ∃ found s', s.getAddr env ma m n now r=.ok (found,s') ∧
      Progress env s s' :=
  h.getAddrLoop _ n now r _ (fun _ hn => mem_range.mp hn) []

lemma Consistent.selectTriedCollision (h : Consistent env s) (pi : Nat) :
    Progress env s (s.selectTriedCollision env pi).2 := by
  unfold AddrMan.selectTriedCollision
  split
  · exact h.refl
  · rename_i i hpi
    have hm : i∈s.triedCollisions := by
      have hm := mem_of_getElem? hpi
      rwa [Finset.mem_sort] at hm
    cases hn : s.mapInfo i with
    | none => exact ⟨h.erase_collision i,fun _ hs => hs⟩
    | some n =>
      have hs := h.colliding i hm _ (services_eq hn)
      obtain ⟨p,hp,-⟩ := h.coherent.placed.tried _ hs
      obtain ⟨io,ho,-⟩ := map_eq_some_iff.mp hp
      dsimp only
      rw [infoAt_eq ho]
      exact h.refl
end AddrMan
end Xero
