import Xero.AddrManTables
import Xero.Library.Checks

/-! The invariant of the address manager, and how creating, deleting and moving entries, and taking
and freeing slots keep it. -/
namespace Xero
open Function Option Except AddrInfo List
variable {Service NetAddr : Type}

def AddrInfo.place (info : AddrInfo Service NetAddr) : Place Service :=
  ⟨info.service,info.fInTried,info.nRefCount⟩

namespace AddrMan
def services (s : AddrMan Service NetAddr) (nId : Int) : Option Service :=
  (s.mapInfo nId).map AddrInfo.service

def positions (s : AddrMan Service NetAddr) (nId : Int) : Option Int :=
  (s.mapInfo nId).map AddrInfo.nRandomPos
def places (s : AddrMan Service NetAddr) (nId : Int) : Option (Place Service) :=
  (s.mapInfo nId).map AddrInfo.place

def totals (s : AddrMan Service NetAddr) : Bool → Option Network → Int
  | false, none => s.nNew
  | true, none => s.nTried
  | false, some network => (s.countOf network).nNew
  | true, some network => (s.countOf network).nTried

/-- The invariant, up to uncounted entries of the networks `pending`, and entries of `loose` without
a slot. -/
structure Coherent (env : AddrSpace Service NetAddr) (s : AddrMan Service NetAddr)
    (pending : List Network) (loose : List Int) : Prop where
  mapped : Mapped env s.services s.mapAddr s.nIdCount
  listed : Listed s.positions s.vRandom
  placed : Placed env s.places s.vvTried s.vvNew
  counted : Counted env s.vRandom.toFinset s.places s.totals pending
  known : ∀ nId info, s.mapInfo nId=some info →
    (s.networkCounts (env.getNetwork info.service)).isSome
  referenced : ∀ nId info, s.mapInfo nId=some info → info.fInTried=false → nId∉loose →
    0 < info.nRefCount
  timed : ∀ nId info, s.mapInfo nId=some info →
    0 ≤ info.lastTry ∧ 0 ≤ info.lastSuccess ∧ (info.fInTried → 0 < info.lastSuccess)

/-- What later states share with earlier ones: occupied tried slots stay occupied, ids are not given
out again, and collisions are only settled. -/
structure Follows (s s' : AddrMan Service NetAddr) : Prop where
  count : s.nIdCount ≤ s'.nIdCount
  occupied : ∀ slot, s.vvTried slot≠-1 → s'.vvTried slot≠-1
  services : ∀ nId service, nId < s.nIdCount → s'.services nId=some service →
    s.services nId=some service
  collisions : s'.triedCollisions⊆s.triedCollisions

variable {env : AddrSpace Service NetAddr} {s s' : AddrMan Service NetAddr} {nId : Int}
variable {pd pe' : List Network} {lo lo' : List Int}
variable {info in' : AddrInfo Service NetAddr}

lemma Follows.refl (s : AddrMan Service NetAddr) : Follows s s :=
  ⟨le_refl _,fun _ h => h,fun _ _ _ h => h,subset_rfl⟩

lemma Follows.trans {s'' : AddrMan Service NetAddr} (h : Follows s s') (h' : Follows s' s'') :
    Follows s s'' where
  count := h.count.trans h'.count
  occupied := fun sl hsl => h'.occupied sl (h.occupied sl hsl)
  services := fun nId se hi hs =>
    h.services nId se hi (h'.services nId se (hi.trans_le h.count) hs)
  collisions := h'.collisions.trans h.collisions

lemma services_eq (h : s.mapInfo nId=some info) : s.services nId=some info.service := by
  rw [services,h]
  rfl

lemma places_eq (h : s.mapInfo nId=some info) : s.places nId=some info.place := by
  rw [places,h]
  rfl

lemma positions_eq (h : s.mapInfo nId=some info) : s.positions nId=some info.nRandomPos := by
  rw [positions,h]
  rfl

lemma Coherent.mem_vRandom (h : Coherent env s pd lo) (hi : s.mapInfo nId=some info) :
    nId∈s.vRandom.toFinset := by
  rw [List.mem_toFinset,h.listed.known,positions_eq hi]
  rfl

lemma map_update {α : Type} (f : AddrInfo Service NetAddr → α)
    (hm : s'.mapInfo=update s.mapInfo nId (some in')) :
    (fun j => (s'.mapInfo j).map f)=
      update (fun j => (s.mapInfo j).map f) nId (some (f in')) := by
  funext j
  rw [hm]
  by_cases he : j=nId
  · subst he
    simp
  · simp [he]

lemma mapInfo_cases (hm : s'.mapInfo=update s.mapInfo nId (some in'))
    {j : Int} {i : AddrInfo Service NetAddr} (hj : s'.mapInfo j=some i) :
    j=nId ∧ i=in' ∨ j≠nId ∧ s.mapInfo j=some i := by
  rw [hm] at hj
  by_cases he : j=nId
  · rw [he,update_self] at hj
    exact .inl ⟨he,(some.inj hj).symm⟩
  · rw [update_of_ne he] at hj
    exact .inr ⟨he,hj⟩

lemma services_of_update (hi : s.mapInfo nId=some info)
    (hm : s'.mapInfo=update s.mapInfo nId (some in'))
    (hs : in'.service=info.service) : s'.services=s.services := by
  have he := map_update service hm
  rw [hs] at he
  refine he.trans ?_
  rw [← services_eq hi]
  exact update_eq_self nId s.services

lemma Coherent.setInfo (h : Coherent env s pd lo) (hi : s.mapInfo nId=some info)
    (hm : s'.mapInfo=update s.mapInfo nId (some in'))
    (hs : in'.service=info.service) (hps : in'.nRandomPos=info.nRandomPos)
    (ha : s'.mapAddr=s.mapAddr) (hc : s'.nIdCount=s.nIdCount) (hr : s'.vRandom=s.vRandom)
    (hpl : Placed env (update s.places nId (some in'.place)) s'.vvTried s'.vvNew)
    (hct : Counted env s.vRandom.toFinset (update s.places nId (some in'.place))
      s'.totals pe')
    (hk : ∀ network, (s.networkCounts network).isSome →
      (s'.networkCounts network).isSome)
    (hl : ∀ j, j≠nId → j∉lo' → j∉lo)
    (hre : in'.fInTried=false → nId∉lo' → 0 < in'.nRefCount)
    (hti : 0 ≤ in'.lastTry ∧ 0 ≤ in'.lastSuccess ∧
      (in'.fInTried → 0 < in'.lastSuccess)) :
    Coherent env s' pe' lo' := by
  have hse := services_of_update hi hm hs
  have hpo : s'.positions=s.positions := by
    have he := map_update nRandomPos hm
    have hsa : update (fun j => (s.mapInfo j).map nRandomPos) nId
        (some in'.nRandomPos)=s.positions := by
      rw [hps,← positions_eq hi]
      exact update_eq_self nId s.positions
    exact he.trans hsa
  have hp : s'.places=update s.places nId (some in'.place) := map_update place hm
  refine ⟨?_,?_,?_,?_,fun j i hj => ?_,fun j i hj ht hn => ?_,fun j i hj => ?_⟩
  · rw [hse,ha,hc]
    exact h.mapped
  · rw [hpo,hr]
    exact h.listed
  · rw [hp]
    exact hpl
  · rw [hp,hr]
    exact hct
  · obtain ⟨-,rfl⟩ | ⟨-,ho⟩ := mapInfo_cases hm hj
    · rw [hs]
      exact hk _ (h.known nId info hi)
    · exact hk _ (h.known j i ho)
  · obtain ⟨rfl,rfl⟩ | ⟨hne,ho⟩ := mapInfo_cases hm hj
    · exact hre ht hn
    · exact h.referenced j i ho ht (hl j hne hn)
  · obtain ⟨-,rfl⟩ | ⟨-,ho⟩ := mapInfo_cases hm hj
    · exact hti
    · exact h.timed j i ho

lemma mapInfo_modifyInfo (hi : s.mapInfo nId=some info)
    (f : AddrInfo Service NetAddr → AddrInfo Service NetAddr) :
    (s.modifyInfo nId f).mapInfo=update s.mapInfo nId (some (f info)) := by
  rw [modifyInfo,hi]
  rfl

variable {f : AddrInfo Service NetAddr → AddrInfo Service NetAddr}

lemma Coherent.modifyInfo (h : Coherent env s pd lo) (hi : s.mapInfo nId=some info)
    (hp : (f info).place=info.place) (hpo : (f info).nRandomPos=info.nRandomPos)
    (hti : 0≤(f info).lastTry ∧ 0≤(f info).lastSuccess ∧
    ((f info).fInTried → 0<(f info).lastSuccess)) :
    Coherent env (s.modifyInfo nId f) pd lo := by
  have hpl : update s.places nId (some (f info).place)=s.places := by
    rw [hp,← places_eq hi]
    exact update_eq_self nId s.places
  refine h.setInfo hi (mapInfo_modifyInfo hi f) (congrArg Place.service hp) hpo rfl rfl
    rfl ?_ ?_ (fun _ hne => hne) (fun _ _ hn => hn) ?_ hti
  · rw [hpl]
    exact h.placed
  · rw [hpl]
    exact h.counted
  · intro ht hn
    have hr : (f info).nRefCount=info.nRefCount := congrArg Place.nRefCount hp
    have ht' : (f info).fInTried=info.fInTried := congrArg Place.fInTried hp
    rw [hr]
    exact h.referenced nId info hi (ht' ▸ ht) hn

lemma Follows.of_services (hc : s'.nIdCount=s.nIdCount) (ht : s'.vvTried=s.vvTried)
    (hco : s'.triedCollisions=s.triedCollisions)
    (hse : ∀ j service, s'.services j=some service → s.services j=some service) : Follows s s' :=
  ⟨hc.ge,fun _ hsl => ht ▸ hsl,fun j service _ hs => hse j service hs,
    hco ▸ subset_rfl⟩

lemma services_modifyInfo (hi : s.mapInfo nId=some info) (hs : (f info).service=info.service) :
    (s.modifyInfo nId f).services=s.services :=
  services_of_update hi (mapInfo_modifyInfo hi f) hs

lemma Follows.modifyInfo (hi : s.mapInfo nId=some info) (hsv : (f info).service=info.service) :
    Follows s (s.modifyInfo nId f) :=
  .of_services rfl rfl rfl fun j service hs => by
    rwa [services_modifyInfo hi hsv] at hs

/- The list of loose entries may grow, and an entry with references can leave it. -/
lemma Coherent.loosen (h : Coherent env s pd lo) (lo' : List Int)
    (hs : ∀ j, j∉lo' → j∉lo) : Coherent env s pd lo' :=
  {h with referenced := fun j i hj ht hn => h.referenced j i hj ht (hs j hn)}

lemma Coherent.tighten (h : Coherent env s pd (nId::lo))
    (hr : ∀ info, s.mapInfo nId=some info → info.fInTried=false → 0 < info.nRefCount) :
    Coherent env s pd lo :=
  {h with
    referenced := fun j i hj ht hn => by
      by_cases he : j=nId
      · subst he
        exact hr i hj ht
      · exact h.referenced j i hj ht (by simp [he,hn])}

lemma mapInfo_dropRef (hi : s.mapInfo nId=some info) (slot : NewSlot) :
    (s.dropRef slot nId).mapInfo=
      update s.mapInfo nId (some {info with nRefCount := info.nRefCount-1}) :=
  mapInfo_modifyInfo hi _

lemma mapInfo_addRef (hi : s.mapInfo nId=some info) (slot : NewSlot) : (s.addRef slot nId).mapInfo=
      update s.mapInfo nId (some {info with nRefCount := info.nRefCount+1}) :=
  mapInfo_modifyInfo hi _

lemma Coherent.counted_of_refs (h : Coherent env s pd lo) (hi : s.mapInfo nId=some info) (r : Int) :
    Counted env s.vRandom.toFinset
      (update s.places nId (some {info.place with nRefCount := r})) s.totals
      pd := by
  refine h.counted.update (h.mem_vRandom hi) (places_eq hi) fun t c => ?_
  simp only [Place.weight]
  omega

lemma Coherent.dropRef {slot : NewSlot} (h : Coherent env s pd lo)
    (hi : s.mapInfo nId=some info) (hs : s.vvNew slot=nId) :
    Coherent env (s.dropRef slot nId) pd (nId::lo) := by
  refine h.setInfo hi (mapInfo_dropRef hi slot) rfl rfl rfl rfl rfl
    (h.placed.dropRef (places_eq hi) hs) (h.counted_of_refs hi (info.nRefCount-1))
    (fun _ hnt => hnt) (fun j hne hn => fun hm => hn (mem_cons_of_mem _ hm)) ?_
        (h.timed nId info hi)
  exact fun _ hn => absurd mem_cons_self hn

lemma Coherent.addRef {slot : NewSlot} (h : Coherent env s pd (nId::lo))
    (hi : s.mapInfo nId=some info)
    (ht : info.fInTried=false) (hm : info.nRefCount<ADDRMAN_NEW_BUCKETS_PER_ADDRESS)
    (hs : s.vvNew slot=-1) (hp : env.getNewPosition info.service slot.1=slot.2) :
    Coherent env (s.addRef slot nId) pd lo := by
  refine h.setInfo hi (mapInfo_addRef hi slot) rfl rfl rfl rfl rfl
    (h.placed.addRef (places_eq hi) ht hm hs hp) (h.counted_of_refs hi (info.nRefCount+1))
    (fun _ hn => hn) (fun j hne hno => by simp [hne,hno]) ?_ (h.timed nId info hi)
  intro _ _
  have hnn : 0 ≤ info.nRefCount := h.placed.refs_nonneg (places_eq hi)
  show 0 < info.nRefCount+1
  omega

def strip (info : AddrInfo Service NetAddr) : AddrInfo Service NetAddr :=
  {info with nRandomPos := 0}

structure Reordered (s s' : AddrMan Service NetAddr) : Prop where
  entries : ∀ j, (s'.mapInfo j).map strip=(s.mapInfo j).map strip
  rest : s'={s with mapInfo := s'.mapInfo, vRandom := s'.vRandom}

lemma map_of_strip {α : Type} {f : AddrInfo Service NetAddr → α}
    (hf : ∀ info, f (strip info)=f info)
    {m m' : Option (AddrInfo Service NetAddr)} (h : m'.map strip=m.map strip) :
    m'.map f=m.map f := by
  have hc : ∀ m : Option (AddrInfo Service NetAddr), m.map f=(m.map strip).map f := by
    intro m
    cases m with
    | none => rfl
    | some info => simp [hf]
  rw [hc m',hc m,h]

lemma exists_of_strip {m m' : Option (AddrInfo Service NetAddr)} (h : m'.map strip=m.map strip)
    (hi : m'=some info) : ∃ pos, m=some {info with nRandomPos := pos} := by
  subst hi
  obtain ⟨o,_,he⟩ := map_eq_some_iff.mp h.symm
  refine ⟨o.nRandomPos,?_⟩
  obtain ⟨⟩ := o
  obtain ⟨⟩ := info
  simp only [strip] at he ⊢
  grind

section
variable (h : Coherent env s pd lo)
include h

lemma Coherent.reorder (hre : Reordered s s')
    (hl : Listed s'.positions s'.vRandom) : Coherent env s' pd lo := by
  have hse : s'.services=s.services := funext fun j => map_of_strip (fun _ => rfl) (hre.entries j)
  have hp : s'.places=s.places := funext fun j => map_of_strip (fun _ => rfl) (hre.entries j)
  have hr := hre.rest
  have hi : s'.vRandom.toFinset=s.vRandom.toFinset := by
    ext j
    rw [List.mem_toFinset,List.mem_toFinset,hl.known,h.listed.known]
    have hs : (s'.positions j).isSome=(s.positions j).isSome := by
      have he := congrArg isSome (hre.entries j)
      simpa [positions] using he
    rw [hs]
  have ho : ∀ j i, s'.mapInfo j=some i →
      ∃ p, s.mapInfo j=some {i with nRandomPos := p} := fun j i hj =>
    exists_of_strip (hre.entries j) hj
  have ht : s'.totals=s.totals := by
    rw [hr]
    rfl
  refine ⟨?_,hl,?_,?_,fun j i hj => ?_,fun j i hj htr hn => ?_,fun j i hj => ?_⟩
  · rw [hse,hr]
    exact h.mapped
  · rw [hp,hr]
    exact h.placed
  · rw [hp,hi,ht]
    exact h.counted
  · obtain ⟨p,hj'⟩ := ho j i hj
    have hk := h.known j _ hj'
    rw [hr]
    exact hk
  · obtain ⟨p,hj'⟩ := ho j i hj
    have hrf := h.referenced j _ hj'
    exact hrf htr hn
  · obtain ⟨p,hj'⟩ := ho j i hj
    have hti := h.timed j _ hj'
    exact hti

lemma mapInfo_of_mem {i : Nat} (hi : s.vRandom[i]?=some nId) : ∃ info, s.mapInfo nId=some info := by
  have hs := (h.listed.known nId).mp (mem_of_getElem? hi)
  rw [positions,isSome_map] at hs
  exact isSome_iff_exists.mp hs

lemma Coherent.swapRandom {i j : Nat} (hi : i < s.vRandom.length) (hj : j < s.vRandom.length) :
    ∃ s', s.swapRandom i j=.ok s' ∧ Coherent env s' pd lo ∧ Reordered s s' ∧
      s'.vRandom.length=s.vRandom.length ∧ s'.vRandom[j]?=s.vRandom[i]? := by
  obtain ⟨a,ha⟩ : ∃ a, s.vRandom[i]?=some a := ⟨_,getElem?_eq_getElem hi⟩
  obtain ⟨b,hb⟩ : ∃ b, s.vRandom[j]?=some b := ⟨_,getElem?_eq_getElem hj⟩
  unfold AddrMan.swapRandom
  by_cases he : i=j
  · exact ⟨s,if_pos he,h,⟨fun _ => rfl,rfl⟩,rfl,he ▸ rfl⟩
  obtain ⟨ia,hif⟩ := mapInfo_of_mem h ha
  obtain ⟨io,hin⟩ := mapInfo_of_mem h hb
  have hn : b≠a := by
    rintro rfl
    exact he ((h.listed.indexed.idx_of i b ha).2.symm.trans (h.listed.indexed.idx_of j b hb).2)
  have hf : ¬((s.mapInfo a).isNone ∨ (s.mapInfo b).isNone) := by
    simp [hif,hin]
  simp only [if_neg he,ha,hb,if_neg hf]
  generalize hs' : ({(s.modifyInfo a fun info => {info with nRandomPos := j}).modifyInfo b
      (fun info => {info with nRandomPos := i}) with
        vRandom := (s.vRandom.set i b).set j a} : AddrMan Service NetAddr)=s'
  have hm : s'.mapInfo=update (update s.mapInfo a
      (some {ia with nRandomPos := j})) b (some {io with nRandomPos := i}) := by
    rw [← hs']
    simp only [AddrMan.modifyInfo,hif,map_some,update_of_ne hn,hin]
  have hre : Reordered s s' := by
    refine ⟨fun k => ?_,by rw [← hs']; rfl⟩
    rw [hm]
    by_cases hk : k=b
    · subst hk
      rw [update_self,hin]
      rfl
    · rw [update_of_ne hk]
      by_cases hka : k=a
      · subst hka
        rw [update_self,hif]
        rfl
      · rw [update_of_ne hka]
  have hp : s'.positions= update (update s.positions a (some (j : Int))) b (some (i : Int)) := by
    funext k
    rw [positions,hm]
    by_cases hk : k=b
    · subst hk
      simp
    · rw [update_of_ne hk,update_of_ne hk]
      by_cases hka : k=a
      · subst hka
        simp
      · rw [update_of_ne hka,update_of_ne hka]
        rfl
  have hr : s'.vRandom=(s.vRandom.set i b).set j a := by rw [← hs']
  refine ⟨s',congrArg ok hs',h.reorder hre ?_,hre,?_,?_⟩
  · rw [hp,hr]
    exact h.listed.swap ha hb
  · simp [hr]
  · rw [hr,getElem?_set_self (by simpa using hj)]
end

lemma totals_sub (n : Network) (new tr : Int) (hn : s'.nNew=s.nNew+new)
    (ht : s'.nTried=s.nTried+tr) (hcn : s'.networkCounts=(s.addCounts n new tr).networkCounts)
    (t : Bool) (c : Option Network) : s'.totals t c-s.totals t c=
      new*belongs false n t c+tr*belongs true n t c := by
  have hc : ∀ n', s'.countOf n'= if n'=n then
        ⟨(s.countOf n).nNew+new,(s.countOf n).nTried+tr⟩
      else s.countOf n' := by
    intro n'
    rw [countOf,hcn,addCounts]
    by_cases he : n'=n
    · subst he
      simp
    · simp [he,countOf]
  cases c with
  | none => cases t <;> simp [totals,belongs,hn,ht]
  | some n' =>
    by_cases he : n'=n
    · cases t <;> simp [totals,belongs,hc,he]
    · cases t <;> simp [totals,belongs,hc,he]

lemma isSome_addCounts {n n' : Network} {new t : Int} (h : (s.networkCounts n').isSome) :
    ((s.addCounts n new t).networkCounts n').isSome := by
  unfold addCounts
  by_cases he : n'=n
  · subst he
    simp
  · simpa [he] using h

lemma infoAt_eq (hi : s.mapInfo nId=some info) : s.infoAt env nId=(s,info) := by
  rw [infoAt,hi]

/- What is left of a state after the entry `nId` has lost a slot, or has been deleted. -/
structure Cleared (s s' : AddrMan Service NetAddr) (nId : Int) : Prop where
  others : ∀ j, j≠nId → (s'.mapInfo j).map strip=(s.mapInfo j).map strip
  gone : ∀ service, s'.services nId=some service → s.services nId=some service
  count : s'.nIdCount=s.nIdCount
  tried : s'.vvTried=s.vvTried
  collisions : s'.triedCollisions=s.triedCollisions

lemma Cleared.services (h : Cleared s s' nId) {j : Int} {service : Service}
    (hs : s'.services j=some service) : s.services j=some service := by
  by_cases he : j=nId
  · exact he ▸ h.gone service (he ▸ hs)
  · rw [AddrMan.services,← map_of_strip (fun _ => rfl) (h.others j he)]
    exact hs

lemma Cleared.follows (h : Cleared s s' nId) : Follows s s' :=
  .of_services h.count h.tried h.collisions fun _ _ hs => h.services hs

lemma Cleared.mapInfo (h : Cleared s s' nId) {j : Int} (hn : j≠nId)
    (hi : s.mapInfo j=some info) : ∃ pos, s'.mapInfo j=some {info with nRandomPos := pos} :=
  exists_of_strip (h.others j hn).symm hi

section
variable [DecidableEq Service]
section
variable (h : Coherent env s pd lo)
include h

lemma Coherent.create (a : NetworkAddress Service) (source : NetAddr)
    (hno : s.mapAddr a.service=none) (hr : env.isRoutable a.service) (hc : s.nIdCount≠2^31-1) :
    ∃ s', s.create env a source=.ok (s.nIdCount,s') ∧
      Coherent env s' pd (s.nIdCount::lo) ∧ Follows s s' ∧
      s'.mapInfo s.nIdCount=some (newInfo a source s.vRandom.length) ∧ s'.vvNew=s.vvNew := by
  have hf : s.mapInfo s.nIdCount=none := map_eq_none_iff.mp h.mapped.fresh
  have hne : s.nIdCount∉s.vRandom := by
    rw [h.listed.known,positions,hf]
    exact Bool.false_ne_true
  unfold AddrMan.create
  rw [if_neg hc]
  dsimp only
  generalize hi : newInfo a source (s.vRandom.length : Int)=info
  generalize hs' : ({s with
    nIdCount := s.nIdCount+1
    mapInfo := update s.mapInfo s.nIdCount (some info)
    mapAddr := update s.mapAddr a.service (some s.nIdCount)
    vRandom := s.vRandom++[s.nIdCount]
    nNew := s.nNew+1} : AddrMan Service NetAddr).addCounts (env.getNetwork a.service) 1 0=s'
  have hm : s'.mapInfo=update s.mapInfo s.nIdCount (some info) := by rw [← hs']; rfl
  have hse : s'.services=update s.services s.nIdCount (some a.service) := by
    refine (map_update service hm).trans ?_
    rw [← hi]
    rfl
  have hpo : s'.positions= update s.positions s.nIdCount (some (s.vRandom.length : Int)) := by
    refine (map_update nRandomPos hm).trans ?_
    rw [← hi]
    rfl
  have hp : s'.places= update s.places s.nIdCount (some ⟨a.service,false,0⟩) := by
    refine (map_update place hm).trans ?_
    rw [← hi]
    rfl
  have hnn := h.mapped.count_nonneg
  refine ⟨s',rfl,?_,?_,by rw [hm,update_self],by rw [← hs']; rfl⟩
  · refine ⟨?_,?_,?_,?_,fun j i hj => ?_,fun j i hj ht hn => ?_,fun j i hj => ?_⟩
    · rw [hse,← hs']
      exact h.mapped.create hno hr
    · rw [hpo,← hs']
      exact h.listed.create (by rw [positions,hf]; rfl)
    · rw [hp,← hs']
      exact h.placed.create (by rw [places,hf]; rfl) (by omega) a.service
    · have hid : s'.vRandom.toFinset=insert s.nIdCount s.vRandom.toFinset := by
        rw [← hs']
        ext j
        simp [addCounts]
      rw [hp,hid]
      refine h.counted.create (by simpa using hne) fun t c => ?_
      rw [totals_sub (env.getNetwork a.service) 1 0
        (by rw [← hs']; rfl) (by rw [← hs']; simp [addCounts]) (by rw [← hs']; rfl)]
      simp [Place.weight]
    · rw [← hs']
      obtain ⟨-,rfl⟩ | ⟨-,ho⟩ := mapInfo_cases hm hj
      · rw [← hi]
        simp [addCounts,newInfo]
      · exact isSome_addCounts (h.known j i ho)
    · obtain ⟨rfl,-⟩ | ⟨-,ho⟩ := mapInfo_cases hm hj
      · exact absurd mem_cons_self hn
      · exact h.referenced j i ho ht fun hme => hn (mem_cons_of_mem _ hme)
    · obtain ⟨-,rfl⟩ | ⟨-,ho⟩ := mapInfo_cases hm hj
      · rw [← hi]
        exact ⟨le_refl _,le_refl _,fun ht => by cases ht⟩
      · exact h.timed j i ho
  · refine ⟨by rw [← hs']; simp [addCounts],fun sl hsl => by rw [← hs']; exact hsl,?_,
      by rw [← hs']; rfl⟩
    intro j service _ hs
    rw [hse,update_of_ne (by omega)] at hs
    exact hs

lemma Coherent.delete (hi : s.mapInfo nId=some info) (ht : info.fInTried=false)
    (hre : info.nRefCount=0) :
    ∃ s', s.delete env nId=.ok s' ∧ Coherent env s' pd lo ∧ Cleared s s' nId ∧
      s'.mapInfo nId=none ∧ s'.vvNew=s.vvNew := by
  have ha : s.vRandom[info.nRandomPos.toNat]?=some nId := by
    have hid := h.listed.indexed.at_idx nId (h.mem_vRandom hi)
    simpa [positions_eq hi] using hid
  have hlt := (List.getElem?_eq_some_iff.mp ha).1
  obtain ⟨s1,hsw,hc,hr,hle,hl⟩ := h.swapRandom hlt
    (show s.vRandom.length-1 < s.vRandom.length by omega)
  have hg : s1.vRandom.getLast?=some nId := by
    rw [getLast?_eq_getElem?,hle,hl,ha]
  obtain ⟨p,hi1⟩ : ∃ p, s1.mapInfo nId=some {info with nRandomPos := p} :=
    exists_of_strip (hr.entries nId).symm hi
  unfold AddrMan.delete
  rw [hi]
  simp only [addrAssert,ht,hre,Bool.not_false,decide_true,if_true,bind,bind,hsw,pure,pure]
  generalize hs' : ({s1.addCounts (env.getNetwork info.service) (-1) 0 with
    vRandom := s1.vRandom.dropLast
    mapAddr := update s1.mapAddr info.service none
    mapInfo := update s1.mapInfo nId none
    nNew := s1.nNew-1} : AddrMan Service NetAddr)=s'
  have hm : s'.mapInfo=update s1.mapInfo nId none := by rw [← hs']
  have hp : ∀ {α : Type} (f : AddrInfo Service NetAddr → α), (fun j => (s'.mapInfo j).map f)=
      update (fun j => (s1.mapInfo j).map f) nId none := by
    intro α f
    funext j
    rw [hm]
    by_cases he : j=nId
    · simp [he]
    · simp [he]
  have ho : ∀ j i, s'.mapInfo j=some i → s1.mapInfo j=some i := by
    intro j i hj
    rw [hm] at hj
    by_cases he : j=nId
    · rw [he,update_self] at hj
      cases hj
    · rwa [update_of_ne he] at hj
  have hse : s'.services=update s1.services nId none := hp _
  have hpo : s'.positions=update s1.positions nId none := hp _
  have hpl : s'.places=update s1.places nId none := hp _
  have hrs := hr.rest
  refine ⟨s',congrArg ok hs',?_,?_,by rw [hm,update_self],?_⟩
  · refine ⟨?_,?_,?_,?_,fun j i hj => ?_,fun j i hj => ?_,fun j i hj => ?_⟩
    · rw [hse,← hs']
      have hsv1 := services_eq hi1
      exact hc.mapped.erase hsv1
    · rw [hpo,← hs']
      exact hc.listed.erase hg
    · rw [hpl,← hs']
      exact hc.placed.erase (places_eq hi1) ht hre
    · have his : s'.vRandom.toFinset=s1.vRandom.toFinset.erase nId := by
        have hd := (hc.listed.erase hg).known
        ext j
        rw [List.mem_toFinset,show s'.vRandom=s1.vRandom.dropLast by rw [← hs'],hd,
          Finset.mem_erase,List.mem_toFinset,hc.listed.known]
        by_cases he : j=nId
        · simp [he]
        · simp [he]
      rw [hpl,his]
      refine hc.counted.erase (hc.mem_vRandom hi1) (places_eq hi1) fun t c => ?_
      have hsu : s'.totals t c-s1.totals t c=_ :=
        totals_sub (env.getNetwork info.service) (-1) 0 (by rw [← hs']; rfl)
          (by rw [← hs']; simp [addCounts]) (by rw [← hs']) t c
      simp only [Place.weight,place,ht]
      omega
    · rw [← hs']
      exact isSome_addCounts (hc.known j i (ho j i hj))
    · exact hc.referenced j i (ho j i hj)
    · exact hc.timed j i (ho j i hj)
  · refine ⟨fun j hn => ?_,fun service hs => ?_,?_,?_,?_⟩
    · rw [hm,update_of_ne hn]
      exact hr.entries j
    · rw [hse,update_self] at hs
      cases hs
    all_goals rw [← hs',hrs]; rfl
  · rw [← hs',hrs]
    rfl

lemma Coherent.clearNew (slot : NewSlot) : ∃ s', s.clearNew env slot=.ok s' ∧
    Coherent env s' pd lo ∧
      Cleared s s' (s.vvNew slot) ∧ s'.vvNew=update s.vvNew slot (-1) := by
  unfold AddrMan.clearNew
  by_cases hsl : s.vvNew slot=-1
  · rw [if_neg (not_not_intro hsl)]
    refine ⟨s,rfl,h,⟨fun _ _ => rfl,fun _ hs => hs,rfl,rfl,rfl⟩,?_⟩
    rw [← hsl,update_eq_self]
  rw [if_pos hsl]
  obtain ⟨p,hp,ht,-⟩ := h.placed.new slot hsl
  obtain ⟨info,hi,rfl⟩ := map_eq_some_iff.mp hp
  have hpo : 0 < info.nRefCount := (h.placed.of_slot rfl hp).1
  have hdo := h.dropRef hi rfl
  have hm := mapInfo_dropRef hi slot
  have hi' : (s.dropRef slot (s.vvNew slot)).mapInfo (s.vvNew slot)=
      some {info with nRefCount := info.nRefCount-1} := by
    rw [hm,update_self]
  have hc : Cleared s (s.dropRef slot (s.vvNew slot)) (s.vvNew slot) := by
    refine ⟨fun j hne => ?_,fun service hs => ?_,rfl,rfl,rfl⟩
    · rw [hm,update_of_ne hne]
    · rw [services,hi'] at hs
      rw [services,hi]
      exact hs
  simp only [infoAt_eq hi,addrAssert,decide_eq_true hpo,if_true,bind,bind]
  by_cases hz : info.nRefCount-1=0
  · rw [if_pos hz]
    obtain ⟨s',ho,hco,hd,hn,hnw⟩ := hdo.delete hi' ht hz
    refine ⟨s',ho,hco.tighten fun info hi => ?_,?_,hnw⟩
    · rw [hn] at hi
      cases hi
    · refine ⟨fun j hne => (hd.others j hne).trans (hc.others j hne),fun service hs => ?_,
        hd.count,hd.tried,hd.collisions⟩
      exact hc.gone service (hd.gone service hs)
  · rw [if_neg hz]
    refine ⟨_,rfl,hdo.tighten fun i'' hi'' _ => ?_,hc,rfl⟩
    rw [hi'] at hi''
    cases hi''
    show 0 < info.nRefCount-1
    omega
end
end
end AddrMan
end Xero
