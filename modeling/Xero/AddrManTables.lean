import Xero.AddrMan
import Xero.Library.SwapRemove
import Xero.Library.Tally
import Xero.Library.Updates

/-! The structures of the address manager, each in its own terms: the ids the two maps know, their
random order, the two tables of slots, and the counts. -/
namespace Xero
open Library Function List
variable {Service NetAddr : Type}

/-- What decides in which slots an entry has to be. -/
structure Place (Service : Type) where
  service : Service
  fInTried : Bool
  nRefCount : Int

structure Mapped (env : AddrSpace Service NetAddr) (services : Int → Option Service)
    (mapAddr : Service → Option Int) (nIdCount : Int) : Prop where
  range : ∀ nId service, services nId=some service → 0≤nId ∧ nId<nIdCount
  routable : ∀ nId service, services nId=some service → env.isRoutable service
  toAddr : ∀ nId service, services nId=some service → mapAddr service=some nId
  toInfo : ∀ service nId, mapAddr service=some nId → services nId=some service
  count_nonneg : 0≤nIdCount

namespace Mapped
variable {env : AddrSpace Service NetAddr} {services : Int → Option Service}
variable {mapAddr : Service → Option Int} {nIdCount nId : Int} {service : Service}
section
variable (h : Mapped env services mapAddr nIdCount)
include h

lemma fresh : services nIdCount=none := by
  cases hs : services nIdCount with
  | none => rfl
  | some service => exact absurd (h.range _ _ hs).2 (lt_irrefl _)

lemma create [DecidableEq Service] (hn : mapAddr service=none) (hr : env.isRoutable service) :
    Mapped env (update services nIdCount (some service))
      (update mapAddr service (some nIdCount)) (nIdCount+1) := by
  have hc := h.count_nonneg
  refine ⟨fun nId s' hs => ?_,fun nId s' hs => ?_,fun nId s' hs => ?_,
    fun s' nId hs => ?_,by omega⟩ <;> obtain ⟨rfl,⟨⟩⟩ | ⟨-,ho⟩ := update_eq_some.mp hs
  · omega
  · have := h.range nId s' ho
    omega
  · exact hr
  · exact h.routable nId s' ho
  · exact update_self ..
  · exact update_of_free hn (h.toAddr nId s' ho)
  · exact update_self ..
  · exact update_of_free h.fresh (h.toInfo s' nId ho)

lemma erase [DecidableEq Service] (hs : services nId=some service) :
    Mapped env (update services nId none) (update mapAddr service none)
      nIdCount := by
  refine ⟨fun n' s' hs' => ?_,fun n' s' hs' => ?_,fun n' s' hs' => ?_,
    fun s' n' hs' => ?_,h.count_nonneg⟩ <;> obtain ⟨-,⟨⟩⟩ | ⟨hn,ho⟩ := update_eq_some.mp hs'
  · exact h.range n' s' ho
  · exact h.routable n' s' ho
  · refine update_eq_some.mpr (.inr ⟨?_,h.toAddr n' s' ho⟩)
    rintro rfl
    exact hn (Option.some.inj ((h.toAddr n' s' ho).symm.trans (h.toAddr nId s' hs)))
  · refine update_eq_some.mpr (.inr ⟨?_,h.toInfo s' n' ho⟩)
    rintro rfl
    exact hn (Option.some.inj ((h.toInfo s' n' ho).symm.trans hs))
end
end Mapped

/-- The random order has every id once, at the position its entry says. -/
structure Listed (positions : Int → Option Int) (vRandom : List Int) : Prop where
  known : ∀ nId, nId∈vRandom ↔ (positions nId).isSome
  nonneg : ∀ nId pos, positions nId=some pos → 0≤pos
  indexed : Indexed vRandom.toFinset vRandom fun nId => ((positions nId).getD 0).toNat

namespace Listed
variable {poss positions' : Int → Option Int} {vRandom vRandom' : List Int} {nId : Int}

/- The list keeps the ids that have a position, and positions are what the list says. -/
lemma of_indexed {S : Finset Int} {idx : Int → Nat} (hi : Indexed S vRandom' idx)
    (hm : ∀ nId, nId∈S ↔ (positions' nId).isSome)
    (hp : ∀ nId pos, positions' nId=some pos → pos=idx nId) : Listed positions' vRandom' := by
  have hs : ∀ nId, nId∈vRandom' ↔ nId∈S := by
    intro nId
    constructor
    · intro hin
      obtain ⟨n,hn⟩ := mem_iff_getElem?.mp hin
      exact (hi.idx_of n nId hn).1
    · exact fun hin => mem_of_getElem? (hi.at_idx nId hin)
  have hf : vRandom'.toFinset=S := by
    ext nId
    rw [mem_toFinset,hs]
  refine ⟨fun nId => by rw [hs,hm],fun nId pos h => ?_,?_⟩
  · rw [hp nId pos h]
    exact Int.natCast_nonneg _
  · rw [hf]
    refine hi.congr fun nId hin => ?_
    obtain ⟨pos,h⟩ := Option.isSome_iff_exists.mp ((hm nId).mp hin)
    rw [h,hp nId pos h]
    rfl

section
variable (h : Listed poss vRandom)
include h

lemma position {pos : Int} (hp : poss nId=some pos) : pos=((poss nId).getD 0).toNat := by
  have hn := h.nonneg nId pos hp
  simp only [hp,Option.getD_some]
  omega

lemma create (hn : poss nId=none) : Listed (update poss nId (some vRandom.length))
    (vRandom++[nId]) := by
  have hno : nId∉vRandom := by
    rw [h.known,hn]
    exact Bool.false_ne_true
  refine of_indexed (h.indexed.append (k := nId) (by simpa using hno)) (fun n' =>
      ?_) fun n' pos hp => ?_
  · by_cases he : n'=nId
    · simp [he]
    · simp [he,h.known]
  · obtain ⟨rfl,⟨⟩⟩ | ⟨hne,ho⟩ := update_eq_some.mp hp
    · simp
    · rw [update_of_ne hne]
      exact h.position ho

lemma swap {i j : Nat} {a b : Int} (ha : vRandom[i]?=some a) (hb : vRandom[j]?=some b) :
    Listed (update (update poss a (some j)) b (some i))
      ((vRandom.set i b).set j a) := by
  have hak := (h.known a).mp (mem_of_getElem? ha)
  have hbk := (h.known b).mp (mem_of_getElem? hb)
  refine of_indexed (h.indexed.swap ha hb) (fun nId => ?_) fun nId pos hp => ?_
  · rw [mem_toFinset,h.known]
    simp only [update_apply]
    split_ifs <;> simp_all
  · obtain ⟨rfl,⟨⟩⟩ | ⟨hn,ho⟩ := update_eq_some.mp hp
    · simp
    · obtain ⟨rfl,⟨⟩⟩ | ⟨hna,ho⟩ := update_eq_some.mp ho
      · simp [hn]
      · simp only [update_of_ne hn,update_of_ne hna]
        exact h.position ho

lemma erase (hl : vRandom.getLast?=some nId) : Listed (update poss nId none) vRandom.dropLast := by
  refine of_indexed (h.indexed.dropLast hl) (fun n' => ?_) fun n' pos hp => ?_
  · by_cases he : n'=nId
    · simp [he]
    · simp [he,h.known]
  · obtain ⟨-,⟨⟩⟩ | ⟨-,ho⟩ := update_eq_some.mp hp
    exact h.position ho
end
end Listed
/-- Every slot in use holds an entry that belongs there, every tried entry is in its slot, and
every entry has as many references as slots of the new table. -/
structure Placed (env : AddrSpace Service NetAddr) (places : Int → Option (Place Service))
    (vvTried : TriedSlot → Int) (vvNew : NewSlot → Int) : Prop where
  unused : places (-1)=none
  tried : ∀ slot, vvTried slot≠-1 → ∃ p, places (vvTried slot)=some p ∧ p.fInTried ∧
    env.triedSlot p.service=slot
  own : ∀ nId p, places nId=some p → p.fInTried → vvTried (env.triedSlot p.service)=nId
  new : ∀ slot, vvNew slot≠-1 → ∃ p, places (vvNew slot)=some p ∧ p.fInTried=false ∧
    env.getNewPosition p.service slot.1=slot.2
  refs : ∀ nId p, places nId=some p → p.nRefCount=occurrences vvNew nId
  most : ∀ nId p, places nId=some p → p.nRefCount≤ADDRMAN_NEW_BUCKETS_PER_ADDRESS

namespace Placed
variable {env : AddrSpace Service NetAddr} {pls : Int → Option (Place Service)}
variable {vvTried : TriedSlot → Int} {vvNew : NewSlot → Int} {nId : Int} {p : Place Service}
section
variable (h : Placed env pls vvTried vvNew)
include h

lemma ne_neg_one (hp : pls nId=some p) : nId≠-1 := by
  rintro rfl
  rw [h.unused] at hp
  cases hp

lemma refs_nonneg (hp : pls nId=some p) : 0≤p.nRefCount := by
  rw [h.refs nId p hp]
  exact Int.natCast_nonneg _

variable {slot : NewSlot}

/- An entry that some slot of the new table holds has a reference and is not tried. -/
lemma of_slot (hs : vvNew slot=nId) (hp : pls nId=some p) :
    0<p.nRefCount ∧ p.fInTried=false ∧ env.getNewPosition p.service slot.1=slot.2 := by
  obtain ⟨_,hp',ht,hpo⟩ := h.new slot (hs ▸ h.ne_neg_one hp)
  rw [hs,hp] at hp'
  cases hp'
  refine ⟨?_,ht,hpo⟩
  rw [h.refs nId p hp]
  exact_mod_cast occurrences_pos hs

lemma of_triedSlot {slot : TriedSlot} (hs : vvTried slot=nId)
    (hp : pls nId=some p) : p.fInTried ∧ env.triedSlot p.service=slot := by
  obtain ⟨_,hp',hr⟩ := h.tried slot (hs ▸ h.ne_neg_one hp)
  rw [hs,hp] at hp'
  cases hp'
  exact hr

lemma not_held (hr : ∀ p, pls nId=some p → p.nRefCount=0)
    (hi : nId≠-1) (slot : NewSlot) : vvNew slot≠nId := by
  intro hs
  obtain ⟨p,hp,-⟩ := h.new slot (hs ▸ hi)
  rw [hs] at hp
  exact (h.of_slot hs hp).1.ne' (hr p hp)

lemma replace {vt' : TriedSlot → Int} {vn' : NewSlot → Int}
    {b : Option (Place Service)} (hi : nId≠-1)
    (htr : ∀ slot, vt' slot≠-1 → vt' slot=vvTried slot ∧ vvTried slot≠nId ∨
      vt' slot=nId ∧ ∃ q, b=some q ∧ q.fInTried ∧ env.triedSlot q.service=slot)
    (hk : ∀ slot, vvTried slot≠-1 → vvTried slot≠nId → vt' slot=vvTried slot)
    (hn : ∀ slot, vn' slot≠-1 → vn' slot=vvNew slot ∧ vvNew slot≠nId ∨
      vn' slot=nId ∧ ∃ q, b=some q ∧ q.fInTried=false ∧ env.getNewPosition q.service slot.1=slot.2)
    (hre : ∀ nId'≠-1, nId'≠nId → (occurrences vn' nId' : Int)=occurrences vvNew nId')
    (how : ∀ q, b=some q → (q.fInTried → vt' (env.triedSlot q.service)=nId) ∧
      q.nRefCount=occurrences vn' nId ∧ q.nRefCount≤ADDRMAN_NEW_BUCKETS_PER_ADDRESS) :
    Placed env (update pls nId b) vt' vn' := by
  refine ⟨?_,fun slot hs => ?_,fun nId' p' hp' ht => ?_,fun slot hs => ?_,fun nId' p' hp' => ?_,
    fun nId' p' hp' => ?_⟩
  · rw [update_of_ne hi.symm,h.unused]
  · obtain ⟨he,hne⟩ | ⟨he,q,hq,hr⟩ := htr slot hs
    · rw [he] at hs ⊢
      rw [update_of_ne hne]
      exact h.tried slot hs
    · exact ⟨q,by rw [he,update_self,hq],hr⟩
  · obtain ⟨rfl,hq⟩ | ⟨hne,ho⟩ := update_eq_some.mp hp'
    · exact (how p' hq).1 ht
    · have hs := h.own nId' p' ho ht
      rw [hk _ (hs ▸ h.ne_neg_one ho) (hs ▸ hne),hs]
  · obtain ⟨he,hne⟩ | ⟨he,q,hq,hr⟩ := hn slot hs
    · rw [he] at hs ⊢
      rw [update_of_ne hne]
      exact h.new slot hs
    · exact ⟨q,by rw [he,update_self,hq],hr⟩
  · obtain ⟨rfl,hq⟩ | ⟨hne,ho⟩ := update_eq_some.mp hp'
    · exact (how p' hq).2.1
    · rw [h.refs nId' p' ho,hre nId' (h.ne_neg_one ho) hne]
  · obtain ⟨rfl,hq⟩ | ⟨-,ho⟩ := update_eq_some.mp hp'
    · exact (how p' hq).2.2
    · exact h.most nId' p' ho

lemma setRef {v : Int} {r : Int} (hp : pls nId=some p) (ht : p.fInTried=false)
    (hr : r=occurrences (update vvNew slot v) nId) (hm : r≤ADDRMAN_NEW_BUCKETS_PER_ADDRESS)
    (hsl : vvNew slot=nId ∨ vvNew slot=-1) (hv : v=-1 ∨ v=nId)
    (hpo : v=nId → env.getNewPosition p.service slot.1=slot.2) :
    Placed env (update pls nId (some {p with nRefCount := r})) vvTried
      (update vvNew slot v) := by
  refine h.replace (h.ne_neg_one hp) (fun s' _ => .inl ⟨rfl,fun he => ?_⟩) (fun _ _ _ => rfl)
    (fun s' hn => ?_) (fun nId' hn hot => ?_) ?_
  · rw [(h.of_triedSlot he hp).1] at ht
    cases ht
  · by_cases he : s'=slot
    · subst he
      rw [update_self] at hn ⊢
      have hs := hv.resolve_left hn
      exact .inr ⟨hs,_,rfl,ht,hpo hs⟩
    · rw [update_of_ne he]
      by_cases ho : vvNew s'=nId
      · exact .inr ⟨ho,_,rfl,ht,(h.of_slot ho hp).2.2⟩
      · exact .inl ⟨rfl,ho⟩
  · have ho : vvNew slot≠nId' := by
      rintro rfl
      exact hsl.elim hot hn
    have hs : v≠nId' := by
      rintro rfl
      exact hv.elim hn hot
    rw [occurrences_update,if_neg ho,if_neg hs,sub_zero,add_zero]
  · rintro q ⟨⟩
    exact ⟨fun h => absurd (ht.symm.trans h) Bool.false_ne_true,hr,hm⟩

lemma dropRef (hp : pls nId=some p) (hs : vvNew slot=nId) :
    Placed env (update pls nId (some {p with nRefCount := p.nRefCount-1})) vvTried
      (update vvNew slot (-1)) := by
  have hi := h.ne_neg_one hp
  have hm := h.most nId p hp
  refine h.setRef hp (h.of_slot hs hp).2.1 ?_ (by omega) (.inl hs) (.inl rfl) fun he =>
    absurd he.symm hi
  rw [occurrences_update,if_pos hs,if_neg (fun he => hi he.symm),h.refs nId p hp]
  omega

lemma addRef (hp : pls nId=some p) (ht : p.fInTried=false)
    (hm : p.nRefCount<ADDRMAN_NEW_BUCKETS_PER_ADDRESS)
    (hs : vvNew slot=-1) (hpo : env.getNewPosition p.service slot.1=slot.2) :
    Placed env (update pls nId (some {p with nRefCount := p.nRefCount+1})) vvTried
      (update vvNew slot nId) := by
  have hi := h.ne_neg_one hp
  refine h.setRef hp ht ?_ (by omega) (.inr hs) (.inr rfl) fun _ => hpo
  rw [occurrences_update,if_neg (by rw [hs]; exact fun he => hi he.symm),if_pos rfl,h.refs nId p hp]
  omega

lemma create (hn : pls nId=none) (hi : nId≠-1) (service : Service) :
    Placed env (update pls nId (some ⟨service,false,0⟩)) vvTried vvNew := by
  have hs := h.not_held (fun p hp => by simp [hn] at hp) hi
  refine h.replace hi (fun slot hsl => .inl ⟨rfl,fun he => ?_⟩) (fun _ _ _ => rfl)
    (fun slot _ => .inl ⟨rfl,hs slot⟩) (fun _ _ _ => rfl) ?_
  · obtain ⟨p,hp,-⟩ := h.tried slot hsl
    rw [he,hn] at hp
    cases hp
  · rintro q ⟨⟩
    exact ⟨nofun,by rw [occurrences_eq_zero.mpr hs]; rfl,
      (by decide : (0 : Int)≤ADDRMAN_NEW_BUCKETS_PER_ADDRESS)⟩

lemma erase (hp : pls nId=some p) (ht : p.fInTried=false) (hr : p.nRefCount=0) :
    Placed env (update pls nId none) vvTried vvNew := by
  have hs := h.not_held (fun p' hp' => by rwa [Option.some.inj (hp'.symm.trans hp)])
      (h.ne_neg_one hp)
  refine h.replace (h.ne_neg_one hp) (fun slot _ => .inl ⟨rfl,fun he => ?_⟩) (fun _ _ _ => rfl)
    (fun slot _ => .inl ⟨rfl,hs slot⟩) (fun _ _ _ => rfl) nofun
  rw [(h.of_triedSlot he hp).1] at ht
  cases ht

private lemma setTried {v : Int} {fit : Bool} (hp : pls nId=some p) (hr : p.nRefCount=0)
    (hs : vvTried (env.triedSlot p.service)=nId ∨ vvTried (env.triedSlot p.service)=-1)
    (hv : v=if fit then nId else -1) :
    Placed env (update pls nId (some {p with fInTried := fit}))
      (update vvTried (env.triedSlot p.service) v) vvNew := by
  have hsl := h.not_held (fun p' hp' => by rwa [Option.some.inj (hp'.symm.trans hp)])
      (h.ne_neg_one hp)
  refine h.replace (h.ne_neg_one hp) (fun slot hn => ?_) (fun slot hn ho => ?_)
    (fun slot _ => .inl ⟨rfl,hsl slot⟩) (fun _ _ _ => rfl) ?_
  · by_cases he : slot=env.triedSlot p.service
    · subst he
      rw [update_self] at hn ⊢
      cases fit with
      | false => exact absurd hv hn
      | true => exact .inr ⟨hv,_,rfl,rfl,rfl⟩
    · rw [update_of_ne he]
      exact .inl ⟨rfl,fun hol => he (h.of_triedSlot hol hp).2.symm⟩
  · refine update_of_ne ?_ ..
    rintro rfl
    exact hs.elim ho hn
  · rintro q ⟨⟩
    refine ⟨fun ht => ?_,h.refs nId p hp,h.most nId p hp⟩
    rw [update_self,hv,if_pos ht]

lemma leaveTried {slot : TriedSlot} (hp : pls nId=some p) (hs : vvTried slot=nId) :
    env.triedSlot p.service=slot ∧ p.nRefCount=0 ∧
      Placed env (update pls nId (some {p with fInTried := false}))
        (update vvTried slot (-1)) vvNew := by
  obtain ⟨ht,rfl⟩ := h.of_triedSlot hs hp
  have hr : p.nRefCount=0 := by
    rw [h.refs nId p hp,occurrences_eq_zero.mpr fun s' hs' => ?_]
    · rfl
    · rw [(h.of_slot hs' hp).2.1] at ht
      cases ht
  exact ⟨rfl,hr,h.setTried hp hr (.inl hs) rfl⟩

lemma enterTried (hp : pls nId=some p) (hr : p.nRefCount=0)
    (hs : vvTried (env.triedSlot p.service)=-1) :
    Placed env (update pls nId (some {p with fInTried := true}))
      (update vvTried (env.triedSlot p.service) nId) vvNew :=
  h.setTried hp hr (.inr hs) rfl
end
end Placed
/- Whether a new or tried entry of a network belongs to a count: of one network, or of all. -/
def belongs (fInTried : Bool) (network : Network) (tried : Bool) (counted : Option Network) : Int :=
  if fInTried=tried ∧ (counted=none ∨ counted=some network) then 1 else 0

def Place.weight (env : AddrSpace Service NetAddr) (tried : Bool) (counted : Option Network)
    (p : Place Service) : Int :=
  belongs p.fInTried (env.getNetwork p.service) tried counted

/-- The counts of new and tried entries, in all and by network, up to entries of the networks
`pending`, which are in neither table and not counted as new. -/
structure Counted (env : AddrSpace Service NetAddr) (ids : Finset Int)
    (places : Int → Option (Place Service)) (totals : Bool → Option Network → Int)
    (pending : List Network) : Prop where
  totals : ∀ tried counted, totals tried counted=tally ids places (Place.weight env tried counted)-
    (pending.map fun network => belongs false network tried counted).sum

namespace Counted
variable {env : AddrSpace Service NetAddr} {ids : Finset Int} {pls : Int → Option (Place Service)}
variable {totals totals' : Bool → Option Network → Int} {pd : List Network} {nId : Int}
variable {p q : Place Service}
section
variable (h : Counted env ids pls totals pd)
include h

lemma update {pd' : List Network} (hi : nId∈ids) (hp : pls nId=some p)
    (ht : ∀ tried counted, totals' tried counted-totals tried counted=
      q.weight env tried counted-p.weight env tried counted+
      (pd.map fun network => belongs false network tried counted).sum-
      (pd'.map fun network => belongs false network tried counted).sum) :
    Counted env ids (update pls nId (some q)) totals' pd' := by
  refine ⟨fun tried counted => ?_⟩
  have ho := h.totals tried counted
  have hn := ht tried counted
  rw [tally_update hi,hp]
  simp only [Option.elim_some]
  omega

lemma recount {pd' : List Network} (ht : ∀ tried counted, totals' tried counted-totals
    tried counted=
      (pd.map fun network => belongs false network tried counted).sum-
      (pd'.map fun network => belongs false network tried counted).sum) :
    Counted env ids pls totals' pd' := by
  refine ⟨fun tried counted => ?_⟩
  have ho := h.totals tried counted
  have hn := ht tried counted
  omega

lemma create (hi : nId∉ids)
    (ht : ∀ tried counted, totals' tried counted-totals tried counted= p.weight env tried counted) :
    Counted env (insert nId ids) (Function.update pls nId (some p)) totals' pd := by
  refine ⟨fun tried counted => ?_⟩
  have ho := h.totals tried counted
  have hn := ht tried counted
  rw [tally_insert hi]
  omega

lemma erase (hi : nId∈ids) (hp : pls nId=some p)
    (ht : ∀ tried counted, totals tried counted-totals' tried counted= p.weight env tried counted) :
    Counted env (ids.erase nId) (Function.update pls nId none) totals' pd := by
  refine ⟨fun tried counted => ?_⟩
  have ho := h.totals tried counted
  have hn := ht tried counted
  rw [tally_erase_key hi,hp] at ho
  rw [tally_update_of_notMem (Finset.notMem_erase nId ids)]
  simp only [Option.elim_some] at ho
  omega
end
end Counted
end Xero
