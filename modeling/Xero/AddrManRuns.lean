import Xero.AddrManOps
import Xero.AddrManCheck
import Mathlib.Data.Set.Card

/-! Runs of the address manager: its operations in any order, with any random numbers, from the
empty state. -/
namespace Xero
open Library List Finset
namespace AddrMan
variable {Service NetAddr : Type}

inductive Op (Service NetAddr : Type)
  | add (vAddr : List (NetworkAddress Service×Int×Nat)) (source : NetAddr) (timePenalty : Int)
  | good (addr : Service) (testBeforeEvict : Bool) (time : Int)
  | attempt (addr : Service) (fCountFailure : Bool) (time : Int)
  | connected (addr : Service) (time : Int)
  | setServices (addr : Service) (nServices : Nat)
  | resolveCollisions (clock : Int → Int)
  | selectTriedCollision (pick : Nat)
  | select (newOnly coin : Bool) (draws : List SelectDraw)
  | getAddr (maxAddresses maxPct : Nat) (network : Option Network) (now : Int) (rand : Nat → Nat)

/-- The times that operations write into entries are after the epoch. -/
def Op.Timely : Op Service NetAddr → Prop
  | .good _ _ time => 0<time
  | .attempt _ _ time => 0≤time
  | .resolveCollisions clock => ∀ nId, 0 < clock nId
  | _ => True

section
variable [DecidableEq Service] [DecidableEq NetAddr] (env : AddrSpace Service NetAddr)

def apply (s : AddrMan Service NetAddr) : Op Service NetAddr → AddrResult (AddrMan Service NetAddr)
  | .add vAddr source timePenalty => s.add env vAddr source timePenalty
  | .good addr testBeforeEvict time => do
    let r ← s.good env addr testBeforeEvict time
    pure r.2
  | .attempt addr fCountFailure time => .ok (s.attempt addr fCountFailure time)
  | .connected addr time => .ok (s.connected addr time)
  | .setServices addr nServices => .ok (s.setServices addr nServices)
  | .resolveCollisions clock => s.resolveCollisions env clock
  | .selectTriedCollision pick => .ok (s.selectTriedCollision env pick).2
  | .select newOnly coin draws => do
    let _ ← s.select newOnly coin draws
    pure s
  | .getAddr maxAddresses maxPct network now rand => do
    let r ← s.getAddr env maxAddresses maxPct network now rand
    pure r.2

def run (ops : List (Op Service NetAddr)) (s : AddrMan Service NetAddr) :
    AddrResult (AddrMan Service NetAddr) :=
  ops.foldlM (apply env) s
end

variable {env : AddrSpace Service NetAddr} {s : AddrMan Service NetAddr}

lemma consistent_init : Consistent env ({} : AddrMan Service NetAddr) := by
  have hn {α : Type} {y : α} (P : Prop) (h : none=some y) : P := by cases h
  have hl : Listed (positions ({} : AddrMan Service NetAddr)) [] :=
    ⟨fun n => by simp [positions],fun _ _ => hn _,⟨by simp,by simp⟩⟩
  have hp : Placed env (places ({} : AddrMan Service NetAddr)) (fun _ => -1) fun _ => -1 :=
    ⟨rfl,fun _ hs => absurd rfl hs,fun _ _ => hn _,fun _ hs => absurd rfl hs,fun _ _ =>
        hn _,fun _ _ => hn _⟩
  have hc : Counted env ∅ (places ({} : AddrMan Service NetAddr))
      (totals ({} : AddrMan Service NetAddr)) [] := by
    refine ⟨fun t c => ?_⟩
    cases t <;> cases c <;> rfl
  have hm : Mapped env (services ({} : AddrMan Service NetAddr)) (fun _ => none) 0 :=
    ⟨fun _ _ => hn _,fun _ _ => hn _,fun _ _ => hn _,fun _ _ => hn _,le_refl _⟩
  exact ⟨⟨hm,hl,hp,hc,fun _ _ => hn _,fun _ _ => hn _,fun _ _ => hn _⟩,
    fun n hm => absurd hm (notMem_empty n),fun n hm => absurd hm (notMem_empty n)⟩

def entriesIn (env : AddrSpace Service NetAddr) (s : AddrMan Service NetAddr) (tried : Bool)
    (counted : Option Network) : Set Int :=
  {nId | ∃ info, s.mapInfo nId=some info ∧ info.fInTried=tried ∧
    ∀ network∈counted, env.getNetwork info.service=network}

/-- How the structures of a sound address manager are related. -/
structure Sound [DecidableEq Service] (env : AddrSpace Service NetAddr)
    (s : AddrMan Service NetAddr) :
    Prop where
  check : env.nKey≠0 → ∀ order, Enumerates s order → checkAddrman env s order=0
  random : Enumerates s s.vRandom
  address : ∀ nId service, (∃ info, s.mapInfo nId=some info ∧ info.service=service) ↔
    s.mapAddr service=some nId
  created : ∀ nId info, s.mapInfo nId=some info → 0≤nId ∧ nId < s.nIdCount ∧
    env.isRoutable info.service
  tried : ∀ nId info, s.mapInfo nId=some info → ∀ slot, s.vvTried slot=nId ↔
    info.fInTried ∧ slot=env.triedSlot info.service
  new : ∀ nId info, s.mapInfo nId=some info → ∀ slot, s.vvNew slot=nId →
    info.fInTried=false ∧ slot.2=env.getNewPosition info.service slot.1
  refs : ∀ nId info, s.mapInfo nId=some info → info.nRefCount=occurrences s.vvNew nId ∧
    (info.fInTried=false → 1 ≤ info.nRefCount ∧ info.nRefCount≤ADDRMAN_NEW_BUCKETS_PER_ADDRESS)
  counts : ∀ tried counted, s.totals tried counted=(entriesIn env s tried counted).ncard

lemma Coherent.totals_eq_ncard (h : Coherent env s [] []) (t : Bool) (c : Option Network) :
    s.totals t c=(entriesIn env s t c).ncard := by
  have hw : Place.weight env t c=fun p => if decide (p.fInTried=t ∧
      (c=none ∨ c=some (env.getNetwork p.service))) then 1 else 0 := by
    funext p
    simp [Place.weight,belongs]
  rw [h.total,hw,tally_eq_card,← Set.ncard_coe_finset]
  refine congrArg (fun S : Set Int => (S.ncard : Int)) ?_
  ext nId
  simp only [coe_filter,mem_toFinset,Set.mem_ofPred_eq,entriesIn,h.enumerates.2]
  cases hi : s.mapInfo nId with
  | none => simp
  | some i =>
    cases c with
    | none => simp [places_eq hi,AddrInfo.place]
    | some n =>
      simp only [places_eq hi,AddrInfo.place,Option.elim_some,decide_eq_true_eq,Option.isSome_some,
        true_and,reduceCtorEq,false_or,Option.some.injEq,exists_eq_left',Option.mem_def,forall_eq']
      exact and_congr_right fun _ => eq_comm

lemma Consistent.sound [DecidableEq Service] (h : Consistent env s) : Sound env s := by
  have hc := h.coherent
  refine ⟨fun hk o ho => hc.checkAddrman hk ho,hc.enumerates,fun n service => ?_,
    fun n i hi => ?_,fun n i hi slot => ?_,fun n i hi slot hs => ?_,
    fun n i hi => ⟨hc.placed.refs n _ (places_eq hi),fun hn => ?_⟩,hc.totals_eq_ncard⟩
  · constructor
    · rintro ⟨i,hi,rfl⟩
      exact hc.mapped.toAddr n _ (services_eq hi)
    · intro ha
      exact Option.map_eq_some_iff.mp (hc.mapped.toInfo service n ha)
  · obtain ⟨hnn,hl⟩ := hc.mapped.range n _ (services_eq hi)
    exact ⟨hnn,hl,hc.mapped.routable n _ (services_eq hi)⟩
  · have hid := hc.placed.ne_neg_one (places_eq hi)
    constructor
    · rintro rfl
      obtain ⟨p,hp,ht,hat⟩ := hc.placed.tried slot hid
      rw [places_eq hi] at hp
      cases hp
      exact ⟨ht,hat.symm⟩
    · rintro ⟨ht,rfl⟩
      exact hc.placed.own n _ (places_eq hi) ht
  · obtain ⟨-,hn,hpo⟩ := hc.placed.of_slot hs (places_eq hi)
    exact ⟨hn,hpo.symm⟩
  · exact ⟨hc.referenced n i hi hn not_mem_nil,hc.placed.most n _ (places_eq hi)⟩

section
variable [DecidableEq Service] [DecidableEq NetAddr]

lemma Consistent.apply (h : Consistent env s) {op : Op Service NetAddr} (ht : op.Timely) :
    Ensures (fun e => e=.overflow) (Progress env s) (s.apply env op) := by
  cases op with
  | add v so ti => exact h.add v so ti
  | good a t tm =>
    obtain ⟨b,s',ho,hp⟩ := h.good a t ht
    rw [AddrMan.apply,ho]
    exact hp
  | attempt a f tm => exact h.attempt a f ht
  | connected a tm => exact h.connected a tm
  | setServices a n => exact h.setServices a n
  | resolveCollisions cl =>
    obtain ⟨s',ho,hp⟩ := h.resolveCollisions ht
    rw [AddrMan.apply,ho]
    exact hp
  | selectTriedCollision p => exact h.selectTriedCollision p
  | select nw c d =>
    obtain ⟨r,ho⟩ := h.select nw c d
    rw [AddrMan.apply,ho]
    exact h.refl
  | getAddr m ma nt no ra =>
    obtain ⟨_,s',ho,hp⟩ := h.getAddr m ma nt no ra
    rw [AddrMan.apply,ho]
    exact hp

lemma Consistent.run (h : Consistent env s) {ops : List (Op Service NetAddr)}
    (ht : ∀ op∈ops, op.Timely) :
    Ensures (fun e => e=.overflow) (Progress env s) (AddrMan.run env ops s) :=
  Ensures.foldlM_keeps (fun _ op ho hs =>
    (hs.consistent.apply (ht op ho)).mono fun _ hp => hs.trans hp) h.refl

/-- After every operation the structures agree, CheckAddrman with a key returns zero and no assertion
has failed, and the tried slots in use at some time are in use at all later times, as long as the
ids last. -/
theorem run_sound (env : AddrSpace Service NetAddr) (ops ops' : List (Op Service NetAddr))
    (htimely : ∀ op∈ops++ops', op.Timely) (hids : run env (ops++ops') {}≠.error .overflow) :
    ∃ s s', run env ops {}=.ok s ∧ run env ops' s=.ok s' ∧ Sound env s ∧ Sound env s' ∧
      ∀ slot, s.vvTried slot≠-1 → s'.vvTried slot≠-1 := by
  have hb : ∀ op∈ops, op.Timely := fun op ho => htimely op (mem_append_left _ ho)
  have ha : ∀ op∈ops', op.Timely := fun op ho => htimely op (mem_append_right _ ho)
  have hsp : run env (ops++ops') {}=run env ops {} >>= run env ops' := foldlM_append
  obtain ⟨s,hs,hp⟩ := (consistent_init.run hb).exists_ok fun e he her =>
    hids (by rw [hsp,her,he]; rfl)
  rw [hs] at hsp
  obtain ⟨s',hs',hp'⟩ := (hp.consistent.run ha).exists_ok fun e he her =>
    hids (by rw [hsp,← he,← her]; rfl)
  exact ⟨s,s',hs,hs',hp.consistent.sound,hp'.consistent.sound,hp'.occupied⟩
end

lemma triedBuckets_pos : 0<ADDRMAN_TRIED_BUCKET_COUNT := by decide

lemma newBuckets_pos : 0<ADDRMAN_NEW_BUCKET_COUNT := by decide

def numbered : AddrSpace Nat Nat where
  nKey := 1
  getTriedBucket := fun _ => ⟨0,triedBuckets_pos⟩
  getNewBucket := fun _ _ => ⟨0,newBuckets_pos⟩
  getTriedPosition := fun _ _ => ⟨0,by decide⟩
  getNewPosition := fun service _ => ⟨service%64,Nat.mod_lt _ (by decide)⟩
  getNetwork := fun _ => .ipv4
  getNetClass := fun _ => .ipv4
  isRoutable := fun _ => true
  isValid := fun _ => true
  netAddr := id
  noService := 0
  noNetAddr := 0

/- A success at the epoch cannot be told from none: the check fails on the tried entry. -/
theorem good_at_epoch : ((run numbered [.add [(⟨1,100,0⟩,100,0)] 7 0,.good 1 false 0]
    {}).toOption.map
    fun s => (s.vRandom,checkAddrman numbered s s.vRandom))=some ([0],-1) := by
  decide +kernel

def addTwoAndMove : List (Op Nat Nat) :=
  [.add [(⟨1,100,0⟩,100,0),(⟨2,100,0⟩,100,0)] 7 0,.good 1 true 100,.good 2 false 100]

theorem run_sound_numbered : ((run numbered addTwoAndMove {}).toOption.map fun s =>
      (s.vvTried (numbered.triedSlot 2),s.nNew,s.nTried))=some (1,1,1) ∧
    ∃ s s', run numbered addTwoAndMove {}=.ok s ∧ run numbered [] s=.ok s' ∧ Sound numbered s ∧
      Sound numbered s' ∧ ∀ slot, s.vvTried slot≠-1 → s'.vvTried slot≠-1 := by
  have he : ((run numbered addTwoAndMove {}).toOption.map fun s =>
      (s.vvTried (numbered.triedSlot 2),s.nNew,s.nTried))=some (1,1,1) := by decide +kernel
  refine ⟨he,run_sound numbered addTwoAndMove [] (by simp [addTwoAndMove,Op.Timely]) ?_⟩
  rw [append_nil]
  intro her
  rw [her] at he
  cases he
end AddrMan
end Xero
