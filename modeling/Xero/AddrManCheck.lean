import Xero.AddrManInvariant
import Xero.Library.Simulation

/-! The consistency check of the address manager, and that it passes in every coherent state. -/
namespace Xero
open Library List AddrInfo
namespace AddrMan
variable {Service NetAddr : Type}

structure CheckSets where
  setTried : Finset Int := ∅
  mapNew : Finmap fun _ : Int => Int := ∅
  localCounts : Network → Option NewTriedCount := fun _ => none

variable (counts : Network → Option NewTriedCount)

def addLocal (network : Network) (new tried : Int) : Network → Option NewTriedCount :=
  let count := (counts network).getD {}
  Function.update counts network (some ⟨count.nNew+new,count.nTried+tried⟩)

section
variable [DecidableEq Service] (env : AddrSpace Service NetAddr) (s : AddrMan Service NetAddr)

def collect (c : CheckSets) (n : Int) (info : AddrInfo Service NetAddr) : Except Int CheckSets :=
  if info.fInTried then do
    rejectIf (decide (info.lastSuccess=0)) (-1)
    rejectIf (decide (info.nRefCount≠0)) (-2)
    pure {c with
      setTried := insert n c.setTried
      localCounts := addLocal c.localCounts (env.getNetwork info.service) 0 1}
  else do
    rejectIf (decide (info.nRefCount<0 ∨ ADDRMAN_NEW_BUCKETS_PER_ADDRESS < info.nRefCount)) (-3)
    rejectIf (decide (info.nRefCount=0)) (-4)
    pure {c with
      mapNew := c.mapNew.insert n info.nRefCount
      localCounts := addLocal c.localCounts (env.getNetwork info.service) 1 0}

def checkEntry (c : CheckSets) (n : Int) : Except Int CheckSets :=
  match s.mapInfo n with
  | none => .ok c
  | some info => do
    let c ← collect env c n info
    rejectIf (decide (s.mapAddr info.service≠some n)) (-5)
    rejectIf (decide (info.nRandomPos<0 ∨ s.vRandom[info.nRandomPos.toNat]?≠some n)) (-14)
    rejectIf (decide (info.lastTry<0)) (-6)
    rejectIf (decide (info.lastSuccess<0)) (-8)
    pure c

def checkTriedSlot (setTried : Finset Int) (slot : TriedSlot) : Except Int (Finset Int) :=
  if s.vvTried slot=-1 then .ok setTried
  else do
    rejectIf (decide (s.vvTried slot∉setTried)) (-11)
    match s.mapInfo (s.vvTried slot) with
    | none => .error (-17)
    | some info => do
      rejectIf (decide (env.getTriedBucket info.service≠slot.1)) (-17)
      rejectIf (decide (env.getTriedPosition info.service slot.1≠slot.2)) (-18)
      pure (setTried.erase (s.vvTried slot))

def checkNewSlot (mapNew : Finmap fun _ : Int => Int) (slot : NewSlot) :
    Except Int (Finmap fun _ : Int => Int) :=
  if s.vvNew slot=-1 then .ok mapNew
  else
    match mapNew.lookup (s.vvNew slot), s.mapInfo (s.vvNew slot) with
    | none, _ => .error (-12)
    | some _, none => .error (-19)
    | some refs, some info => do
      rejectIf (decide (env.getNewPosition info.service slot.1≠slot.2)) (-19)
      pure (if refs-1=0 then mapNew.erase (s.vvNew slot) else mapNew.insert (s.vvNew slot) (refs-1))

def slots (n : Nat) : List (Fin n×Fin ADDRMAN_BUCKET_SIZE) :=
  (finRange n).product (finRange ADDRMAN_BUCKET_SIZE)

def checkCounts (localCounts : Network → Option NewTriedCount) : Except Int Unit := do
  rejectIf (decide (Network.all.countP (fun network => (s.networkCounts network).isSome)<
    Network.all.countP fun network => (localCounts network).isSome)) (-20)
  rejectIf (Network.all.any fun network => (s.networkCounts network).any fun count =>
    decide ((localCounts network).getD {}≠count)) (-21)

def checkAll (order : List Int) : Except Int Unit := do
  rejectIf (decide ((s.vRandom.length : Int)≠s.nTried+s.nNew)) (-7)
  let c ← order.foldlM (checkEntry env s) {}
  rejectIf (decide ((c.setTried.card : Int)≠s.nTried)) (-9)
  rejectIf (decide ((c.mapNew.keys.card : Int)≠s.nNew)) (-10)
  let setTried ← (slots ADDRMAN_TRIED_BUCKET_COUNT).foldlM (checkTriedSlot env s) c.setTried
  let mapNew ← (slots ADDRMAN_NEW_BUCKET_COUNT).foldlM (checkNewSlot env s) c.mapNew
  rejectIf (decide (setTried.card≠0)) (-13)
  rejectIf (decide (mapNew.keys.card≠0)) (-15)
  rejectIf (decide (env.nKey=0)) (-16)
  checkCounts s c.localCounts

/-- CheckAddrman, going through the entries of mapInfo in the given order. -/
def checkAddrman (order : List Int) : Int :=
  match checkAll env s order with
  | .ok () => 0
  | .error e => e
end

def Enumerates (s : AddrMan Service NetAddr) (order : List Int) : Prop :=
  order.Nodup ∧ ∀ nId, nId∈order ↔ (s.mapInfo nId).isSome

variable {env : AddrSpace Service NetAddr} {s : AddrMan Service NetAddr} {od : List Int}

lemma Coherent.enumerates (h : Coherent env s [] []) : Enumerates s s.vRandom := by
  refine ⟨h.listed.indexed.nodup,fun nId => ?_⟩
  rw [h.listed.known,positions,Option.isSome_map]

structure Collected (env : AddrSpace Service NetAddr) (s : AddrMan Service NetAddr)
    (done : List Int)
    (c : CheckSets) : Prop where
  tried : ∀ nId, nId∈c.setTried ↔
    nId∈done ∧ ∃ info, s.mapInfo nId=some info ∧ info.fInTried
  new : ∀ nId refs, c.mapNew.lookup nId=some refs ↔
    nId∈done ∧ ∃ info, s.mapInfo nId=some info ∧ info.fInTried=false ∧ info.nRefCount=refs
  counts : ∀ network, (c.localCounts network).getD {}=
    ⟨tally done.toFinset s.places (Place.weight env false (some network)),
      tally done.toFinset s.places (Place.weight env true (some network))⟩
  known : ∀ network, (c.localCounts network).isSome → (s.networkCounts network).isSome

lemma tally_concat {d : List Int} {nId : Int} {i : AddrInfo Service NetAddr}
    (hi : s.mapInfo nId=some i) (hn : nId∉d) (f : Place Service → Int) :
    tally (d++[nId]).toFinset s.places f=tally d.toFinset s.places f+f i.place := by
  have hs : (d++[nId]).toFinset=insert nId d.toFinset := by
    ext
    simp
  have hm : nId∉d.toFinset := by simpa using hn
  rw [hs,tally_erase_key (Finset.mem_insert_self nId _),Finset.erase_insert hm,places_eq hi]
  exact add_comm ..

lemma getD_addLocal (n n' : Network) (new t : Int) :
    (addLocal counts n new t n').getD {}= if n'=n then
        ⟨((counts n).getD {}).nNew+new,((counts n).getD {}).nTried+t⟩
      else (counts n').getD {} := by
  unfold addLocal
  by_cases he : n'=n
  · subst he
    simp
  · simp [he]

section
variable {dn : List Int} {c : CheckSets} {nId : Int} {io : AddrInfo Service NetAddr}

lemma Collected.counts_concat (hc : Collected env s dn c) (hi : s.mapInfo nId=some io)
    (hf : nId∉dn) {new t : Int} (hn : new=if io.fInTried then 0 else 1)
    (ht : t=if io.fInTried then 1 else 0) (n : Network) :
    (addLocal c.localCounts (env.getNetwork io.service) new t n).getD {}=
      ⟨tally (dn++[nId]).toFinset s.places (Place.weight env false (some n)),
        tally (dn++[nId]).toFinset s.places (Place.weight env true (some n))⟩ := by
  rw [getD_addLocal,tally_concat hi hf,tally_concat hi hf,hc.counts,hc.counts]
  by_cases he : n=env.getNetwork io.service
  · rw [he]
    cases hin : io.fInTried <;> simp [hn,ht,hin,Place.weight,place,belongs]
  · simp [Place.weight,place,belongs,he]

section
variable (h : Coherent env s [] []) (hc : Collected env s dn c) (hif : s.mapInfo nId=some io)
include h hc hif

lemma Collected.known_concat {new t : Int} (n : Network)
    (hs : (addLocal c.localCounts (env.getNetwork io.service) new t n).isSome) :
    (s.networkCounts n).isSome := by
  by_cases he : n=env.getNetwork io.service
  · rw [he]
    exact h.known nId io hif
  · rw [addLocal,Function.update_of_ne he] at hs
    exact hc.known n hs

lemma Collected.collect (hf : nId∉dn) :
    ∃ c', collect env c nId io=.ok c' ∧ Collected env s (dn++[nId]) c' := by
  have hs {P : AddrInfo Service NetAddr → Prop} {j : Int} :
      (j∈dn++[nId] ∧ ∃ info', s.mapInfo j=some info' ∧ P info') ↔
        (j∈dn ∧ ∃ info', s.mapInfo j=some info' ∧ P info') ∨ j=nId ∧ P io := by
    rw [mem_append,mem_singleton,or_and_right]
    refine or_congr Iff.rfl (and_congr_right fun he => ?_)
    simp [he,hif]
  unfold AddrMan.collect
  cases hi : io.fInTried with
  | true =>
    have hsu := (h.timed nId io hif).2.2 hi
    have hr : io.nRefCount=0 :=
      (h.placed.leaveTried (places_eq hif) (h.placed.own nId _ (places_eq hif) hi)).2.1
    have hch : decide (io.lastSuccess=0)=false ∧ decide (io.nRefCount≠0)=false := by
      simp [hr,hsu.ne']
    simp only [if_true,rejectIf,hch.1,hch.2,if_neg Bool.false_ne_true,ok_bind,pure_ok]
    refine ⟨_,rfl,fun j => ?_,fun j refs => ?_,hc.counts_concat hif hf (by simp [hi])
      (by simp [hi]),fun n => hc.known_concat h hif n⟩
    · rw [Finset.mem_insert,hc.tried,hs]
      simp [hi,or_comm]
    · rw [hc.new,hs]
      simp [hi]
  | false =>
    have hp := h.referenced nId io hif hi not_mem_nil
    have hm : io.nRefCount≤ADDRMAN_NEW_BUCKETS_PER_ADDRESS := h.placed.most nId _ (places_eq hif)
    have hrn : ¬(io.nRefCount<0 ∨ ADDRMAN_NEW_BUCKETS_PER_ADDRESS < io.nRefCount) := by omega
    have hch : decide (io.nRefCount<0 ∨ ADDRMAN_NEW_BUCKETS_PER_ADDRESS < io.nRefCount)=false ∧
        decide (io.nRefCount=0)=false := ⟨decide_eq_false hrn,decide_eq_false (by omega)⟩
    simp only [rejectIf,hch.1,hch.2,if_neg Bool.false_ne_true,ok_bind,pure_ok]
    refine ⟨_,rfl,fun j => ?_,fun j refs => ?_,hc.counts_concat hif hf (by simp [hi])
      (by simp [hi]),fun n => hc.known_concat h hif n⟩
    · rw [hc.tried,hs]
      simp [hi]
    · rw [hs]
      by_cases he : j=nId
      · subst he
        simp [hf,hi]
      · rw [Finmap.lookup_insert_of_ne _ he,hc.new]
        simp [he]

lemma Collected.checkEntry [DecidableEq Service] (hf : nId∉dn) :
    ∃ c', checkEntry env s c nId=.ok c' ∧ Collected env s (dn++[nId]) c' := by
  obtain ⟨c',ho,hc'⟩ := hc.collect h hif hf
  have ha : s.mapAddr io.service=some nId := h.mapped.toAddr nId _ (services_eq hif)
  have hp := h.listed.nonneg nId _ (positions_eq hif)
  have hat : s.vRandom[io.nRandomPos.toNat]?=some nId := by
    have hi := h.listed.indexed.at_idx nId (h.mem_vRandom hif)
    simpa [positions_eq hif] using hi
  obtain ⟨ht,hs,-⟩ := h.timed nId io hif
  refine ⟨c',?_,hc'⟩
  unfold AddrMan.checkEntry
  rw [hif]
  simp [ho,ha,hat,hp.not_gt,ht.not_gt,hs.not_gt,rejectIf,ok_bind,pure_ok]
end
end

lemma collected_all [DecidableEq Service] (h : Coherent env s [] []) (ho : Enumerates s order) :
    ∃ c, order.foldlM (checkEntry env s) {}=.ok c ∧ Collected env s order c := by
  refine foldlM_completes (I := Collected env s) (fun d nId c hd hc => ?_) order
    (nil_append order) ?_
  · have hn : (d++[nId]).Nodup := hd.sublist.nodup ho.1
    have hm : nId∈order := hd.subset (by simp)
    obtain ⟨_,hi⟩ := Option.isSome_iff_exists.mp ((ho.2 nId).mp hm)
    refine hc.checkEntry h hi fun hin => ?_
    exact (nodup_append.mp hn).2.2 nId hin nId (by simp) rfl
  · refine ⟨fun nId => by simp,fun nId refs => by simp,fun network => ?_,fun network hs => ?_⟩
    · rfl
    · cases hs

lemma nodup_slots (n : Nat) : (slots n).Nodup :=
  (nodup_finRange n).product (nodup_finRange ADDRMAN_BUCKET_SIZE)

lemma mem_slots {n : Nat} (sl : Fin n×Fin ADDRMAN_BUCKET_SIZE) : sl∈slots n :=
  mem_product.mpr ⟨mem_finRange _,mem_finRange _⟩

/- The tried entries that are in no slot so far. -/
def Unseen (s : AddrMan Service NetAddr) (done : List TriedSlot) (setTried : Finset Int) : Prop :=
  ∀ nId, nId∈setTried ↔ (∃ info, s.mapInfo nId=some info ∧ info.fInTried) ∧
    ∀ slot∈done, s.vvTried slot≠nId

lemma Unseen.checkTriedSlot (h : Coherent env s [] []) {d : List TriedSlot}
    {st : Finset Int} {slot : TriedSlot} (hse : Unseen s d st) (hf : slot∉d) :
    ∃ setTried', checkTriedSlot env s st slot=.ok setTried' ∧
      Unseen s (d++[slot]) setTried' := by
  have hm : ∀ nId, (∀ s'∈d++[slot], s.vvTried s'≠nId) ↔
      (∀ s'∈d, s.vvTried s'≠nId) ∧ s.vvTried slot≠nId := by
    simp [or_imp,forall_and]
  unfold AddrMan.checkTriedSlot
  by_cases hs : s.vvTried slot=-1
  · rw [if_pos hs]
    refine ⟨st,rfl,fun nId => ?_⟩
    rw [hse nId,hm,hs]
    refine and_congr_right fun he => (and_iff_left ?_).symm
    obtain ⟨i,hi,-⟩ := he
    exact (h.placed.ne_neg_one (places_eq hi)).symm
  · rw [if_neg hs]
    obtain ⟨p,hp,ht,ha⟩ := h.placed.tried slot hs
    obtain ⟨i,hi,rfl⟩ := Option.map_eq_some_iff.mp hp
    have hin : s.vvTried slot∈st := by
      refine (hse _).mpr ⟨⟨i,hi,ht⟩,fun s' hs' heq => hf ?_⟩
      obtain ⟨_,hp',-,ha'⟩ := h.placed.tried s' (heq ▸ hs)
      rw [heq,hp] at hp'
      cases hp'
      rw [← ha,ha']
      exact hs'
    have hb : env.getTriedBucket i.service=slot.1 := congrArg Prod.fst ha
    have hpo : env.getTriedPosition i.service slot.1=slot.2 := by
      rw [← hb]
      exact congrArg Prod.snd ha
    simp only [rejectIf,hin,hi,hb,hpo,ne_eq,not_true_eq_false,decide_false,
      if_neg Bool.false_ne_true,ok_bind,pure_ok]
    refine ⟨_,rfl,fun nId => ?_⟩
    rw [Finset.mem_erase,hse nId,hm]
    constructor
    · rintro ⟨hn,he,hd⟩
      exact ⟨he,hd,hn.symm⟩
    · rintro ⟨he,hd,hn⟩
      exact ⟨hn.symm,he,hd⟩

lemma Unseen.all (h : Coherent env s [] []) {st : Finset Int} (hs : Unseen s [] st) :
    (slots ADDRMAN_TRIED_BUCKET_COUNT).foldlM (AddrMan.checkTriedSlot env s) st=.ok ∅ := by
  obtain ⟨s',ho,hs'⟩ := foldlM_completes (I := Unseen s)
    (fun d sl st hd hs => hs.checkTriedSlot h fun hin =>
      (nodup_append.mp (hd.sublist.nodup (nodup_slots _))).2.2 sl hin sl (by simp) rfl)
    (slots ADDRMAN_TRIED_BUCKET_COUNT) (nil_append _) hs
  have he : s'=∅ := by
    refine Finset.eq_empty_of_forall_notMem fun nId hm => ?_
    obtain ⟨⟨_,hi,ht⟩,hd⟩ := (hs' nId).mp hm
    exact hd _ (mem_slots _) (h.placed.own nId _ (places_eq hi) ht)
  rw [ho,he]

/- The references of the new entries that are not accounted for so far. -/
def Owed (s : AddrMan Service NetAddr) (done : List NewSlot)
    (mapNew : Finmap fun _ : Int => Int) : Prop :=
  ∀ nId refs, mapNew.lookup nId=some refs ↔ 0 < refs ∧ ∃ info, s.mapInfo nId=some info ∧
    info.fInTried=false ∧ refs=info.nRefCount-done.countP (fun slot => decide (s.vvNew slot=nId))

variable {mn : Finmap fun _ : Int => Int}
section
variable (h : Coherent env s [] [])
include h

lemma Owed.checkNewSlot {d : List NewSlot} {slot : NewSlot} (hm : Owed s d mn)
    (hd : d++[slot] <+: slots ADDRMAN_NEW_BUCKET_COUNT) :
    ∃ mapNew', checkNewSlot env s mn slot=.ok mapNew' ∧
      Owed s (d++[slot]) mapNew' := by
  have hcn : ∀ nId, ((d++[slot]).countP (fun slot => decide (s.vvNew slot=nId)) : Int)=
      d.countP (fun slot => decide (s.vvNew slot=nId))+if s.vvNew slot=nId then 1 else 0 := by
    intro nId
    by_cases heq : s.vvNew slot=nId <;> simp [heq]
  unfold AddrMan.checkNewSlot
  by_cases hs : s.vvNew slot=-1
  · rw [if_pos hs]
    refine ⟨mn,rfl,fun nId re => ?_⟩
    rw [hm nId re,hcn,hs]
    refine and_congr_right fun _ => exists_congr fun i => and_congr_right fun hi => ?_
    rw [if_neg (h.placed.ne_neg_one (places_eq hi)).symm,add_zero]
  · rw [if_neg hs]
    obtain ⟨p,hp,ht,hpo⟩ := h.placed.new slot hs
    obtain ⟨i,hi,rfl⟩ := Option.map_eq_some_iff.mp hp
    have ht' : i.fInTried=false := ht
    have hpo' : env.getNewPosition i.service slot.1=slot.2 := hpo
    have hlf : 0 < i.nRefCount-d.countP (fun s' => decide (s.vvNew s'=s.vvNew slot)) := by
      have hr : i.nRefCount=occurrences s.vvNew (s.vvNew slot) := h.placed.refs _ _ hp
      have hle := hd.sublist.countP_le (p := fun s' => decide (s.vvNew s'=s.vvNew slot))
      rw [countP_eq_occurrences (nodup_slots _) mem_slots] at hle
      have hst := hcn (s.vvNew slot)
      rw [if_pos rfl] at hst
      omega
    have hlo := (hm (s.vvNew slot) _).mpr ⟨hlf,i,hi,ht',rfl⟩
    generalize hr : i.nRefCount-d.countP (fun s' => decide (s.vvNew s'=s.vvNew slot))=
      re at hlf hlo
    simp only [hlo,hi,rejectIf,hpo',ne_eq,not_true_eq_false,decide_false,
      if_neg Bool.false_ne_true,ok_bind,pure_ok]
    refine ⟨_,rfl,fun nId r' => ?_⟩
    rw [hcn]
    by_cases heq : nId=s.vvNew slot
    · subst heq
      rw [if_pos rfl]
      have he : ∀ r, (0 < r ∧ ∃ info', s.mapInfo (s.vvNew slot)=some info' ∧ info'.fInTried=false ∧
          r=info'.nRefCount-((d.countP (fun s' => decide (s.vvNew s'=s.vvNew slot)) : Int)+1)) ↔
          0 < r ∧ r=re-1 := by
        intro r
        simp only [hi,Option.some.injEq,exists_eq_left',ht',true_and]
        refine and_congr_right fun _ => ?_
        omega
      rw [he]
      by_cases hl : re-1=0
      · rw [if_pos hl,Finmap.lookup_erase]
        simp only [reduceCtorEq,false_iff]
        omega
      · rw [if_neg hl,Finmap.lookup_insert,Option.some.injEq]
        omega
    · have ho : ¬s.vvNew slot=nId := fun heq' => heq heq'.symm
      rw [if_neg ho,add_zero,← hm nId r']
      by_cases hl : re-1=0
      · rw [if_pos hl,Finmap.lookup_erase_ne heq]
      · rw [if_neg hl,Finmap.lookup_insert_of_ne _ heq]

lemma Owed.all (hm : Owed s [] mn) :
    (slots ADDRMAN_NEW_BUCKET_COUNT).foldlM (AddrMan.checkNewSlot env s) mn=.ok ∅ := by
  obtain ⟨m',ho,hm'⟩ := foldlM_completes (I := Owed s)
    (fun d sl mn hd hm => hm.checkNewSlot h hd)
    (slots ADDRMAN_NEW_BUCKET_COUNT) (nil_append _) hm
  have he : m'=∅ := by
    refine Finmap.ext_lookup fun nId => ?_
    cases hl : m'.lookup nId with
    | none => rfl
    | some r =>
      obtain ⟨_,i,hi,-,hr⟩ := (hm' nId r).mp hl
      rw [countP_eq_occurrences (nodup_slots _) mem_slots] at hr
      have hs : i.nRefCount=occurrences s.vvNew nId := h.placed.refs _ _ (places_eq hi)
      omega
  rw [ho,he]

lemma Enumerates.toFinset (ho : Enumerates s od) : od.toFinset=s.vRandom.toFinset := by
  ext nId
  rw [mem_toFinset,mem_toFinset,ho.2,h.enumerates.2]

lemma Coherent.total (t : Bool) (co : Option Network) :
    s.totals t co=tally s.vRandom.toFinset s.places (Place.weight env t co) := by
  rw [h.counted.totals t co]
  simp

lemma Coherent.total_none (t : Bool) : s.totals t none=(s.vRandom.toFinset.filter fun nId =>
      (s.places nId).elim false (fun p => decide (p.fInTried=t))).card := by
  rw [h.total,← tally_eq_card]
  refine congrArg (tally _ _) (funext fun p => ?_)
  simp [Place.weight,belongs]

lemma Coherent.length_eq : (s.vRandom.length : Int)=s.nTried+s.nNew := by
  have ht : s.nTried=_ := h.total_none true
  have hn : s.nNew=_ := h.total_none false
  have hs := Finset.card_filter_add_card_filter_not (s := s.vRandom.toFinset)
    (p := fun nId => (s.places nId).elim false (fun p => decide (p.fInTried)))
  have hr : (s.vRandom.toFinset.filter fun nId =>
      ¬(s.places nId).elim false (fun p => decide (p.fInTried)))=
      s.vRandom.toFinset.filter fun nId =>
        (s.places nId).elim false (fun p => decide (p.fInTried=false)) := by
    refine Finset.filter_congr fun nId hm => ?_
    obtain ⟨_,hi⟩ := Option.isSome_iff_exists.mp ((h.enumerates.2 nId).mp (mem_toFinset.mp hm))
    simp [places_eq hi]
  rw [hr,toFinset_card_of_nodup h.enumerates.1] at hs
  omega

lemma Collected.card_eq (ho : Enumerates s od) {c : CheckSets} (hc : Collected env s od c) :
    (c.setTried.card : Int)=s.nTried ∧ (c.mapNew.keys.card : Int)=s.nNew := by
  have ht : s.nTried=_ := h.total_none true
  have hne : s.nNew=_ := h.total_none false
  rw [ht,hne]
  refine ⟨congrArg (fun S : Finset Int => (S.card : Int)) ?_,
    congrArg (fun S : Finset Int => (S.card : Int)) ?_⟩
  · ext nId
    rw [hc.tried,Finset.mem_filter,← ho.toFinset h,mem_toFinset]
    refine and_congr_right fun hm => ?_
    obtain ⟨i,hi⟩ := Option.isSome_iff_exists.mp ((ho.2 nId).mp hm)
    simp [hi,places_eq hi,place]
  · ext nId
    rw [Finmap.mem_keys,Finmap.mem_iff,Finset.mem_filter,← ho.toFinset h,mem_toFinset]
    simp only [hc.new]
    constructor
    · rintro ⟨_,hm,i,hi,hn,-⟩
      exact ⟨hm,by simp [places_eq hi,place,hn]⟩
    · rintro ⟨hm,hn⟩
      obtain ⟨i,hi⟩ := Option.isSome_iff_exists.mp ((ho.2 nId).mp hm)
      refine ⟨i.nRefCount,hm,i,hi,?_,rfl⟩
      simpa [places_eq hi,place] using hn

lemma Collected.checkCounts (ho : Enumerates s od)
    {c : CheckSets} (hc : Collected env s od c) : checkCounts s c.localCounts=.ok () := by
  have hl : Network.all.countP (fun n => (c.localCounts n).isSome) ≤
      Network.all.countP fun n => (s.networkCounts n).isSome :=
    countP_mono_left fun n _ hs => hc.known n hs
  have hsa : ∀ n, (c.localCounts n).getD {}=s.countOf n := by
    intro n
    have hn : (s.countOf n).nNew=_ := h.total false (some n)
    have ht : (s.countOf n).nTried=_ := h.total true (some n)
    rw [hc.counts,ho.toFinset h,← hn,← ht]
  have hcn : (Network.all.any fun n => (s.networkCounts n).any fun count =>
      decide ((c.localCounts n).getD {}≠count))=false := by
    rw [any_eq_false]
    intro n _
    rw [hsa,countOf]
    cases s.networkCounts n <;> simp
  unfold AddrMan.checkCounts
  rw [hcn]
  simp [rejectIf,not_lt.mpr hl,ok_bind]

/-- CheckAddrman finds nothing wrong, in any order of the entries. -/
lemma Coherent.checkAddrman [DecidableEq Service] (hk : env.nKey≠0)
    (ho : Enumerates s od) : checkAddrman env s od=0 := by
  obtain ⟨c,hok,hc⟩ := collected_all h ho
  obtain ⟨htr,hne⟩ := hc.card_eq h ho
  have hu : Unseen s [] c.setTried := by
    intro nId
    rw [hc.tried,ho.2]
    constructor
    · rintro ⟨-,he⟩
      exact ⟨he,nofun⟩
    · rintro ⟨⟨i,hi,ht⟩,-⟩
      exact ⟨by rw [hi]; rfl,i,hi,ht⟩
  have how : Owed s [] c.mapNew := by
    intro nId _
    rw [hc.new,ho.2]
    constructor
    · rintro ⟨-,i,hi,hn,rfl⟩
      exact ⟨h.referenced nId i hi hn not_mem_nil,i,hi,hn,by simp⟩
    · rintro ⟨-,i,hi,hn,hr⟩
      exact ⟨by rw [hi]; rfl,i,hi,hn,by simpa using hr.symm⟩
  have ha : checkAll env s od=.ok () := by
    unfold checkAll
    simp [rejectIf,h.length_eq,hok,htr,hne,hu.all h,how.all h,hk,hc.checkCounts h ho,ok_bind]
  rw [AddrMan.checkAddrman,ha]
end
end AddrMan
end Xero
