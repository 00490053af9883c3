import Xero.MempoolRemoval

/-! An accepted transaction enters the pool: its links to parents are set, and the totals of its
package and its ancestors brought up to date. -/
namespace Xero
open Library Relation Function Finset TxMemPoolEntry
variable {c h p : Uint256}

structure TxMemPoolEntry.Fresh (e : TxMemPoolEntry) : Prop where
  modifiedFee : e.modifiedFee=e.nFee
  withDescendants : e.withDescendants=⟨1,e.nTxSize,e.nFee⟩
  withAncestors : e.withAncestors=⟨1,e.nTxSize,e.nFee⟩
  sigOps : e.nSigOpCostWithAncestors=e.sigOpCost
  parents : e.parents=∅
  children : e.children=∅

lemma TxMemPoolEntry.fresh_make (tx : Transaction) (wh : Uint256) (fee ti : Int)
    (sc w u b : Nat) (hw : 0<w) :
    (make tx wh fee ti sc w u b hw).Fresh :=
  ⟨rfl,rfl,rfl,rfl,rfl,rfl⟩

namespace TxMemPool
variable {s t : TxMemPool} {e : TxMemPoolEntry} {A : Finset Uint256}
  {alw : MempoolAssert → Prop}

def feeWithDelta (s : TxMemPool) (e : TxMemPoolEntry) : Int := e.nFee+(s.mapDeltas e.hash).getD 0

/-- What acceptance guarantees of a new entry and the set of ancestors passed with it. -/
structure Accepted (s : TxMemPool) (e : TxMemPoolEntry) (A : Finset Uint256) : Prop where
  fresh : e.Fresh
  new : e.hash∉s.mapTx
  newWitness : ∀ h∈s.mapTx, (s.entry h).witnessHash≠e.witnessHash
  ancestors : ∀ a, a∈A ↔ ∃ p∈s.parentsInPool e, a∈s.ancestors p
  noConflict : ∀ o∈e.prevouts, s.mapNextTx o=none
  noChild : ∀ c∈s.mapTx, ∀ o∈(s.entry c).prevouts, o.hash≠e.hash
  notOwnParent : ∀ o∈e.prevouts, o.hash≠e.hash
  sigops : e.sigOpCost≤MAX_STANDARD_TX_SIGOPS_COST

/-- The fees of the entries and of a new one stay in range. -/
def FeesFitWith (s : TxMemPool) (e : TxMemPoolEntry) : Prop :=
  FeeSumsFit (update (fun h => (s.entry h).modifiedFee) e.hash (s.feeWithDelta e))
    (insert e.hash s.mapTx)

section
variable {C : Finset Uint256} {r : Uint256} (hr : r∉C)
include hr

lemma totalsOver_insert_nSize :
    (s.totalsOver C).nSize+(s.entry r).nTxSize=(s.totalsOver (insert r C)).nSize := by
  simp only [totalsOver,sum_insert hr]
  ring

lemma totalsOver_insert_nModFees :
    (s.totalsOver C).nModFees+(s.entry r).modifiedFee=(s.totalsOver (insert r C)).nModFees := by
  simp only [totalsOver,sum_insert hr]
  ring

lemma totalsOver_insert_nCount : (s.totalsOver C).nCount+1=(s.totalsOver (insert r C)).nCount := by
  simp only [totalsOver,card_insert_of_notMem hr]
  push_cast
  ring
end

lemma mem_parentsInPool : p∈s.parentsInPool e ↔ p∈s.mapTx ∧ ∃ o∈e.prevouts, o.hash=p := by
  simp [parentsInPool]

lemma addParents {it : Uint256} (hi : it∈s.mapTx) (S : Finset Uint256) (hu : s.UsageCorrect) :
    Ensures alw (fun t => t={s with
        entry := update s.entry it {s.entry it with parents := (s.entry it).parents ∪ S}
        cachedInnerUsage := t.cachedInnerUsage} ∧ t.UsageCorrect)
      (forEach S (fun pi s => pure (s.updateParent it pi true)) s) := by
  refine Ensures.forEach (fun d (t : TxMemPool) => t={s with
    entry := update s.entry it {s.entry it with parents := (s.entry it).parents ∪ d}
    cachedInnerUsage := t.cachedInnerUsage} ∧ t.UsageCorrect) ?_ ?_
  · simp [hu]
  · rintro d x t - - - ⟨hsa,hc⟩
    have hm : t.mapTx=s.mapTx := by rw [hsa]
    refine Ensures.pure_ok.mpr ⟨?_,hc.updateParent (hm ▸ hi) x true⟩
    have hl : (changeLinks ((s.entry it).parents ∪ d) x true).1=
        (s.entry it).parents ∪ insert x d := by
      rw [union_insert,changeLinks]
      by_cases hx : x∈(s.entry it).parents ∪ d
      · simp [hx]
      · simp [hx]
    rw [hsa]
    simp [updateParent,hl]

section
lemma insertEntry_old (hh : h≠e.hash) : (s.insertEntry e).entry h=s.entry h :=
  update_of_ne hh ..

lemma insertEntry_new : (s.insertEntry e).entry e.hash=s.withDelta e := update_self ..

variable (hac : s.Accepted e A)
include hac

lemma Accepted.withDelta_eq (hfs : s.FeesFitWith e) : s.withDelta e={e with
    modifiedFee := s.feeWithDelta e
    withDescendants := ⟨1,e.nTxSize,s.feeWithDelta e⟩
    withAncestors := ⟨1,e.nTxSize,s.feeWithDelta e⟩} := by
  have hfi := hfs {e.hash} (by simp)
  rw [sum_singleton,update_self] at hfi
  have had : saturatingAdd e.nFee ((s.mapDeltas e.hash).getD 0)=s.feeWithDelta e := by
    apply saturatingAdd_eq
    · exact le_trans (by decide) hfi.1
    · exact hfi.2
  have hfr := hac.fresh
  unfold withDelta
  simp only
  split
  case isTrue hz =>
    have hfe : s.feeWithDelta e=e.nFee := by simp [feeWithDelta,hz]
    have hsa {fee} {desc anc} (hf : fee=e.modifiedFee)
        (hd : desc=e.withDescendants) (ha : anc=e.withAncestors) :
        e={e with modifiedFee := fee, withDescendants := desc, withAncestors := anc} := by
      subst hf hd ha
      rfl
    apply hsa
    · rw [hfe,hfr.modifiedFee]
    · rw [hfe,hfr.withDescendants]
    · rw [hfe,hfr.withAncestors]
  case isFalse hde =>
    simp only [updateModifiedFee,hfr.modifiedFee,hfr.withDescendants,hfr.withAncestors,had]

lemma Accepted.ne_hash (hh : h∈s.mapTx) : h≠e.hash :=
  fun he => hac.new (he ▸ hh)

lemma Accepted.parentsInPool_insertEntry : (s.insertEntry e).parentsInPool e=s.parentsInPool e := by
  ext p
  rw [mem_parentsInPool,mem_parentsInPool]
  refine and_congr_left fun ⟨o,ho,hop⟩ => ?_
  have hn : p≠e.hash := hop ▸ hac.notOwnParent o ho
  simp [insertEntry,hn]

lemma Accepted.ancestors_subset : A⊆s.mapTx := by
  intro a ha
  obtain ⟨p,_,ha⟩ := (hac.ancestors a).mp ha
  exact TxMemPool.ancestors_subset p ha

lemma Accepted.totalsOver_old {C : Finset Uint256} (hC : C⊆s.mapTx) :
    (s.insertEntry e).totalsOver C=s.totalsOver C :=
  totalsOver_congr (fun h hh => by rw [insertEntry_old (hac.ne_hash (hC hh))])
    fun h hh => by rw [insertEntry_old (hac.ne_hash (hC hh))]

lemma Accepted.feesFit_insertEntry (hfs : s.FeesFitWith e) : (s.insertEntry e).FeesFit := by
  have hf : (fun h => ((s.insertEntry e).entry h).modifiedFee)=
      update (fun h => (s.entry h).modifiedFee) e.hash (s.feeWithDelta e) := by
    funext h
    by_cases hh : h=e.hash
    · rw [hh,insertEntry_new,hac.withDelta_eq hfs,update_self]
    · rw [insertEntry_old hh,update_of_ne hh]
  unfold FeesFit
  rw [hf]
  exact hfs

lemma Accepted.usage_insertEntry (hs : s.UsageCorrect) (hf : s.FeesFitWith e) :
    (s.insertEntry e).UsageCorrect := by
  have ho : ∑ h∈s.mapTx, usage ((s.insertEntry e).entry h)=∑ h∈s.mapTx, usage (s.entry h) :=
    sum_congr rfl fun h hh => by rw [insertEntry_old (hac.ne_hash hh)]
  have hn : usage ((s.insertEntry e).entry e.hash)=e.nUsageSize := by
    rw [insertEntry_new,hac.withDelta_eq hf]
    simp [usage,hac.fresh.parents,hac.fresh.children]
  have hm : (s.insertEntry e).mapTx=insert e.hash s.mapTx := rfl
  unfold UsageCorrect at hs ⊢
  rw [hm,sum_insert hac.new,ho,hn,← hs]
  simp only [insertEntry]
  ring
end

/-- The pool with a new entry and the set of its ancestors. -/
structure Added (s : TxMemPool) (e : TxMemPoolEntry) (A : Finset Uint256)
    (t : TxMemPool) : Prop where
  books : t.BooksCorrect
  mapTx : t.mapTx=insert e.hash s.mapTx
  mapDeltas : t.mapDeltas=s.mapDeltas
  old : ∀ h∈s.mapTx, t.entry h={s.entry h with
    children := if h∈s.parentsInPool e then insert e.hash (s.entry h).children
      else (s.entry h).children
    withDescendants := if h∈A then (s.insertEntry e).totalsOver (insert e.hash (s.descendants h))
      else (s.entry h).withDescendants}
  new : Moved {e with
    modifiedFee := s.feeWithDelta e
    withDescendants := (s.insertEntry e).totalsOver {e.hash}
    withAncestors := (s.insertEntry e).totalsOver (insert e.hash A)
    nSigOpCostWithAncestors := (s.insertEntry e).sigOpsOver (insert e.hash A)
    parents := s.parentsInPool e} (t.entry e.hash)

section
variable (hs : s.PoolInvariant) (hac : s.Accepted e A) (hfe : s.FeesFitWith e)
include hs hac hfe

def Linked (s : TxMemPool) (e : TxMemPoolEntry) (A : Finset Uint256) (t : TxMemPool) : Prop :=
  t={s.insertEntry e with entry := t.entry, cachedInnerUsage := t.cachedInnerUsage} ∧
      t.UsageCorrect ∧
  t.entry e.hash={s.withDelta e with parents := s.parentsInPool e} ∧
  ∀ h∈s.mapTx, t.entry h={s.entry h with
    children := if h∈s.parentsInPool e then insert e.hash (s.entry h).children
      else (s.entry h).children
    withDescendants := if h∈A then (s.insertEntry e).totalsOver (insert e.hash (s.descendants h))
      else (s.entry h).withDescendants}

lemma Accepted.updateAncestorsOf {u : TxMemPool} (huu : u.UsageCorrect)
    (hu : u={s.insertEntry e with
      entry := update (s.insertEntry e).entry e.hash
        {s.withDelta e with parents := s.parentsInPool e}
      cachedInnerUsage := u.cachedInnerUsage}) :
    Ensures alw (s.Linked e A) (u.updateAncestorsOf true e.hash A) := by
  have hm : u.mapTx=insert e.hash s.mapTx := by rw [hu]; rfl
  have hne : u.entry e.hash={s.withDelta e with parents := s.parentsInPool e} := by
    rw [hu]
    exact update_self ..
  have ho : ∀ h∈s.mapTx, u.entry h=s.entry h := by
    intro h hh
    rw [hu]
    simp only [update_of_ne (hac.ne_hash hh),insertEntry_old (hac.ne_hash hh)]
  have hpa : (u.entry e.hash).parents=s.parentsInPool e := by rw [hne]
  have hsu : s.parentsInPool e⊆u.mapTx := fun p hp => by
    rw [hm]
    exact mem_insert_of_mem (mem_parentsInPool.mp hp).1
  have hse : e.hash∉s.parentsInPool e := fun hi => hac.new (mem_parentsInPool.mp hi).1
  unfold TxMemPool.updateAncestorsOf
  rw [hpa]
  refine .bind (updateChildEach hsu e.hash true huu) ?_
  rintro v ⟨hv,hvu⟩
  have hvn : v.entry e.hash={s.withDelta e with parents := s.parentsInPool e} := by
    rw [hv]
    simp only [if_neg hse,hne]
  have hvo : ∀ h∈s.mapTx, v.entry h={s.entry h with
      children := if h∈s.parentsInPool e then insert e.hash (s.entry h).children
        else (s.entry h).children} := by
    intro h hh
    have hn : e.hash∉(s.entry h).children := fun hi => hac.new ((hs.children h hh e.hash).mp hi).1
    rw [hv]
    simp only [ho h hh,changeLinks,if_neg hn,if_true]
    split <;> rfl
  have hmo : ∀ a∈A, Ensures alw (·={v.entry a with
        withDescendants := (s.insertEntry e).totalsOver (insert e.hash (s.descendants a))})
      ((v.entry a).updateDescendantState (1*((s.insertEntry e).entry e.hash).nTxSize)
        (1*((s.insertEntry e).entry e.hash).modifiedFee) 1) := by
    intro a ha
    have hap := hac.ancestors_subset ha
    have hn : e.hash∉s.descendants a := fun hi => hac.new (descendants_subset a hi)
    have hb : (v.entry a).withDescendants=(s.insertEntry e).totalsOver (s.descendants a) := by
      rw [hvo a hap,hac.totalsOver_old (descendants_subset a)]
      exact hs.descendants a hap
    have hi : a∈insert e.hash (s.descendants a) :=
        mem_insert_of_mem (mem_descendants.mpr ⟨hap,.refl⟩)
    have hf := hac.feesFit_insertEntry hfe (insert e.hash (s.descendants a))
      (insert_subset_insert _ (descendants_subset a))
    rw [one_mul,one_mul,updateDescendantState_eq
      (hb ▸ totalsOver_insert_nSize hn) (hb ▸ totalsOver_insert_nModFees hn)
      (hb ▸ totalsOver_insert_nCount hn) (totalsOver_nSize_pos hi) (totalsOver_nCount_pos hi) hf]
    rfl
  have ham : (v.entry e.hash).nTxSize=((s.insertEntry e).entry e.hash).nTxSize ∧
      (v.entry e.hash).modifiedFee=((s.insertEntry e).entry e.hash).modifiedFee := by
    rw [hvn,insertEntry_new]
    exact ⟨rfl,rfl⟩
  rw [ham.1,ham.2]
  refine .mono (modifyEach hmo) ?_
  rintro _ rfl
  have hno : e.hash∉A := fun hi => hac.new (hac.ancestors_subset hi)
  refine ⟨?_,?_,?_,fun h hh => ?_⟩
  · rw [hv,hu]
  · refine hvu.congr rfl rfl fun h hh => ?_
    dsimp only
    split <;> rfl
  · simp only [if_neg hno,hvn]
  · dsimp only
    rw [hvo h hh]
    split <;> rfl

omit hs in
lemma Accepted.updateEntryForAncestors {v : TxMemPool} (hv : s.Linked e A v) :
    Ensures (SigOpsOverflow ((s.insertEntry e).sigOpsOver (insert e.hash s.mapTx)))
      (·={v with entry := update v.entry e.hash {v.entry e.hash with
        withAncestors := (s.insertEntry e).totalsOver (insert e.hash A)
        nSigOpCostWithAncestors := (s.insertEntry e).sigOpsOver (insert e.hash A)}})
      (v.updateEntryForAncestors e.hash A) := by
  obtain ⟨-,-,hvn,hvo⟩ := hv
  have hn : e.hash∉A := fun hi => hac.new (hac.ancestors_subset hi)
  have hsu : insert e.hash A⊆insert e.hash s.mapTx := insert_subset_insert _ hac.ancestors_subset
  have hd : ∀ a∈A, v.entry a={(s.insertEntry e).entry a with
      children := (v.entry a).children, withDescendants := (v.entry a).withDescendants} := by
    intro a ha
    have hap := hac.ancestors_subset ha
    rw [hvo a hap,insertEntry_old (hac.ne_hash hap)]
  have hse : (v.entry e.hash).withAncestors=⟨1,e.nTxSize,s.feeWithDelta e⟩ ∧
      (v.entry e.hash).nSigOpCostWithAncestors=e.sigOpCost := by
    rw [hvn,hac.withDelta_eq hfe]
    exact ⟨rfl,hac.fresh.sigOps⟩
  have hne : ((s.insertEntry e).entry e.hash).nTxSize=e.nTxSize ∧
      ((s.insertEntry e).entry e.hash).modifiedFee=s.feeWithDelta e ∧
      ((s.insertEntry e).entry e.hash).sigOpCost=e.sigOpCost := by
    rw [insertEntry_new,hac.withDelta_eq hfe]
    exact ⟨rfl,rfl,rfl⟩
  have hsi : ∑ a∈A, ((v.entry a).nTxSize : Int)=
      ∑ a∈A, (((s.insertEntry e).entry a).nTxSize : Int) :=
    sum_congr rfl fun a ha => by rw [hd a ha]
  have hf : ∑ a∈A, (v.entry a).modifiedFee= ∑ a∈A, ((s.insertEntry e).entry a).modifiedFee :=
    sum_congr rfl fun a ha => by rw [hd a ha]
  have hc : ∑ a∈A, ((v.entry a).sigOpCost : Int)=
      ∑ a∈A, (((s.insertEntry e).entry a).sigOpCost : Int) :=
    sum_congr rfl fun a ha => by rw [hd a ha]
  unfold TxMemPool.updateEntryForAncestors
  rw [hsi,hf,hc]
  apply modify_ensures
  refine updateAncestorState_ensures ?_ ?_ ?_ ?_
    (totalsOver_nSize_pos (mem_insert_self ..)) (totalsOver_nCount_pos (mem_insert_self ..))
    (hac.feesFit_insertEntry hfe _ hsu) (sigOpsOver_nonneg _) (sigOpsOver_mono hsu)
  · simp only [hse.1,totalsOver,sum_insert hn,hne.1]
  · simp only [hse.1,totalsOver,sum_insert hn,hne.2.1]
  · simp only [hse.1,totalsOver,card_insert_of_notMem hn]
    push_cast
    ring
  · simp only [hse.2,sigOpsOver,sum_insert hn,hne.2.2]

lemma Accepted.recordEntry {v w : TxMemPool} (hv : s.Linked e A v)
    (hw : w={v with entry := update v.entry e.hash {v.entry e.hash with
      withAncestors := (s.insertEntry e).totalsOver (insert e.hash A)
      nSigOpCostWithAncestors := (s.insertEntry e).sigOpsOver (insert e.hash A)}}) :
    s.Added e A (w.recordEntry e) := by
  obtain ⟨hvs,hvu,hvn,hvo⟩ := hv
  generalize ht : w.recordEntry e=t
  have hn : t.entry e.hash={e with
      modifiedFee := s.feeWithDelta e
      withDescendants := (s.insertEntry e).totalsOver {e.hash}
      withAncestors := (s.insertEntry e).totalsOver (insert e.hash A)
      nSigOpCostWithAncestors := (s.insertEntry e).sigOpsOver (insert e.hash A)
      parents := s.parentsInPool e
      vTxHashesIdx := s.vTxHashes.length} := by
    have hl : v.vTxHashes.length=s.vTxHashes.length := by rw [hvs]; rfl
    have hsn : (s.insertEntry e).totalsOver {e.hash}=⟨1,e.nTxSize,s.feeWithDelta e⟩ := by
      simp only [totalsOver,sum_singleton,card_singleton,insertEntry_new,hac.withDelta_eq hfe]
      rfl
    rw [← ht,hw]
    simp only [TxMemPool.recordEntry,update_self,hvn,hac.withDelta_eq hfe,hl,hsn]
  have hol : ∀ h∈s.mapTx, t.entry h=v.entry h := by
    intro h hh
    rw [← ht,hw]
    simp only [TxMemPool.recordEntry,update_of_ne (hac.ne_hash hh)]
  have hm : t.mapTx=insert e.hash s.mapTx := by
    rw [← ht,hw,hvs]
    rfl
  have hre : ∀ h∈s.mapTx, SameRecord (s.entry h) (t.entry h) := by
    intro h hh
    rw [hol h hh,hvo h hh]
    exact ⟨rfl,rfl,rfl,rfl,rfl⟩
  have hha : t.vTxHashes=s.vTxHashes++[(e.witnessHash,e.hash)] := by
    rw [← ht,hw,hvs]
    rfl
  refine ⟨⟨fun h hh => ?_,fun o h => ?_,?_,fun p hp => ?_,?_,?_,?_⟩,hm,?_,fun h hh => ?_,?_⟩
  · rw [hm] at hh
    cases mem_insert.mp hh with
    | inl he =>
      rw [he,hn]
      rfl
    | inr hh =>
      rw [TxMemPoolEntry.hash,(hre h hh).tx]
      exact hs.hash_eq h hh
  · have hne : t.mapNextTx o=if o∈e.prevouts then some e.hash else s.mapNextTx o := by
      rw [← ht,hw,hvs]
      simp only [TxMemPool.recordEntry,insertEntry]
      split
      case isTrue ho => rw [hac.noConflict o ho,Option.getD_none]
      case isFalse => rfl
    have hme : h∈t.mapTx ∧ o∈(t.entry h).prevouts ↔
        h=e.hash ∧ o∈e.prevouts ∨ s.mapNextTx o=some h := by
      rw [hm,mem_insert,hs.spent o h]
      by_cases he : h=e.hash
      · simp only [he,hn,true_or,true_and]
        simp [prevouts,hac.new]
      · simp only [he,false_or,false_and]
        refine and_congr_right fun hh => ?_
        rw [prevouts,prevouts,(hre h hh).tx]
    rw [hne,hme]
    split
    case isTrue ho =>
      rw [hac.noConflict o ho]
      simp [ho,eq_comm]
    case isFalse ho => simp [ho]
  · have hid := (hs.indexed.append hac.new)
    rw [hm,hha,List.map_append]
    refine hid.congr fun h hh => ?_
    by_cases he : h=e.hash
    · rw [he,hn,update_self,List.length_map]
    · have hh := (mem_insert.mp hh).resolve_left he
      rw [update_of_ne he]
      exact (hre h hh).vTxHashesIdx
  · rw [hha] at hp
    cases List.mem_append.mp hp with
    | inl hp =>
      obtain ⟨i,hi⟩ := List.mem_iff_getElem?.mp hp
      have hin := (hs.indexed.idx_of i p.2 (by simp [hi])).1
      rw [(hre p.2 hin).witnessHash]
      exact hs.witness p hp
    | inr hp =>
      rw [List.mem_singleton.mp hp,hn]
  · have hsi : t.totalTxSize=s.totalTxSize+e.nTxSize := by
      rw [← ht,hw,hvs]
      rfl
    have hsu : ∑ h∈s.mapTx, ((t.entry h).nTxSize : Int)=∑ h∈s.mapTx, ((s.entry h).nTxSize : Int) :=
      sum_congr rfl fun h hh => by rw [(hre h hh).nTxSize]
    rw [hsi,hs.size,hm,sum_insert hac.new,hsu,hn]
    ring
  · have hf : t.totalFee=s.totalFee+e.nFee := by
      rw [← ht,hw,hvs]
      rfl
    have hsu : ∑ h∈s.mapTx, (t.entry h).nFee=∑ h∈s.mapTx, (s.entry h).nFee :=
      sum_congr rfl fun h hh => (hre h hh).nFee
    rw [hf,hs.fee,hm,sum_insert hac.new,hsu,hn]
    ring
  · have hvm : v.mapTx=insert e.hash s.mapTx := by
      rw [hvs]
      rfl
    refine hvu.congr (hm.trans hvm.symm) ?_ fun h hh => ?_
    · rw [← ht,hw]
      rfl
    · rw [hvm] at hh
      cases mem_insert.mp hh with
      | inl he =>
        rw [he,hn,hvn,hac.withDelta_eq hfe]
        rfl
      | inr hh => rw [hol h hh]
  · rw [← ht,hw,hvs]
    rfl
  · rw [hol h hh,hvo h hh]
  · rw [Moved,hn]

lemma Accepted.addUnchecked :
    Ensures (SigOpsOverflow ((s.insertEntry e).sigOpsOver (insert e.hash s.mapTx))) (s.Added e A)
      (s.addUnchecked e A) := by
  have hi : e.hash∈(s.insertEntry e).mapTx := mem_insert_self ..
  unfold TxMemPool.addUnchecked
  simp only [hac.parentsInPool_insertEntry]
  refine .bind (addParents hi (s.parentsInPool e) (hac.usage_insertEntry hs.usage hfe)) ?_
  rintro u ⟨hu,huu⟩
  have he : ((s.insertEntry e).entry e.hash).parents ∪ s.parentsInPool e=s.parentsInPool e := by
    rw [insertEntry_new,hac.withDelta_eq hfe]
    simp [hac.fresh.parents]
  rw [he,insertEntry_new] at hu
  refine .bind (hac.updateAncestorsOf hs hfe huu hu) fun v hv => ?_
  refine .bind (hac.updateEntryForAncestors hfe hv) fun w hw => ?_
  exact hac.recordEntry hs hfe hv hw
end
section
variable (hs : s.PoolInvariant) (hac : s.Accepted e A) (had : s.Added e A t)
include hac had

lemma Added.spends_iff : t.Spends c p ↔ s.Spends c p ∨ (c=e.hash ∧ p∈s.parentsInPool e) := by
  have hn : (t.entry e.hash).prevouts=e.prevouts := by
    rw [had.new]
    rfl
  have hol {h} (hh : h∈s.mapTx) : (t.entry h).prevouts=(s.entry h).prevouts := by
    rw [had.old h hh]
    rfl
  simp only [Spends,had.mapTx,mem_insert,mem_parentsInPool]
  constructor
  · rintro ⟨rfl | hc,hp,o,ho,hop⟩
    · rw [hn] at ho
      have hne : p≠e.hash := hop ▸ hac.notOwnParent o ho
      exact .inr ⟨rfl,hp.resolve_left hne,o,ho,hop⟩
    · rw [hol hc] at ho
      have hne : p≠e.hash := hop ▸ hac.noChild c hc o ho
      exact .inl ⟨hc,hp.resolve_left hne,o,ho,hop⟩
  · rintro (⟨hc,hp,o,ho,hop⟩ | ⟨rfl,hp,o,ho,hop⟩)
    · exact ⟨.inr hc,.inr hp,o,(hol hc).symm ▸ ho,hop⟩
    · exact ⟨.inl rfl,.inr hp,o,hn.symm ▸ ho,hop⟩

lemma Added.not_spends_new : ¬t.Spends c e.hash := by
  rw [had.spends_iff hac]
  rintro (hsp | ⟨_,hi⟩)
  · exact hac.new hsp.2.1
  · exact hac.new (mem_parentsInPool.mp hi).1

lemma Added.reaches_old (hc : c∈s.mapTx) : ReflTransGen t.Spends c p ↔
    ReflTransGen s.Spends c p := by
  refine ⟨fun h => ?_,ReflTransGen.mono (fun _ _ h => (had.spends_iff hac).mpr (.inl h)) _ _⟩
  induction h using ReflTransGen.head_induction_on with
  | refl => exact .refl
  | head hcd _ ih =>
    cases (had.spends_iff hac).mp hcd with
    | inl hsp => exact .head hsp (ih hsp.2.1)
    | inr hn => exact absurd hn.1 (hac.ne_hash hc)

lemma Added.reaches_from_new : ReflTransGen t.Spends e.hash p ↔ p=e.hash ∨ p∈A := by
  rw [hac.ancestors]
  constructor
  · intro h
    cases h.cases_head with
    | inl he => exact .inl he.symm
    | inr hso =>
      obtain ⟨q,hq,hqp⟩ := hso
      have hp : q∈s.parentsInPool e := by
        cases (had.spends_iff hac).mp hq with
        | inl hsp => exact absurd hsp.1 hac.new
        | inr hn => exact hn.2
      have hqo := (mem_parentsInPool.mp hp).1
      have hrc := (had.reaches_old hac hqo).mp hqp
      exact .inr ⟨q,hp,mem_ancestors.mpr ⟨Spends.right_mem hrc hqo,hrc⟩⟩
  · rintro (rfl | ⟨q,hq,hqp⟩)
    · exact .refl
    · have hrc := (had.reaches_old hac (mem_parentsInPool.mp hq).1).mpr (mem_ancestors.mp hqp).2
      exact .head ((had.spends_iff hac).mpr (.inr ⟨rfl,hq⟩)) hrc

lemma Added.ancestors_old (hh : h∈s.mapTx) : t.ancestors h=s.ancestors h := by
  ext a
  rw [mem_ancestors,mem_ancestors,had.reaches_old hac hh,had.mapTx]
  refine ⟨fun hi => ⟨Spends.right_mem hi.2 hh,hi.2⟩,fun hi => ⟨?_,hi.2⟩⟩
  exact mem_insert_of_mem hi.1

lemma Added.ancestors_new : t.ancestors e.hash=insert e.hash A := by
  ext a
  rw [mem_ancestors,had.reaches_from_new hac,had.mapTx,mem_insert,mem_insert]
  refine ⟨And.right,fun ho => ⟨?_,ho⟩⟩
  exact ho.imp_right fun ha => hac.ancestors_subset ha

lemma Added.descendants_old (hh : h∈s.mapTx) :
    t.descendants h=if h∈A then insert e.hash (s.descendants h) else s.descendants h := by
  have hm d : d∈t.descendants h ↔ (d=e.hash ∧ h∈A) ∨ d∈s.descendants h := by
    rw [mem_descendants,mem_descendants,had.mapTx,mem_insert]
    by_cases hd : d=e.hash
    · subst hd
      rw [had.reaches_from_new hac]
      have hn := hac.ne_hash hh
      simp [hn,hac.new]
    · simp only [hd,false_or,false_and]
      exact and_congr_right fun hdp => had.reaches_old hac hdp
  ext d
  rw [hm]
  split
  case isTrue hi => simp [hi]
  case isFalse hi => simp [hi]

lemma Added.descendants_new : t.descendants e.hash={e.hash} := by
  ext d
  rw [mem_descendants,mem_singleton,had.mapTx]
  constructor
  · rintro ⟨-,hrc⟩
    cases hrc.cases_tail with
    | inl he => exact he.symm
    | inr hso =>
      obtain ⟨c,_,hsp⟩ := hso
      exact absurd hsp (had.not_spends_new hac)
  · rintro rfl
    exact ⟨mem_insert_self ..,.refl⟩

include hs in
lemma Added.poolInvariant (hf : s.FeesFitWith e) : t.PoolInvariant := by
  have hd : ∀ h∈t.mapTx, (t.entry h).nTxSize=((s.insertEntry e).entry h).nTxSize ∧
      (t.entry h).modifiedFee=((s.insertEntry e).entry h).modifiedFee ∧
      (t.entry h).sigOpCost=((s.insertEntry e).entry h).sigOpCost := by
    intro h hh
    rw [had.mapTx] at hh
    cases mem_insert.mp hh with
    | inl he =>
      rw [he,had.new,insertEntry_new,hac.withDelta_eq hf]
      exact ⟨rfl,rfl,rfl⟩
    | inr hh =>
      rw [had.old h hh,insertEntry_old (hac.ne_hash hh)]
      exact ⟨rfl,rfl,rfl⟩
  have ht {C : Finset Uint256} (hC : C⊆t.mapTx) : t.totalsOver C=(s.insertEntry e).totalsOver C :=
    totalsOver_congr (fun h hh => (hd h (hC hh)).1) fun h hh => (hd h (hC hh)).2.1
  have hsi {C : Finset Uint256} (hC : C⊆t.mapTx) : t.sigOpsOver C=(s.insertEntry e).sigOpsOver C :=
    sigOpsOver_congr fun h hh => (hd h (hC hh)).2.2
  -- Each part is shown for the new entry and for the old ones.
  have hcs {P : Uint256 → Prop} (hn : P e.hash) (ho : ∀ h∈s.mapTx, P h) : ∀ h∈t.mapTx, P h := by
    intro h hh
    rw [had.mapTx] at hh
    cases mem_insert.mp hh with
    | inl he => exact he ▸ hn
    | inr hh => exact ho h hh
  refine ⟨⟨had.books,?_,?_,?_,?_⟩,?_,?_,?_⟩
  · refine hcs (fun p => ?_) fun h hh p => ?_
    · rw [had.spends_iff hac,had.new]
      simp only [true_and]
      exact ⟨.inr,fun hor => hor.resolve_left fun hsp => hac.new hsp.1⟩
    · rw [had.spends_iff hac,had.old h hh]
      simp only [hac.ne_hash hh,false_and,or_false]
      exact hs.parents h hh p
  · refine hcs (fun c => ?_) fun h hh c => ?_
    · rw [had.new]
      simp only [hac.fresh.children,notMem_empty,false_iff]
      exact had.not_spends_new hac
    · rw [had.spends_iff hac,had.old h hh,← hs.children h hh c]
      dsimp only
      split
      case isTrue hi => simp [hi,or_comm]
      case isFalse hi => simp [hi]
  · refine hcs ?_ fun h hh => ?_
    · rw [ht (ancestors_subset _),hsi (ancestors_subset _),had.ancestors_new hac,had.new]
      exact ⟨rfl,rfl⟩
    · have hsg : (s.insertEntry e).sigOpsOver (s.ancestors h)=s.sigOpsOver (s.ancestors h) :=
        sigOpsOver_congr fun x hx => by
          rw [insertEntry_old (hac.ne_hash (ancestors_subset h hx))]
      rw [ht (ancestors_subset _),hsi (ancestors_subset _),had.ancestors_old hac hh,
        hac.totalsOver_old (ancestors_subset h),hsg,had.old h hh]
      exact hs.ancestors h hh
  · refine hcs ?_ fun h hh => ?_
    · rw [ht (descendants_subset _),had.descendants_new hac,had.new]
    · rw [ht (descendants_subset _),had.descendants_old hac hh,had.old h hh]
      dsimp only
      split
      case isTrue => rfl
      case isFalse =>
        rw [hac.totalsOver_old (descendants_subset h)]
        exact hs.descendants h hh
  · intro h hc
    obtain ⟨c,hhc,hch⟩ := TransGen.head'_iff.mp hc
    have hne : h≠e.hash := by
      rintro rfl
      obtain ⟨d,_,hsp⟩ := TransGen.tail'_iff.mp hc
      exact had.not_spends_new hac hsp
    cases (had.spends_iff hac).mp hhc with
    | inl hsp =>
      exact hs.acyclic h (.head' hsp ((had.reaches_old hac hsp.2.1).mp hch))
    | inr hn => exact hne hn.1
  · intro C hC
    have hsu : ∑ h∈C, (t.entry h).modifiedFee=∑ h∈C, ((s.insertEntry e).entry h).modifiedFee :=
      sum_congr rfl fun h hh => (hd h (hC hh)).2.1
    rw [hsu]
    exact hac.feesFit_insertEntry hf C (hC.trans (subset_of_eq had.mapTx))
  · refine hcs ?_ fun h hh => ?_
    · rw [had.new]
      exact hac.sigops
    · rw [had.old h hh]
      exact hs.sigops h hh
end
end TxMemPool
end Xero
