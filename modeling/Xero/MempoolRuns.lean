import Xero.MempoolOps
import Xero.MempoolAddition
import Xero.MempoolPriority

/-! The memory pool over whole runs: every sequence of its operations leaves it consistent. -/
namespace Xero
open Library Relation Finset

inductive MempoolOp where
  | addUnchecked (e : TxMemPoolEntry) (setAncestors : Finset Uint256)
  | removeRecursive (tx : Transaction)
  | removeForBlock (vtx : List Transaction)
  | removeConflicts (tx : Transaction)
  | expire (time : Int)
  | trimToSize (index : TxMemPool.DescendantScoreIndex) (dynamicMemoryUsage : TxMemPool → Nat)
    (sizelimit : Nat)
  | prioritiseTransaction (hash : Uint256) (nFeeDelta : Int)

namespace MempoolOp
variable {s t : TxMemPool} {op : MempoolOp}

def run (s : TxMemPool) : MempoolOp → MempoolResult TxMemPool
  | addUnchecked e setAncestors => s.addUnchecked e setAncestors
  | removeRecursive tx => s.removeRecursive tx
  | removeForBlock vtx => s.removeForBlock vtx
  | removeConflicts tx => s.removeConflicts tx
  | expire time => (s.expire time).map Prod.snd
  | trimToSize index dynamicMemoryUsage sizelimit =>
    (s.trimToSize index dynamicMemoryUsage sizelimit).map Prod.snd
  | prioritiseTransaction hash nFeeDelta => s.prioritiseTransaction hash nFeeDelta

/-- What the callers guarantee: entries are accepted, blocks are valid, fee sums fit an int64_t. -/
def Admissible (s : TxMemPool) : MempoolOp → Prop
  | addUnchecked e setAncestors => s.Accepted e setAncestors ∧ s.FeesFitWith e
  | removeForBlock vtx => s.ValidBlock vtx
  | prioritiseTransaction hash nFeeDelta => hash∈s.mapTx → s.FeesFitRaised hash nFeeDelta
  | _ => True

/- The cost of the signature operations of all entries that the operation deals with. -/
def sigOps (s : TxMemPool) : MempoolOp → Int
  | addUnchecked e _ => (s.insertEntry e).sigOpsOver (insert e.hash s.mapTx)
  | _ => s.sigOpsOver s.mapTx

lemma run_ensures (hs : s.PoolInvariant) (ha : op.Admissible s) :
    Ensures (SigOpsOverflow (op.sigOps s)) TxMemPool.PoolInvariant (op.run s) := by
  have hm {α : Type} {r : MempoolResult (α×TxMemPool)}
      (hr : Ensures (SigOpsOverflow (s.sigOpsOver s.mapTx)) (fun p => s.Shrunk p.2) r) :
      Ensures (SigOpsOverflow (s.sigOpsOver s.mapTx)) TxMemPool.PoolInvariant (r.map Prod.snd) := by
    cases r with
    | ok p => exact hr.poolInvariant
    | error e => exact hr
  cases op with
  | addUnchecked e se =>
    obtain ⟨hac,hf⟩ := ha
    exact (hac.addUnchecked hs hf).mono fun t ht => ht.poolInvariant hs hac hf
  | removeRecursive tx => exact (hs.removeRecursive tx).mono fun t ht => ht.poolInvariant
  | removeForBlock v => exact (hs.removeForBlock ha).mono fun t ht => ht.poolInvariant
  | removeConflicts tx => exact (hs.removeConflicts tx).mono fun t ht => ht.poolInvariant
  | expire ti => exact hm (hs.expire ti)
  | trimToSize i d si =>
    exact hm ((hs.trimToSize i d si).mono fun r hr => hr.1)
  | prioritiseTransaction hash n =>
    exact (hs.prioritiseTransaction ha).mono fun t ht => ht.1
end MempoolOp
namespace TxMemPool
inductive Reached : TxMemPool → Prop
  | empty : Reached .empty
  | step {s t : TxMemPool} (op : MempoolOp) (hs : Reached s) (hadmissible : op.Admissible s)
    (hrun : op.run s=.ok t) : Reached t

lemma poolInvariant_empty : empty.PoolInvariant := by
  refine ⟨⟨⟨by simp [empty],by simp [empty],
      ⟨by simp [empty],by simp [empty]⟩,by simp [empty],rfl,rfl,rfl⟩,
    by simp [ParentsCorrect,empty],by simp [ChildrenCorrect,empty],by simp [AncestorsCorrect,empty],
    by simp [DescendantsCorrect,empty]⟩,fun h hc => ?_,fun C hC => ?_,by simp [SigOpsChecked,empty]⟩
  · obtain ⟨c,hh,_⟩ := TransGen.head'_iff.mp hc
    exact absurd hh.1 (notMem_empty h)
  · rw [subset_empty.mp hC]
    simp [FeeFits,int64Max]

lemma Reached.poolInvariant {s : TxMemPool} (hs : Reached s) : s.PoolInvariant := by
  induction hs with
  | empty => exact poolInvariant_empty
  | step op _ ha hr ih => exact (MempoolOp.run_ensures ih ha).ok hr

/-- After every sequence of operations the pool is consistent: mapNextTx, links, package totals,
vTxHashes and the sums over all entries. Parents and children are inverse to each other. And the
next operation returns, unless the signature operations of the pool no longer fit an int. -/
theorem reached_consistent {s : TxMemPool} (hs : Reached s) : s.Consistent ∧
    (∀ h∈s.mapTx, ∀ p∈s.mapTx, p∈(s.entry h).parents ↔ h∈(s.entry p).children) ∧
    ∀ op : MempoolOp, op.Admissible s → op.sigOps s<2^31 → ∃ t, op.run s=.ok t := by
  have hi := hs.poolInvariant
  refine ⟨hi.toConsistent,fun h hh p hp => ?_,fun op ha hf => ?_⟩
  · rw [hi.parents h hh,hi.children p hp]
  · cases hr : op.run s with
    | ok t => exact ⟨t,rfl⟩
    | error e =>
      have ho := ((MempoolOp.run_ensures hi ha).error hr).2
      omega

section
def parentEntry : TxMemPoolEntry :=
  .make {vin := [⟨⟨0,0⟩,[],0,[]⟩], vout := [], hash := 1} 1 100 0 4 400 0 20 (by decide)
def childEntry : TxMemPoolEntry :=
  .make {vin := [⟨⟨1,0⟩,[],0,[]⟩], vout := [], hash := 2} 2 200 0 4 400 0 20 (by decide)

lemma accepted_parentEntry : empty.Accepted parentEntry ∅ := by
  refine ⟨TxMemPoolEntry.fresh_make ..,?_,?_,?_,fun _ _ => rfl,?_,?_,by decide⟩ <;>
    simp [empty,parentsInPool,parentEntry,TxMemPoolEntry.prevouts,TxMemPoolEntry.make,
        TxMemPoolEntry.hash]

/- Fees that are not negative fit when all of them together fit. -/
lemma feeSumsFit_of_nonneg {fee : Uint256 → Int} {S : Finset Uint256} (hp : ∀ x∈S, 0≤fee x)
    (hto : ∑ x∈S, fee x ≤ int64Max) : FeeSumsFit fee S := by
  intro C hC
  have hl : ∑ x∈C, fee x≤∑ x∈S, fee x := sum_le_sum_of_subset_of_nonneg hC fun x hx _ => hp x hx
  have hn : 0≤∑ x∈C, fee x := sum_nonneg fun x hx => hp x (hC hx)
  exact ⟨le_trans (by decide) hn,hl.trans hto⟩

lemma feesFit_parentEntry : empty.FeesFitWith parentEntry := by
  refine feeSumsFit_of_nonneg ?_ ?_
  · decide
  · decide

section
variable {t : TxMemPool} (ht : empty.Added parentEntry ∅ t)
include ht

lemma parentEntry_added : t.mapTx={1} ∧ (t.entry 1).prevouts=[⟨0,0⟩] ∧ (t.entry 1).witnessHash=1 ∧
    (t.entry 1).modifiedFee=100 ∧ (t.entry 1).sigOpCost=4 := by
  have hn := ht.new
  rw [show parentEntry.hash=1 from rfl] at hn
  refine ⟨ht.mapTx,?_⟩
  rw [hn]
  exact ⟨rfl,rfl,rfl,rfl⟩

lemma accepted_childEntry : t.Accepted childEntry {1} := by
  obtain ⟨hm,hp,hw,-,-⟩ := parentEntry_added ht
  have ha : t.ancestors 1={1} := ht.ancestors_new accepted_parentEntry
  have hpa : t.parentsInPool childEntry={1} := by
    simp [parentsInPool,hm,childEntry,TxMemPoolEntry.prevouts,TxMemPoolEntry.make]
  have hpr : childEntry.prevouts=[⟨1,0⟩] := rfl
  have hha : childEntry.hash=2 := rfl
  refine ⟨TxMemPoolEntry.fresh_make ..,by simp [hm,hha],?_,by simp [hpa,ha],?_,?_,
    by simp [hpr,hha],by decide⟩
  · intro h hh
    rw [hm,mem_singleton] at hh
    rw [hh,hw]
    decide
  · intro o ho
    rw [hpr,List.mem_singleton] at ho
    cases hs : t.mapNextTx o with
    | none => rfl
    | some h =>
      obtain ⟨hh,hi⟩ := (ht.books.spent o h).mp hs
      rw [hm,mem_singleton] at hh
      rw [hh,hp,List.mem_singleton,ho] at hi
      cases hi
  · intro c hc o ho
    rw [hm,mem_singleton] at hc
    rw [hc,hp,List.mem_singleton] at ho
    rw [ho]
    decide

lemma feesFit_childEntry : t.FeesFitWith childEntry := by
  obtain ⟨hm,-,-,hf,-⟩ := parentEntry_added ht
  have hc : t.feeWithDelta childEntry=200 := by
    rw [feeWithDelta,ht.mapDeltas]
    rfl
  unfold FeesFitWith
  rw [hm,hc,show childEntry.hash=2 from rfl]
  refine feeSumsFit_of_nonneg ?_ ?_
  · simp [hf]
  · simp [hf,int64Max]

lemma sigOps_childEntry : (MempoolOp.addUnchecked childEntry {1}).sigOps t<2^31 := by
  obtain ⟨hm,-,-,-,hc⟩ := parentEntry_added ht
  have hn := (accepted_childEntry ht).withDelta_eq (feesFit_childEntry ht)
  have ho : ((t.insertEntry childEntry).entry 1).sigOpCost=4 := by
    rw [insertEntry_old (by decide),hc]
  have htw : ((t.insertEntry childEntry).entry 2).sigOpCost=4 := by
    rw [show (2 : Uint256)=childEntry.hash from rfl,insertEntry_new,hn]
    rfl
  rw [MempoolOp.sigOps,hm,show childEntry.hash=2 from rfl,sigOpsOver,sum_insert (by decide),
    sum_singleton,ho,htw]
  decide
end

lemma exists_parent_and_child : ∃ t u, empty.Added parentEntry ∅ t ∧ t.Added childEntry {1} u ∧
    u.PoolInvariant := by
  have ha : (MempoolOp.addUnchecked parentEntry ∅).Admissible empty :=
    ⟨accepted_parentEntry,feesFit_parentEntry⟩
  obtain ⟨t,ht,hti⟩ := (MempoolOp.run_ensures poolInvariant_empty ha).exists_ok
    fun e he => absurd he.2 (by decide)
  have had := (accepted_parentEntry.addUnchecked poolInvariant_empty feesFit_parentEntry).ok ht
  have ha' : (MempoolOp.addUnchecked childEntry {1}).Admissible t :=
    ⟨accepted_childEntry had,feesFit_childEntry had⟩
  obtain ⟨u,hu,hui⟩ := (MempoolOp.run_ensures hti ha').exists_ok
    fun e he => absurd he.2 (not_le.2 (sigOps_childEntry had))
  exact ⟨t,u,had,((accepted_childEntry had).addUnchecked hti (feesFit_childEntry had)).ok hu,hui⟩

theorem reached_consistent_parent_and_child : ∃ s, Reached s ∧ s.mapTx={2,1} ∧ s.Consistent := by
  have ha : (MempoolOp.addUnchecked parentEntry ∅).Admissible empty :=
    ⟨accepted_parentEntry,feesFit_parentEntry⟩
  obtain ⟨t,ht⟩ := (reached_consistent .empty).2.2 _ ha (by decide)
  have had := (accepted_parentEntry.addUnchecked poolInvariant_empty feesFit_parentEntry).ok ht
  have htr := Reached.step _ .empty ha ht
  have ha' : (MempoolOp.addUnchecked childEntry {1}).Admissible t :=
    ⟨accepted_childEntry had,feesFit_childEntry had⟩
  obtain ⟨u,hu⟩ := (reached_consistent htr).2.2 _ ha' (sigOps_childEntry had)
  have hur := Reached.step _ htr ha' hu
  refine ⟨u,hur,?_,(reached_consistent hur).1⟩
  have had' := ((accepted_childEntry had).addUnchecked htr.poolInvariant
    (feesFit_childEntry had)).ok hu
  rw [had'.mapTx,had.mapTx]
  rfl
end
end TxMemPool
end Xero
