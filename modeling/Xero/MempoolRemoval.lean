import Xero.MempoolGraph
import Xero.Library.SwapRemove
import Mathlib.Tactic.Linarith
import Mathlib.Tactic.Ring
import Mathlib.Algebra.Order.BigOperators.Group.Finset

/-! Removal from the pool: the loops of UpdateForRemoveFromMempool bring the cached totals and links
of the other entries to what they are without the removed ones. -/
namespace Xero
open Library Relation Function Finset Prod TxMemPoolEntry Ensures

lemma saturatingAdd_eq {i j : Int} (hl : int64Min ≤ i+j) (hh : i+j ≤ int64Max) :
    saturatingAdd i j=i+j := by
  unfold saturatingAdd
  rw [if_neg (by omega),if_neg (by omega)]

lemma toInt32_eq {x : Int} (hl : -2^31≤x) (hh : x<2^31) : toInt32 x=x := by
  unfold toInt32
  rw [Int.bmod_eq_of_le] <;> omega

lemma toInt32_neg {x : Int} (hx : 0≤x) (h : toInt32 x<0) : 2^31≤x := by
  by_contra hl
  rw [toInt32_eq (by omega) (by omega)] at h
  omega

/-- A sum of fees that the code can hold, and whose negation it can hold. -/
def FeeFits (x : Int) : Prop := -int64Max≤x ∧ x ≤ int64Max

/-- Every sum over some of the fees is within int64_t. -/
def FeeSumsFit (fee : Uint256 → Int) (S : Finset Uint256) : Prop :=
  ∀ C, C⊆S → FeeFits (∑ h∈C, fee h)

/- The one assert that may fail: the entries together have so many signature operations that their
cost does not fit an int. -/
def SigOpsOverflow (total : Int) (e : MempoolAssert) : Prop :=
  e=.sigOpCostWithAncestors ∧ 2^31≤total

namespace TxMemPoolEntry
variable {e : TxMemPoolEntry} {modifySize modifyFee modifyCount modifySigOps : Int}
    {T : PackageTotals}

lemma updateDescendantState_eq (hsi : e.withDescendants.nSize+modifySize=T.nSize)
    (hfees : e.withDescendants.nModFees+modifyFee=T.nModFees)
    (hc : e.withDescendants.nCount+modifyCount=T.nCount)
    (hsz : 0<T.nSize) (hco : 0<T.nCount) (hf : FeeFits T.nModFees) :
    e.updateDescendantState modifySize modifyFee modifyCount=.ok {e with withDescendants := T} := by
  have ha : saturatingAdd e.withDescendants.nModFees modifyFee=T.nModFees := by
    rw [← hfees]
    apply saturatingAdd_eq
    · exact le_trans (by decide) (hfees ▸ hf.1)
    · exact hfees ▸ hf.2
  unfold updateDescendantState
  simp only [hsi,hc,ha,not_le.mpr hsz,not_le.mpr hco,decide_false]
  rfl

lemma updateAncestorState_ensures {nSigOps total : Int}
    (hsi : e.withAncestors.nSize+modifySize=T.nSize)
    (hfees : e.withAncestors.nModFees+modifyFee=T.nModFees)
    (hc : e.withAncestors.nCount+modifyCount=T.nCount)
    (hsigops : e.nSigOpCostWithAncestors+modifySigOps=nSigOps) (hsz : 0<T.nSize) (hco : 0<T.nCount)
    (hf : FeeFits T.nModFees) (hsg : 0≤nSigOps) (ht : nSigOps≤total) :
    Ensures (SigOpsOverflow total)
      (·={e with withAncestors := T, nSigOpCostWithAncestors := nSigOps})
      (e.updateAncestorState modifySize modifyFee modifyCount modifySigOps) := by
  have ha : saturatingAdd e.withAncestors.nModFees modifyFee=T.nModFees := by
    rw [← hfees]
    apply saturatingAdd_eq
    · exact le_trans (by decide) (hfees ▸ hf.1)
    · exact hfees ▸ hf.2
  unfold updateAncestorState
  simp only [hsi,hc,ha,hsigops,not_le.mpr hsz,not_le.mpr hco,decide_false]
  have hre : Ensures (SigOpsOverflow total) (fun _ => _)
      (rejectIf (decide (toInt32 nSigOps<0)) MempoolAssert.sigOpCostWithAncestors) :=
    .rejectIf fun hn =>
      ⟨rfl,(toInt32_neg hsg (of_decide_eq_true hn)).trans ht⟩
  refine .bind (.rejectIf (by simp)) fun _ _ => ?_
  refine .bind (.rejectIf (by simp)) fun _ _ => ?_
  exact .bind hre fun _ _ => rfl
end TxMemPoolEntry
namespace TxMemPool
variable {s t : TxMemPool} {alw : MempoolAssert → Prop}

def totalsOver (s : TxMemPool) (C : Finset Uint256) : PackageTotals :=
  ⟨C.card,∑ h∈C, ((s.entry h).nTxSize : Int),∑ h∈C, (s.entry h).modifiedFee⟩
def sigOpsOver (s : TxMemPool) (C : Finset Uint256) : Int := ∑ h∈C, ((s.entry h).sigOpCost : Int)
def AncestorsCorrect (s : TxMemPool) : Prop := ∀ h∈s.mapTx,
  (s.entry h).withAncestors=s.totalsOver (s.ancestors h) ∧
  (s.entry h).nSigOpCostWithAncestors=s.sigOpsOver (s.ancestors h)
def DescendantsCorrect (s : TxMemPool) : Prop := ∀ h∈s.mapTx,
  (s.entry h).withDescendants=s.totalsOver (s.descendants h)

def FeesFit (s : TxMemPool) : Prop := FeeSumsFit (fun h => (s.entry h).modifiedFee) s.mapTx

/- What acceptance has checked of every entry. -/
def SigOpsChecked (s : TxMemPool) : Prop :=
  ∀ h∈s.mapTx, (s.entry h).sigOpCost≤MAX_STANDARD_TX_SIGOPS_COST

variable {C : Finset Uint256}

lemma totalsOver_nSize_pos {h : Uint256} (hh : h∈C) : 0<(s.totalsOver C).nSize := by
  apply sum_pos
  · intro x _
    exact_mod_cast (s.entry x).nTxSize_pos
  · exact ⟨h,hh⟩

lemma totalsOver_nCount_pos {h : Uint256} (hh : h∈C) : 0<(s.totalsOver C).nCount := by
  have hc := card_pos.mpr ⟨h,hh⟩
  simpa [totalsOver] using hc

lemma sigOpsOver_nonneg (C : Finset Uint256) : 0 ≤ s.sigOpsOver C :=
  sum_nonneg fun _ _ => Int.natCast_nonneg _

lemma sigOpsOver_mono {D : Finset Uint256} (h : C⊆D) : s.sigOpsOver C ≤ s.sigOpsOver D :=
  sum_le_sum_of_subset_of_nonneg h fun _ _ _ => Int.natCast_nonneg _

section
variable {C : Finset Uint256} {r : Uint256} (hr : r∈C)
include hr

lemma totalsOver_erase_nSize :
    (s.totalsOver C).nSize+-((s.entry r).nTxSize : Int)=(s.totalsOver (C.erase r)).nSize := by
  have h := sum_erase_add C (fun h => ((s.entry h).nTxSize : Int)) hr
  simp only [totalsOver] at h ⊢
  omega

lemma totalsOver_erase_nModFees :
    (s.totalsOver C).nModFees+-(s.entry r).modifiedFee=(s.totalsOver (C.erase r)).nModFees := by
  have h := sum_erase_add C (fun h => (s.entry h).modifiedFee) hr
  simp only [totalsOver] at h ⊢
  omega

lemma totalsOver_erase_nCount : (s.totalsOver C).nCount+-1=(s.totalsOver (C.erase r)).nCount := by
  have h := card_erase_add_one hr
  simp only [totalsOver]
  omega

lemma sigOpsOver_erase : s.sigOpsOver C+-((s.entry r).sigOpCost : Int)=s.sigOpsOver
    (C.erase r) := by
  have h := sum_erase_add C (fun h => ((s.entry h).sigOpCost : Int)) hr
  simp only [sigOpsOver] at h ⊢
  omega
end

variable {it : Uint256}

lemma modify_ensures {f : TxMemPoolEntry → MempoolResult TxMemPoolEntry}
    {e : TxMemPoolEntry} (h : Ensures alw (·=e) (f (s.entry it))) :
    Ensures alw (·={s with entry := update s.entry it e}) (s.modify it f) := by
  refine .bind h ?_
  rintro _ rfl
  rfl

variable {S : Finset Uint256}

lemma modifyEach {f : Uint256 → TxMemPoolEntry → MempoolResult TxMemPoolEntry}
    {g : Uint256 → TxMemPoolEntry} (h : ∀ x∈S, Ensures alw (·=g x) (f x (s.entry x))) :
    Ensures alw (·={s with entry := fun x => if x∈S then g x else s.entry x})
      (forEach S (fun x => modify x (f x)) s) := by
  refine .forEach (fun done t =>
    t={s with entry := fun x => if x∈done then g x else s.entry x}) ?_ ?_
  · rfl
  · rintro done x t hx hn - rfl
    have hm : Ensures alw (·=g x) (f x (if x∈done then g x else s.entry x)) := by
      rw [if_neg hn]
      exact h x hx
    have hf : update (fun y => if y∈done then g y else s.entry y) x (g x)=
        fun y => if y∈insert x done then g y else s.entry y := by
      funext y
      by_cases hy : y=x
      · simp [hy]
      · simp [hy]
    refine .mono (modify_ensures hm) ?_
    rintro _ rfl
    rw [hf]

lemma spends_congr (hm : t.mapTx=s.mapTx)
    (ht : ∀ h∈s.mapTx, (t.entry h).tx=(s.entry h).tx) : t.Spends=s.Spends := by
  funext c p
  simp only [Spends,hm,eq_iff_iff]
  refine and_congr_right fun hc => ?_
  simp only [prevouts,ht c hc]

lemma descendants_congr (hm : t.mapTx=s.mapTx) (hsp : t.Spends=s.Spends) (h : Uint256) :
    t.descendants h=s.descendants h := by
  ext d
  rw [mem_descendants,mem_descendants,hm,hsp]

lemma ancestors_congr (hm : t.mapTx=s.mapTx) (hsp : t.Spends=s.Spends) (h : Uint256) :
    t.ancestors h=s.ancestors h := by
  ext d
  rw [mem_ancestors,mem_ancestors,hm,hsp]

section
variable {A done : Finset Uint256} {h r : Uint256}

lemma sdiff_insert_erase_of_mem (hn : r≠h) :
    A \ (insert r done).erase h=(A \ done.erase h).erase r := by
  ext x
  grind

lemma sdiff_insert_erase_of_not (ho : r∉A ∨ r=h) :
    A \ (insert r done).erase h=A \ done.erase h := by
  ext x
  grind
end
section
variable (hchs : s.ChildrenCorrect) (hancestors : s.AncestorsCorrect) (hfees : s.FeesFit)
  (hsigops : s.SigOpsChecked)

/- An entry whose totals do not count the ancestors in `gone`. -/
noncomputable def ancestorsLess (s : TxMemPool) (gone : Finset Uint256) (h : Uint256) :
    TxMemPoolEntry :=
  {s.entry h with
    withAncestors := s.totalsOver (s.ancestors h \ gone.erase h)
    nSigOpCostWithAncestors := s.sigOpsOver (s.ancestors h \ gone.erase h)}

/- The first loop has taken the entries of `done` out of the totals of their descendants. -/
def AncestorsWithout (s : TxMemPool) (done : Finset Uint256) (t : TxMemPool) : Prop :=
  t={s with entry := t.entry} ∧ ∀ h∈s.mapTx, t.entry h=s.ancestorsLess done h

include hchs hfees hsigops in
lemma updateDescendantsForRemoval_ensures {done : Finset Uint256} {r : Uint256}
    (hr : r∈s.mapTx) (hn : r∉done) (hdo : s.AncestorsWithout done t) :
    Ensures (SigOpsOverflow (s.sigOpsOver s.mapTx)) (s.AncestorsWithout (insert r done))
      (t.updateDescendantsForRemoval r) := by
  obtain ⟨hsa,he⟩ := hdo
  have hm : t.mapTx=s.mapTx := by rw [hsa]
  have hsp : t.Spends=s.Spends := spends_congr hm fun h hh => by rw [he h hh]; rfl
  have hc' : t.ChildrenCorrect := by
    intro h hh c
    rw [hm] at hh
    rw [hsp,he h hh]
    exact hchs h hh c
  have hw : t.calculateDescendants r ∅=s.descendants r := by
    rw [hc'.calculateDescendants_eq (hm ▸ hr),descendants_congr hm hsp]
  have hrs : toInt32 (-((t.entry r).sigOpCost : Int))=-((s.entry r).sigOpCost : Int) := by
    have hl := hsigops r hr
    have hc : (t.entry r).sigOpCost=(s.entry r).sigOpCost := by rw [he r hr]; rfl
    rw [hc]
    unfold MAX_STANDARD_TX_SIGOPS_COST MAX_BLOCK_SIGOPS_COST at hl
    exact toInt32_eq (by omega) (by omega)
  have hmo : ∀ d∈(s.descendants r).erase r,
      Ensures (SigOpsOverflow (s.sigOpsOver s.mapTx)) (·=s.ancestorsLess (insert r done) d)
        ((t.entry d).updateAncestorState (-((s.entry r).nTxSize : Int))
            (-(s.entry r).modifiedFee) (-1)
          (-((s.entry r).sigOpCost : Int))) := by
    intro d hd
    obtain ⟨hne,hd⟩ := mem_erase.mp hd
    obtain ⟨hdp,hdr⟩ := mem_descendants.mp hd
    have hri : r∈s.ancestors d \ done.erase d :=
      mem_sdiff.mpr ⟨mem_ancestors.mpr ⟨hr,hdr⟩,fun h => hn (mem_of_mem_erase h)⟩
    have hdi : d∈(s.ancestors d \ done.erase d).erase r :=
      mem_erase.mpr ⟨hne,mem_sdiff.mpr ⟨mem_ancestors.mpr ⟨hdp,.refl⟩,notMem_erase _ _⟩⟩
    have hsu : (s.ancestors d \ done.erase d).erase r⊆s.mapTx := fun x hx =>
      (mem_ancestors.mp (mem_sdiff.mp (mem_of_mem_erase hx)).1).1
    rw [he d hdp,ancestorsLess,ancestorsLess,sdiff_insert_erase_of_mem hne.symm]
    exact updateAncestorState_ensures (totalsOver_erase_nSize hri)
      (totalsOver_erase_nModFees hri) (totalsOver_erase_nCount hri) (sigOpsOver_erase hri)
      (totalsOver_nSize_pos hdi) (totalsOver_nCount_pos hdi) (hfees _ hsu)
      (sigOpsOver_nonneg _) (sigOpsOver_mono hsu)
  unfold updateDescendantsForRemoval
  rw [hw,hrs,he r hr]
  refine .mono (modifyEach hmo) ?_
  rintro _ rfl
  refine ⟨?_,fun h hh => ?_⟩
  · rw [hsa]
  · by_cases hi : h∈(s.descendants r).erase r
    · simp only [if_pos hi]
    · have hno : r∉s.ancestors h ∨ r=h := by
        by_cases heq : r=h
        · exact .inr heq
        refine .inl fun ha => hi (mem_erase.mpr ⟨Ne.symm heq,mem_descendants.mpr ⟨hh,?_⟩⟩)
        exact (mem_ancestors.mp ha).2
      simp only [if_neg hi,he h hh,ancestorsLess,sdiff_insert_erase_of_not hno]

include hchs hancestors hfees hsigops in
lemma updateDescendantsForRemoval_all {R : Finset Uint256} (hR : R⊆s.mapTx) :
    Ensures (SigOpsOverflow (s.sigOpsOver s.mapTx)) (s.AncestorsWithout R)
      (forEach R updateDescendantsForRemoval s) := by
  refine .forEach s.AncestorsWithout ?_ ?_
  · refine ⟨rfl,fun h hh => ?_⟩
    obtain ⟨ht,hsu⟩ := hancestors h hh
    simp [ancestorsLess,← ht,← hsu]
  · intro done r t hr hn _ hd
    exact updateDescendantsForRemoval_ensures hchs hfees hsigops (hR hr) hn hd
end

def usage (e : TxMemPoolEntry) : Int :=
  e.nUsageSize+(linkUsage*e.parents.card+linkUsage*e.children.card)
def UsageCorrect (s : TxMemPool) : Prop := s.cachedInnerUsage=∑ h∈s.mapTx, usage (s.entry h)

lemma changeLinks_card (l : Finset Uint256) (li : Uint256) (add : Bool) :
    ((changeLinks l li add).1.card : Int)=l.card+(changeLinks l li add).2 := by
  cases add with
  | true =>
    by_cases h : li∈l
    · simp [changeLinks,h]
    · simp [changeLinks,h]
  | false =>
    by_cases h : li∈l
    · simp only [changeLinks,if_pos h]
      grind
    · simp [changeLinks,h]

lemma sum_update (hi : it∈S) (en : Uint256 → TxMemPoolEntry) (e : TxMemPoolEntry)
    (f : TxMemPoolEntry → Int) :
    ∑ h∈S, f (update en it e h)=∑ h∈S, f (en h)-f (en it)+f e := by
  rw [← add_sum_erase S _ hi,← add_sum_erase S (fun h => f (en h)) hi]
  have hre : ∑ h∈S.erase it, f (update en it e h)=∑ h∈S.erase it, f (en h) := by
    refine sum_congr rfl fun h hh => ?_
    rw [update_of_ne (ne_of_mem_erase hh)]
  rw [hre,update_self]
  ring

lemma UsageCorrect.updateChild (h : s.UsageCorrect) (hi : it∈s.mapTx)
    (c : Uint256) (add : Bool) : (s.updateChild it c add).UsageCorrect := by
  have hc := changeLinks_card (s.entry it).children c add
  unfold UsageCorrect at h ⊢
  simp only [TxMemPool.updateChild]
  rw [sum_update hi,h]
  simp only [usage,hc]
  ring

lemma UsageCorrect.updateParent (h : s.UsageCorrect) (hi : it∈s.mapTx)
    (par : Uint256) (add : Bool) : (s.updateParent it par add).UsageCorrect := by
  have hc := changeLinks_card (s.entry it).parents par add
  unfold UsageCorrect at h ⊢
  simp only [TxMemPool.updateParent]
  rw [sum_update hi,h]
  simp only [usage,hc]
  ring

lemma UsageCorrect.congr (h : s.UsageCorrect) (hm : t.mapTx=s.mapTx)
    (hu : t.cachedInnerUsage=s.cachedInnerUsage)
    (he : ∀ x∈s.mapTx, usage (t.entry x)=usage (s.entry x)) : t.UsageCorrect := by
  unfold UsageCorrect at h ⊢
  rw [hu,h,hm]
  exact (sum_congr rfl he).symm

/- One link of each entry of a set has changed. -/
def ChildChanged (s : TxMemPool) (child : Uint256) (add : Bool) (S : Finset Uint256)
    (t : TxMemPool) : Prop :=
  t={s with
    entry := fun h => if h∈S then
      {s.entry h with children := (changeLinks (s.entry h).children child add).1} else s.entry h
    cachedInnerUsage := t.cachedInnerUsage} ∧ t.UsageCorrect

def ParentChanged (s : TxMemPool) (parent : Uint256) (add : Bool) (S : Finset Uint256)
    (t : TxMemPool) : Prop :=
  t={s with
    entry := fun h => if h∈S then
      {s.entry h with parents := (changeLinks (s.entry h).parents parent add).1} else s.entry h
    cachedInnerUsage := t.cachedInnerUsage} ∧ t.UsageCorrect

lemma updateChildEach (hS : S⊆s.mapTx) (c : Uint256) (add : Bool)
    (hu : s.UsageCorrect) : Ensures alw (s.ChildChanged c add S)
      (forEach S (fun h s => pure (s.updateChild h c add)) s) := by
  refine forEach (s.ChildChanged c add) ⟨by simp,hu⟩ ?_
  rintro _ x t hx hn - ⟨hsa,hc⟩
  have hm : t.mapTx=s.mapTx := by rw [hsa]
  refine pure_ok.mpr ⟨?_,hc.updateChild (hm ▸ hS hx) c add⟩
  rw [hsa]
  simp only [updateChild,TxMemPool.mk.injEq,true_and,and_true,if_neg hn]
  funext y
  by_cases hy : y=x
  · simp [hy]
  · simp [hy]

lemma updateParentEach (hS : S⊆s.mapTx) (par : Uint256) (add : Bool)
    (hu : s.UsageCorrect) : Ensures alw (s.ParentChanged par add S)
      (forEach S (fun h s => pure (s.updateParent h par add)) s) := by
  refine forEach (s.ParentChanged par add) ⟨by simp,hu⟩ ?_
  rintro _ x t hx hn - ⟨hsa,hc⟩
  have hm : t.mapTx=s.mapTx := by rw [hsa]
  refine pure_ok.mpr ⟨?_,hc.updateParent (hm ▸ hS hx) par add⟩
  rw [hsa]
  simp only [updateParent,TxMemPool.mk.injEq,true_and,and_true,if_neg hn]
  funext y
  by_cases hy : y=x
  · simp [hy]
  · simp [hy]

section
variable (hpars : s.ParentsCorrect) (hchs : s.ChildrenCorrect) (hacyc : s.Acyclic)
  (hdescendants : s.DescendantsCorrect) (hfees : s.FeesFit)

/- An entry without links to the children in `cut`, whose totals leave out the descendants in
`gone`. -/
noncomputable def descendantsLess (s : TxMemPool) (cut gone : Finset Uint256) (h : Uint256) :
    TxMemPoolEntry :=
  {s.entry h with
    children := (s.entry h).children \ cut
    withDescendants := s.totalsOver (s.descendants h \ gone.erase h)}

/- The second loop has taken the entries of `done` out of the totals of their ancestors and the
links of their parents. -/
def DescendantsWithout (s : TxMemPool) (done : Finset Uint256) (t : TxMemPool) : Prop :=
  t={s with entry := t.entry, cachedInnerUsage := t.cachedInnerUsage} ∧ t.UsageCorrect ∧
  ∀ h∈s.mapTx, t.entry h=s.descendantsLess done done h

include hpars hchs hacyc hfees in
lemma updateAncestorsForRemoval_ensures {done : Finset Uint256} {r : Uint256}
    (hr : r∈s.mapTx) (hnw : r∉done) (hd : s.DescendantsWithout done t) :
    Ensures alw (s.DescendantsWithout (insert r done)) (t.updateAncestorsForRemoval r) := by
  obtain ⟨hsa,hus,he⟩ := hd
  have hm : t.mapTx=s.mapTx := by rw [hsa]
  have hsp : t.Spends=s.Spends := spends_congr hm fun h hh => by rw [he h hh]; rfl
  have hpa' : t.ParentsCorrect := by
    intro h hh p
    rw [hm] at hh
    rw [hsp,he h hh]
    exact hpars h hh p
  have hac' : t.Acyclic := by
    unfold Acyclic
    rw [hsp]
    exact hacyc
  have hw : t.assumeCalculateMemPoolAncestors (t.entry r) false=(s.ancestors r).erase r := by
    rw [hpa'.assumeCalculateMemPoolAncestors_eq hac' (hm ▸ hr),ancestors_congr hm hsp]
  have hsu : (t.entry r).parents⊆t.mapTx := fun p hp =>
    ((hpa' r (hm ▸ hr) p).mp hp).2.1
  unfold updateAncestorsForRemoval updateAncestorsOf
  rw [hw]
  refine .bind (updateChildEach hsu r false hus) ?_
  rintro u ⟨hu,huu⟩
  have hc : ∀ h∈s.mapTx, u.entry h=s.descendantsLess (insert r done) done h := by
    intro h hh
    have hi : h∈(t.entry r).parents ↔ r∈(s.entry h).children := by
      rw [hpa' r (hm ▸ hr),hsp,hchs h hh]
    rw [hu]
    simp only [hi,he h hh,descendantsLess]
    split
    case isTrue hch =>
      have hin : r∈(s.entry h).children \ done := mem_sdiff.mpr ⟨hch,hnw⟩
      simp only [changeLinks,if_pos hin,sdiff_insert]
      rfl
    case isFalse hch =>
      have hn : r∉(s.entry h).children \ done := fun h => hch (mem_sdiff.mp h).1
      rw [sdiff_insert _ _ r,erase_eq_of_notMem hn]
  have hmo : ∀ a∈(s.ancestors r).erase r,
      Ensures alw (·=s.descendantsLess (insert r done) (insert r done) a)
        ((u.entry a).updateDescendantState (-1*(s.entry r).nTxSize)
            (-1*(s.entry r).modifiedFee) (-1)) := by
    intro a ha
    obtain ⟨hne,ha⟩ := mem_erase.mp ha
    obtain ⟨hap,hra⟩ := mem_ancestors.mp ha
    have hri : r∈s.descendants a \ done.erase a :=
      mem_sdiff.mpr ⟨mem_descendants.mpr ⟨hr,hra⟩,fun h => hnw (mem_of_mem_erase h)⟩
    have hai : a∈(s.descendants a \ done.erase a).erase r :=
      mem_erase.mpr ⟨hne,mem_sdiff.mpr ⟨mem_descendants.mpr ⟨hap,.refl⟩,notMem_erase _ _⟩⟩
    have hsu : (s.descendants a \ done.erase a).erase r⊆s.mapTx := fun x hx =>
      (mem_descendants.mp (mem_sdiff.mp (mem_of_mem_erase hx)).1).1
    rw [hc a hap,descendantsLess,descendantsLess,sdiff_insert_erase_of_mem hne.symm,neg_one_mul,
      neg_one_mul,updateDescendantState_eq (totalsOver_erase_nSize hri)
        (totalsOver_erase_nModFees hri) (totalsOver_erase_nCount hri) (totalsOver_nSize_pos hai)
        (totalsOver_nCount_pos hai) (hfees _ hsu)]
    rfl
  have ham : (u.entry r).nTxSize=(s.entry r).nTxSize ∧
      (u.entry r).modifiedFee=(s.entry r).modifiedFee := by
    rw [hc r hr]
    exact ⟨rfl,rfl⟩
  rw [ham.1,ham.2]
  refine .mono (modifyEach hmo) ?_
  rintro _ rfl
  have he' : ∀ h∈s.mapTx, (if h∈(s.ancestors r).erase r then
      s.descendantsLess (insert r done) (insert r done) h else u.entry h)=
      s.descendantsLess (insert r done) (insert r done) h := by
    intro h hh
    split
    case isTrue => rfl
    case isFalse hin =>
      have hn : r∉s.descendants h ∨ r=h := by
        by_cases heq : r=h
        · exact .inr heq
        refine .inl fun hde => hin (mem_erase.mpr ⟨Ne.symm heq,mem_ancestors.mpr ⟨hh,?_⟩⟩)
        exact (mem_descendants.mp hde).2
      rw [hc h hh,descendantsLess,descendantsLess,sdiff_insert_erase_of_not hn]
  refine ⟨?_,?_,he'⟩
  · rw [hu,hsa]
  · refine huu.congr rfl rfl fun h hh => ?_
    have hh' : h∈s.mapTx := by
      rw [hu,hsa] at hh
      exact hh
    dsimp only
    rw [he' h hh',hc h hh']
    rfl

include hpars hchs hacyc hdescendants hfees in
lemma updateAncestorsForRemoval_all {R : Finset Uint256} (hR : R⊆s.mapTx) (hu : s.UsageCorrect) :
    Ensures alw (s.DescendantsWithout R) (forEach R updateAncestorsForRemoval s) := by
  refine .forEach s.DescendantsWithout ?_ ?_
  · refine ⟨rfl,hu,fun h hh => ?_⟩
    simp [descendantsLess,← hdescendants h hh]
  · intro done r t hr hn _ hd
    exact updateAncestorsForRemoval_ensures hpars hchs hacyc hfees (hR hr) hn hd
end

/- The third loop has taken the entries of `done` out of the links of their remaining children. -/
def ParentsWithout (s : TxMemPool) (R done : Finset Uint256) (t : TxMemPool) : Prop :=
  t={s with entry := t.entry, cachedInnerUsage := t.cachedInnerUsage} ∧ t.UsageCorrect ∧
  ∀ h∈s.mapTx, t.entry h={s.entry h with
    parents := (s.entry h).parents \ (if h∈R then ∅ else done)}

/-- The third loop of UpdateForRemoveFromMempool. The links from the removed entries to each other
have been cut before. -/
lemma updateChildrenForRemoval_all {R : Finset Uint256} (hR : R⊆s.mapTx) (hu : s.UsageCorrect)
    (hcu : ∀ r∈R, ∀ c, c∈(s.entry r).children ↔ c∈s.mapTx ∧ c∉R ∧ r∈(s.entry c).parents) :
    Ensures alw (s.ParentsWithout R R) (forEach R updateChildrenForRemoval s) := by
  refine .forEach (s.ParentsWithout R) ?_ ?_
  · refine ⟨rfl,hu,fun h hh => ?_⟩
    simp
  · rintro done r t hr hn - ⟨hsa,hu',he⟩
    have hm : t.mapTx=s.mapTx := by rw [hsa]
    have hchs : (t.entry r).children=(s.entry r).children := by rw [he r (hR hr)]
    have hsu : (t.entry r).children⊆t.mapTx := fun c hc => by
      rw [hchs] at hc
      exact hm ▸ ((hcu r hr c).mp hc).1
    refine .mono (updateParentEach hsu r false hu') ?_
    rintro u ⟨hus,huu⟩
    refine ⟨?_,huu,fun h hh => ?_⟩
    · rw [hus,hsa]
    rw [hus]
    simp only [hchs,hcu r hr,hh,true_and,he h hh]
    by_cases hi : h∈R
    · simp [hi]
    · simp only [hi,not_false_eq_true,true_and,if_false,sdiff_insert _ _ r]
      split
      case isTrue hp =>
        have hme : r∈(s.entry h).parents \ done := mem_sdiff.mpr ⟨hp,hn⟩
        simp only [changeLinks,if_pos hme]
        rfl
      case isFalse hp =>
        have hno : r∉(s.entry h).parents \ done := fun h => hp (mem_sdiff.mp h).1
        rw [erase_eq_of_notMem hno]

/-- What the pool keeps besides links and packages: spent outpoints, positions in vTxHashes and sums
over all entries. -/
structure BooksCorrect (s : TxMemPool) : Prop where
  hash_eq : ∀ h∈s.mapTx, (s.entry h).hash=h
  spent : ∀ o h, s.mapNextTx o=some h ↔ h∈s.mapTx ∧ o∈(s.entry h).prevouts
  indexed : Indexed s.mapTx (s.vTxHashes.map snd) fun h => (s.entry h).vTxHashesIdx
  witness : ∀ p∈s.vTxHashes, p.1=(s.entry p.2).witnessHash
  size : s.totalTxSize=∑ h∈s.mapTx, ((s.entry h).nTxSize : Int)
  fee : s.totalFee=∑ h∈s.mapTx, (s.entry h).nFee
  usage : s.UsageCorrect

structure SameRecord (e e' : TxMemPoolEntry) : Prop where
  tx : e'.tx=e.tx
  witnessHash : e'.witnessHash=e.witnessHash
  nFee : e'.nFee=e.nFee
  nTxSize : e'.nTxSize=e.nTxSize
  vTxHashesIdx : e'.vTxHashesIdx=e.vTxHashesIdx

lemma BooksCorrect.congr (hs : s.BooksCorrect) (hu : t.UsageCorrect)
    (hsa : t={s with entry := t.entry, cachedInnerUsage := t.cachedInnerUsage, mapDeltas := t.mapDeltas})
    (he : ∀ h∈s.mapTx, SameRecord (s.entry h) (t.entry h)) : t.BooksCorrect := by
  have hm : t.mapTx=s.mapTx := by rw [hsa]
  have hha : t.vTxHashes=s.vTxHashes := by rw [hsa]
  refine ⟨fun h hh => ?_,fun o h => ?_,?_,fun p hp => ?_,?_,?_,hu⟩
  · rw [hm] at hh
    rw [TxMemPoolEntry.hash,(he h hh).tx]
    exact hs.hash_eq h hh
  · have hn : t.mapNextTx=s.mapNextTx := by rw [hsa]
    rw [hn,hm,hs.spent o h]
    refine and_congr_right fun hh => ?_
    rw [prevouts,prevouts,(he h hh).tx]
  · rw [hha,hm]
    exact hs.indexed.congr fun h hh => (he h hh).vTxHashesIdx
  · rw [hha] at hp
    obtain ⟨i,hi⟩ := List.mem_iff_getElem?.mp hp
    have hin := (hs.indexed.idx_of i p.2 (by simp [hi])).1
    rw [(he p.2 hin).witnessHash]
    exact hs.witness p hp
  · have hsi : t.totalTxSize=s.totalTxSize := by rw [hsa]
    rw [hsi,hs.size,hm]
    exact sum_congr rfl fun h hh => by rw [(he h hh).nTxSize]
  · have hf : t.totalFee=s.totalFee := by rw [hsa]
    rw [hf,hs.fee,hm]
    exact sum_congr rfl fun h hh => by rw [(he h hh).nFee]

/- Two entries that differ in their position in vTxHashes only. -/
def Moved (e e' : TxMemPoolEntry) : Prop := e'={e with vTxHashesIdx := e'.vTxHashesIdx}

lemma removeTxHash_spec (hit : it∈s.mapTx)
    (hi : Indexed s.mapTx (s.vTxHashes.map snd) fun h => (s.entry h).vTxHashesIdx) :
    s.removeTxHash it={s with
      vTxHashes := (s.removeTxHash it).vTxHashes, entry := (s.removeTxHash it).entry} ∧
    (∀ h, Moved (s.entry h) ((s.removeTxHash it).entry h)) ∧
    Indexed (s.mapTx.erase it) ((s.removeTxHash it).vTxHashes.map snd)
      (fun h => ((s.removeTxHash it).entry h).vTxHashesIdx) ∧
    ∀ p∈(s.removeTxHash it).vTxHashes, p∈s.vTxHashes := by
  have ha := hi.at_idx it hit
  cases hb : s.vTxHashes.getLast? with
  | none =>
    rw [List.getLast?_eq_none_iff.mp hb] at ha
    simp at ha
  | some b =>
    have hm : (s.vTxHashes.map snd).getLast?=some b.2 := by simp [hb]
    have hsw := hi.swapRemove hit hm
    rw [← List.map_set,← List.map_dropLast] at hsw
    have hme : ∀ p∈(s.vTxHashes.set (s.entry it).vTxHashesIdx b).dropLast, p∈s.vTxHashes := by
      intro p hp
      cases List.mem_or_eq_of_mem_set (List.mem_of_mem_dropLast hp) with
      | inl ho => exact ho
      | inr he => exact he ▸ List.mem_of_getLast? hb
    by_cases hl : 1 < s.vTxHashes.length
    · have he : s.removeTxHash it={s with
          vTxHashes := (s.vTxHashes.set (s.entry it).vTxHashesIdx b).dropLast
          entry := update s.entry b.2
            {s.entry b.2 with vTxHashesIdx := (s.entry it).vTxHashesIdx}} := by
        simp only [removeTxHash,hb,if_pos hl]
      rw [he]
      refine ⟨rfl,fun h => ?_,?_,hme⟩
      · by_cases hh : h=b.2
        · subst hh
          simp [Moved]
        · simp only [Moved,update_of_ne hh]
      · refine hsw.congr fun h _ => ?_
        by_cases hh : h=b.2
        · subst hh
          simp
        · simp only [update_of_ne hh]
    · have he : s.removeTxHash it={s with vTxHashes := []} := by
        simp only [removeTxHash,hb,if_neg hl]
      have hn : (s.vTxHashes.set (s.entry it).vTxHashesIdx b).dropLast=[] := by
        apply List.eq_nil_of_length_eq_zero
        rw [List.length_dropLast,List.length_set]
        omega
      rw [hn] at hsw
      rw [he]
      refine ⟨rfl,fun h => rfl,?_,by simp⟩
      refine hsw.congr fun h hh => ?_
      exact absurd (hsw.at_idx h hh) (by simp)

lemma BooksCorrect.removeUnchecked (hb : s.BooksCorrect) (hit : it∈s.mapTx) :
    (s.removeUnchecked it).BooksCorrect ∧ (s.removeUnchecked it).mapTx=s.mapTx.erase it ∧
    (s.removeUnchecked it).mapDeltas=s.mapDeltas ∧
    ∀ h, Moved (s.entry h) ((s.removeUnchecked it).entry h) := by
  generalize hs1 : {s with mapNextTx := fun o => if o∈(s.entry it).prevouts then none else s.mapNextTx o}
    =s1
  have hi : Indexed s1.mapTx (s1.vTxHashes.map snd) fun h => (s1.entry h).vTxHashesIdx := by
    rw [← hs1]
    exact hb.indexed
  obtain ⟨hsa,hm,hi',hme⟩ := removeTxHash_spec (by rw [← hs1]; exact hit) hi
  have hrs : s.removeUnchecked it={s1.removeTxHash it with
      mapTx := (s1.removeTxHash it).mapTx.erase it
      totalTxSize := (s1.removeTxHash it).totalTxSize-(s.entry it).nTxSize
      totalFee := (s1.removeTxHash it).totalFee-(s.entry it).nFee
      cachedInnerUsage := (s1.removeTxHash it).cachedInnerUsage-(s.entry it).nUsageSize-
        (linkUsage*(s.entry it).parents.card+linkUsage*(s.entry it).children.card)} := by
    rw [← hs1]
    rfl
  generalize s1.removeTxHash it=u at hsa hm hi' hme hrs
  subst hs1
  have hma : u.mapTx=s.mapTx := by rw [hsa]
  rw [hrs]
  have hre {f : TxMemPoolEntry → Int} (hf : ∀ h, f (u.entry h)=f (s.entry h)) :
      ∑ h∈s.mapTx, f (s.entry h)-f (s.entry it)=∑ h∈s.mapTx.erase it, f (u.entry h) := by
    rw [sum_congr rfl fun h _ => hf h,← sum_erase_add _ _ hit]
    ring
  refine ⟨⟨fun h hh => ?_,fun o h => ?_,?_,fun p hp => ?_,?_,?_,?_⟩,by simp [hma],by rw [hsa],hm⟩
  · rw [hm h]
    exact hb.hash_eq h (hma ▸ mem_of_mem_erase hh)
  · have hpr : (u.entry h).prevouts=(s.entry h).prevouts := by rw [hm h]; rfl
    have hn : u.mapNextTx o=if o∈(s.entry it).prevouts then none else s.mapNextTx o := by
      rw [hsa]
    simp only [hpr,hn,hma,mem_erase]
    split
    case isTrue hsp =>
      -- An outpoint that `it` spends is spent by no other entry.
      have hits := (hb.spent o it).mpr ⟨hit,hsp⟩
      constructor
      · intro h
        cases h
      · rintro ⟨⟨hne,hh⟩,ho⟩
        have hhs := (hb.spent o h).mpr ⟨hh,ho⟩
        rw [hits] at hhs
        exact absurd (Option.some.inj hhs).symm hne
    case isFalse hu =>
      rw [hb.spent o h]
      refine and_congr_left fun ho => ⟨fun hh => ⟨?_,hh⟩,And.right⟩
      rintro rfl
      exact hu ho
  · dsimp only
    rw [hma]
    exact hi'
  · rw [hm p.2]
    exact hb.witness p (hme p hp)
  · have hsi : u.totalTxSize=∑ h∈s.mapTx, ((s.entry h).nTxSize : Int) := by
      rw [hsa]
      exact hb.size
    simp only [hma,hsi]
    exact hre (f := fun e => (e.nTxSize : Int)) fun h => by rw [hm h]
  · have hfe : u.totalFee=∑ h∈s.mapTx, (s.entry h).nFee := by
      rw [hsa]
      exact hb.fee
    simp only [hma,hfe]
    exact hre (f := TxMemPoolEntry.nFee) fun h => by rw [hm h]
  · have hus : u.cachedInnerUsage=∑ h∈s.mapTx, TxMemPool.usage (s.entry h) := by
      rw [hsa]
      exact hb.usage
    have hsu := hre (f := TxMemPool.usage) fun h => by rw [hm h]; rfl
    simp only [UsageCorrect,hma,hus,← hsu]
    simp only [TxMemPool.usage]
    ring

structure Consistent (s : TxMemPool) : Prop extends BooksCorrect s where
  parents : s.ParentsCorrect
  children : s.ChildrenCorrect
  ancestors : s.AncestorsCorrect
  descendants : s.DescendantsCorrect

/- Consistency with what the proofs need besides: acyclic spends, fee sums without overflow and
   checked costs. -/
structure PoolInvariant (s : TxMemPool) : Prop extends Consistent s where
  acyclic : s.Acyclic
  fees : s.FeesFit
  sigops : s.SigOpsChecked

structure Removed (s : TxMemPool) (R : Finset Uint256) (t : TxMemPool) : Prop where
  books : t.BooksCorrect
  mapTx : t.mapTx=s.mapTx \ R
  mapDeltas : t.mapDeltas=s.mapDeltas
  entry : ∀ h∈t.mapTx, Moved {s.entry h with
    parents := (s.entry h).parents \ R
    children := (s.entry h).children \ R
    withAncestors := s.totalsOver (s.ancestors h \ R)
    nSigOpCostWithAncestors := s.sigOpsOver (s.ancestors h \ R)
    withDescendants := s.totalsOver (s.descendants h \ R)} (t.entry h)

lemma totalsOver_congr (hsi : ∀ h∈C, (t.entry h).nTxSize=(s.entry h).nTxSize)
    (hf : ∀ h∈C, (t.entry h).modifiedFee=(s.entry h).modifiedFee) :
    t.totalsOver C=s.totalsOver C := by
  have hsz : ∑ h∈C, ((t.entry h).nTxSize : Int)=∑ h∈C, ((s.entry h).nTxSize : Int) :=
    sum_congr rfl fun h hh => by rw [hsi h hh]
  simp only [totalsOver,hsz,sum_congr rfl hf]

lemma sigOpsOver_congr (hc : ∀ h∈C, (t.entry h).sigOpCost=(s.entry h).sigOpCost) :
    t.sigOpsOver C=s.sigOpsOver C :=
  sum_congr rfl fun h hh => by rw [hc h hh]

lemma descendants_subset (h : Uint256) : s.descendants h⊆s.mapTx :=
  fun _ hd => (mem_descendants.mp hd).1

lemma ancestors_subset (h : Uint256) : s.ancestors h⊆s.mapTx :=
  fun _ ha => (mem_ancestors.mp ha).1

lemma closed_descendants {R : Finset Uint256} (hc : ∀ r∈R, ∀ c, s.Spends c r → c∈R)
    {d r : Uint256} (hsp : ReflTransGen s.Spends d r) (hr : r∈R) : d∈R := by
  induction hsp using ReflTransGen.head_induction_on with
  | refl => exact hr
  | head hcd _ ih => exact hc _ ih _ hcd

/- Nothing but the totals of ancestors has changed. -/
def AncestorsChanged (s t : TxMemPool) : Prop :=
  t={s with entry := t.entry} ∧ ∀ h∈s.mapTx, t.entry h={s.entry h with
    withAncestors := (t.entry h).withAncestors
    nSigOpCostWithAncestors := (t.entry h).nSigOpCostWithAncestors}

section
variable (hs : s.PoolInvariant) {R : Finset Uint256} (hR : R⊆s.mapTx)
include hs hR

lemma PoolInvariant.removal_ancestors {upd : Bool}
    (hc : upd=false → ∀ r∈R, ∀ c, s.Spends c r → c∈R) :
    Ensures (SigOpsOverflow (s.sigOpsOver s.mapTx))
      (fun t => s.AncestorsChanged t ∧ ∀ h∈s.mapTx, h∉R →
        (t.entry h).withAncestors=s.totalsOver (s.ancestors h \ R) ∧
        (t.entry h).nSigOpCostWithAncestors=s.sigOpsOver (s.ancestors h \ R))
      (if upd then forEach R updateDescendantsForRemoval s else pure s) := by
  cases upd with
  | true =>
    have hl := updateDescendantsForRemoval_all hs.children hs.ancestors hs.fees hs.sigops hR
    refine mono hl ?_
    rintro t ⟨hsa,he⟩
    refine ⟨⟨hsa,fun h hh => ?_⟩,fun h hh ho => ?_⟩
    · rw [he h hh]
      rfl
    · rw [he h hh,ancestorsLess,erase_eq_of_notMem ho]
      exact ⟨rfl,rfl⟩
  | false =>
    refine pure_ok.mpr ⟨⟨rfl,fun h hh => rfl⟩,fun h hh ho => ?_⟩
    -- A remaining entry has no removed ancestor: the removed set holds all descendants.
    have hd : s.ancestors h \ R=s.ancestors h := by
      refine sdiff_eq_self_of_disjoint (disjoint_left.mpr fun a ha hi => ho ?_)
      exact closed_descendants (hc rfl) (mem_ancestors.mp ha).2 hi
    rw [hd]
    exact hs.ancestors h hh

lemma PoolInvariant.removal_links {u : TxMemPool} (hu : s.AncestorsChanged u) : Ensures alw
      (fun t => t.BooksCorrect ∧ t.mapTx=s.mapTx ∧ t.mapDeltas=s.mapDeltas ∧ ∀ h∈s.mapTx, h∉R →
        t.entry h={s.entry h with
          parents := (s.entry h).parents \ R
          children := (s.entry h).children \ R
          withAncestors := (u.entry h).withAncestors
          nSigOpCostWithAncestors := (u.entry h).nSigOpCostWithAncestors
          withDescendants := s.totalsOver (s.descendants h \ R)})
      (do
        let t ← forEach R updateAncestorsForRemoval u
        forEach R updateChildrenForRemoval t) := by
  obtain ⟨hsa,he⟩ := hu
  have hm : u.mapTx=s.mapTx := by rw [hsa]
  have hsp : u.Spends=s.Spends := spends_congr hm fun h hh => by rw [he h hh]
  have ht {C} (hC : C⊆s.mapTx) : u.totalsOver C=s.totalsOver C :=
    totalsOver_congr (fun h hh => by rw [he h (hC hh)]) fun h hh => by rw [he h (hC hh)]
  have hpars : u.ParentsCorrect := by
    intro h hh p
    rw [hm] at hh
    rw [hsp,he h hh]
    exact hs.parents h hh p
  have hchs : u.ChildrenCorrect := by
    intro h hh c
    rw [hm] at hh
    rw [hsp,he h hh]
    exact hs.children h hh c
  have hacyc : u.Acyclic := by
    unfold Acyclic
    rw [hsp]
    exact hs.acyclic
  have hdescendants : u.DescendantsCorrect := by
    intro h hh
    rw [hm] at hh
    rw [descendants_congr hm hsp,ht (descendants_subset h),he h hh]
    exact hs.descendants h hh
  have hfees : u.FeesFit := by
    intro C hC
    rw [hm] at hC
    have hsu : ∑ h∈C, (u.entry h).modifiedFee=∑ h∈C, (s.entry h).modifiedFee :=
      sum_congr rfl fun h hh => by rw [he h (hC hh)]
    rw [hsu]
    exact hs.fees C hC
  have hus : u.UsageCorrect := hs.usage.congr hm (by rw [hsa]) fun h hh => by rw [he h hh]; rfl
  refine .bind (updateAncestorsForRemoval_all hpars hchs hacyc hdescendants hfees (hm ▸ hR) hus) ?_
  rintro v ⟨hvs,hvu,hve⟩
  have hv : v.mapTx=s.mapTx := by rw [hvs,hm]
  have hl : ∀ h∈s.mapTx, (v.entry h).parents=(s.entry h).parents ∧
      (v.entry h).children=(s.entry h).children \ R := by
    intro h hh
    rw [hve h (hm ▸ hh),descendantsLess,he h hh]
    exact ⟨rfl,rfl⟩
  have hcu : ∀ r∈R, ∀ c,c∈(v.entry r).children ↔ c∈v.mapTx ∧ c∉R ∧ r∈(v.entry c).parents := by
    intro r hr c
    rw [(hl r (hR hr)).2,mem_sdiff,hs.children r (hR hr),hv]
    constructor
    · rintro ⟨hcr,hc⟩
      rw [(hl c hcr.1).1]
      exact ⟨hcr.1,hc,(hs.parents c hcr.1 r).mpr hcr⟩
    · rintro ⟨hcp,hc,hcr⟩
      rw [(hl c hcp).1] at hcr
      exact ⟨(hs.parents c hcp r).mp hcr,hc⟩
  refine .mono (updateChildrenForRemoval_all (hv ▸ hR) hvu hcu) ?_
  rintro w ⟨hw,hwu,hwe⟩
  have hwm : w.mapTx=s.mapTx := by rw [hw,hv]
  have hf : ∀ h∈s.mapTx, w.entry h={s.entry h with
      parents := (s.entry h).parents \ (if h∈R then ∅ else R)
      children := (s.entry h).children \ R
      withAncestors := (u.entry h).withAncestors
      nSigOpCostWithAncestors := (u.entry h).nSigOpCostWithAncestors
      withDescendants := s.totalsOver (s.descendants h \ R.erase h)} := by
    intro h hh
    have hsb : s.descendants h \ R.erase h⊆s.mapTx := sdiff_subset.trans (descendants_subset h)
    rw [hwe h (hv ▸ hh),hve h (hm ▸ hh),descendantsLess,descendants_congr hm hsp,ht hsb,he h hh]
  refine ⟨?_,hwm,by rw [hw,hvs,hsa],fun h hh ho => ?_⟩
  · refine hs.toBooksCorrect.congr hwu ?_ fun h hh => ?_
    · rw [hw,hvs,hsa]
    · rw [hf h hh]
      exact ⟨rfl,rfl,rfl,rfl,rfl⟩
  · rw [hf h hh,if_neg ho,erase_eq_of_notMem ho]

/-- RemoveStaged removes the entries and updates those that remain. Either the totals of
descendants are updated too, or all descendants are removed. -/
lemma PoolInvariant.removeStaged {upd : Bool} (hc : upd=false → ∀ r∈R, ∀ c, s.Spends c r → c∈R) :
    Ensures (SigOpsOverflow (s.sigOpsOver s.mapTx)) (s.Removed R) (s.removeStaged R upd) := by
  unfold TxMemPool.removeStaged updateForRemoveFromMempool
  rw [bind_assoc]
  refine bind (hs.removal_ancestors hR hc) ?_
  rintro u ⟨hu,hua⟩
  refine bind (hs.removal_links hR hu) ?_
  rintro v ⟨hb,hma,hd,he⟩
  have hl : Ensures (SigOpsOverflow (s.sigOpsOver s.mapTx))
      (fun t => t.BooksCorrect ∧ t.mapTx=s.mapTx \ R ∧ t.mapDeltas=v.mapDeltas ∧
        ∀ h, Moved (v.entry h) (t.entry h))
      (forEach R (fun it s => pure (s.removeUnchecked it)) v) := by
    refine forEach (fun done (t : TxMemPool) => t.BooksCorrect ∧ t.mapTx=s.mapTx \ done ∧
      t.mapDeltas=v.mapDeltas ∧ ∀ h, Moved (v.entry h) (t.entry h)) ?_ ?_
    · exact ⟨hb,by rw [hma,sdiff_empty],rfl,fun h => rfl⟩
    · rintro done r t hr hn - ⟨htb,ht,htd,htm⟩
      have hi : r∈t.mapTx := ht ▸ mem_sdiff.mpr ⟨hR hr,hn⟩
      obtain ⟨hb',hma',hd',hm'⟩ := htb.removeUnchecked hi
      refine pure_ok.mpr ⟨hb',?_,hd'.trans htd,fun h => ?_⟩
      · rw [hma',ht,sdiff_insert]
      · rw [Moved,hm' h,htm h]
  refine mono hl ?_
  rintro t ⟨htb,ht,htd,htm⟩
  refine ⟨htb,ht,htd.trans hd,fun h hh => ?_⟩
  obtain ⟨hh,ho⟩ := mem_sdiff.mp (ht ▸ hh)
  have hm := htm h
  rw [he h hh ho,(hua h hh ho).1,(hua h hh ho).2] at hm
  exact hm
end
end TxMemPool
end Xero
