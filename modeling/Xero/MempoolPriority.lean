import Xero.MempoolRemoval

/-! PrioritiseTransaction: the new fee of an entry reaches the totals of every package that
counts it. -/
namespace Xero
open Library Finset Function
variable {down up : Finset Uint256}
namespace TxMemPool
variable {s t : TxMemPool} {h : Uint256} {nFeeDelta : Int} {alw : MempoolAssert → Prop}

def raised (s : TxMemPool) (h : Uint256) (nFeeDelta : Int) : TxMemPool :=
  {s with
    entry := update s.entry h
      {s.entry h with modifiedFee := (s.entry h).modifiedFee+nFeeDelta}}

/-- The fees stay in range when one of them changes. -/
def FeesFitRaised (s : TxMemPool) (h : Uint256) (nFeeDelta : Int) : Prop :=
    (s.raised h nFeeDelta).FeesFit

lemma raised_entry (x : Uint256) : (s.raised h nFeeDelta).entry x=
    {s.entry x with modifiedFee := ((s.raised h nFeeDelta).entry x).modifiedFee} := by
  by_cases hx : x=h
  · subst hx
    simp only [raised,update_self]
  · simp only [raised,update_of_ne hx]

variable {C : Finset Uint256}

lemma totalsOver_raised_of_mem (hC : h∈C) : (s.raised h nFeeDelta).totalsOver C=
      {s.totalsOver C with nModFees := (s.totalsOver C).nModFees+nFeeDelta} := by
  have hsi : ∑ x∈C, (((s.raised h nFeeDelta).entry x).nTxSize : Int)=
      ∑ x∈C, ((s.entry x).nTxSize : Int) := sum_congr rfl fun x _ => by rw [raised_entry]
  have hf : ∑ x∈C, ((s.raised h nFeeDelta).entry x).modifiedFee=
      ∑ x∈C, (s.entry x).modifiedFee+nFeeDelta := by
    rw [raised,sum_update hC]
    ring
  simp only [totalsOver,hsi,hf]

lemma totalsOver_raised_of_notMem (hC : h∉C) :
    (s.raised h nFeeDelta).totalsOver C=s.totalsOver C := by
  refine totalsOver_congr (fun x hx => by rw [raised_entry]) fun x hx => ?_
  have hn : x≠h := fun he => hC (he ▸ hx)
  simp only [raised,update_of_ne hn]

/- The entries of `up` count the new fee among their descendants, those of `down` among their
   ancestors. -/
def Raising (s : TxMemPool) (h : Uint256) (nFeeDelta : Int) (up down : Finset Uint256)
    (t : TxMemPool) : Prop :=
  t={s with entry := t.entry, mapDeltas := t.mapDeltas} ∧
  ∀ x∈s.mapTx, t.entry x={(s.raised h nFeeDelta).entry x with
    withDescendants := (if x∈up then s.raised h nFeeDelta else s).totalsOver (s.descendants x)
    withAncestors := (if x∈down then s.raised h nFeeDelta else s).totalsOver (s.ancestors x)}

section
variable (ht : s.Raising h nFeeDelta up down t)
include ht

lemma Raising.mapTx : t.mapTx=s.mapTx := by
  rw [ht.1]

lemma Raising.links {x : Uint256} (hx : x∈s.mapTx) : (t.entry x).tx=(s.entry x).tx ∧
    (t.entry x).parents=(s.entry x).parents ∧
      (t.entry x).children=(s.entry x).children := by
  rw [ht.2 x hx,raised_entry]
  exact ⟨rfl,rfl,rfl⟩

lemma Raising.spends : t.Spends=s.Spends :=
  spends_congr ht.mapTx fun _ hx => (ht.links hx).1

lemma Raising.parents (hs : s.ParentsCorrect) : t.ParentsCorrect := by
  intro x hx p
  rw [ht.mapTx] at hx
  rw [(ht.links hx).2.1,ht.spends]
  exact hs x hx p

lemma Raising.children (hs : s.ChildrenCorrect) : t.ChildrenCorrect := by
  intro x hx c
  rw [ht.mapTx] at hx
  rw [(ht.links hx).2.2,ht.spends]
  exact hs x hx c

lemma Raising.acyclic (hs : s.Acyclic) : t.Acyclic := by
  unfold Acyclic
  rw [ht.spends]
  exact hs
end
section
variable (hs : s.PoolInvariant) (hh : h∈s.mapTx) (hfe : s.FeesFitRaised h nFeeDelta)
include hfe

lemma saturatingAdd_raised (hC : C⊆s.mapTx) (hm : h∈C) :
    saturatingAdd (s.totalsOver C).nModFees
    nFeeDelta=((s.raised h nFeeDelta).totalsOver C).nModFees := by
  have hf : FeeFits ((s.raised h nFeeDelta).totalsOver C).nModFees := hfe C hC
  rw [totalsOver_raised_of_mem hm] at hf ⊢
  apply saturatingAdd_eq
  · exact le_trans (by decide) hf.1
  · exact hf.2

include hs hh

lemma PoolInvariant.updateModifiedFee_eq : (s.entry h).updateModifiedFee nFeeDelta=
    {(s.raised h nFeeDelta).entry h with
      withDescendants := (s.raised h nFeeDelta).totalsOver (s.descendants h)
      withAncestors := (s.raised h nFeeDelta).totalsOver (s.ancestors h)} := by
  have hse : saturatingAdd (s.entry h).modifiedFee nFeeDelta=(s.entry h).modifiedFee+nFeeDelta := by
    have had := saturatingAdd_raised hfe (singleton_subset_iff.mpr hh) (mem_singleton_self h)
    rw [totalsOver_raised_of_mem (mem_singleton_self h)] at had
    simpa [totalsOver] using had
  have hd : h∈s.descendants h := mem_descendants.mpr ⟨hh,.refl⟩
  have han : h∈s.ancestors h := mem_ancestors.mpr ⟨hh,.refl⟩
  have hde := saturatingAdd_raised hfe (descendants_subset h) hd
  have ha := saturatingAdd_raised hfe (ancestors_subset h) han
  rw [totalsOver_raised_of_mem hd] at hde ⊢
  rw [totalsOver_raised_of_mem han] at ha ⊢
  simp [TxMemPoolEntry.updateModifiedFee,hs.descendants h hh,(hs.ancestors h hh).1,hse,
      hde,ha,raised]

omit hs in
lemma raise_ancestors {u : TxMemPool} (hu : s.Raising h nFeeDelta {h} {h} u) :
    Ensures alw (s.Raising h nFeeDelta (s.ancestors h) {h})
      (forEach ((s.ancestors h).erase h) (fun a =>
      modify a (·.updateDescendantState 0 nFeeDelta 0)) u) := by
  have hm : ∀ a∈(s.ancestors h).erase h, Ensures alw
      (·={u.entry a with withDescendants := (s.raised h nFeeDelta).totalsOver (s.descendants a)})
      ((u.entry a).updateDescendantState 0 nFeeDelta 0) := by
    intro a ha
    obtain ⟨hn,ha⟩ := mem_erase.mp ha
    obtain ⟨hap,hr⟩ := mem_ancestors.mp ha
    have hme : h∈s.descendants a := mem_descendants.mpr ⟨hh,hr⟩
    have hse : a∈s.descendants a := mem_descendants.mpr ⟨hap,.refl⟩
    have hb : (u.entry a).withDescendants=s.totalsOver (s.descendants a) := by
      rw [hu.2 a hap]
      simp [hn]
    have haf : (s.raised h nFeeDelta).totalsOver (s.descendants a)=_ := totalsOver_raised_of_mem hme
    rw [TxMemPoolEntry.updateDescendantState_eq (T :=
        (s.raised h nFeeDelta).totalsOver (s.descendants a))
      (by rw [hb,haf,add_zero]) (by rw [hb,haf]) (by rw [hb,haf,add_zero])
      (totalsOver_nSize_pos hse) (totalsOver_nCount_pos hse) (hfe _ (descendants_subset a))]
    rfl
  refine .mono (modifyEach hm) ?_
  rintro _ rfl
  refine ⟨?_,fun x hx => ?_⟩
  · rw [hu.1]
  · simp only [hu.2 x hx,mem_erase,mem_singleton]
    by_cases hxh : x=h
    · have hse : h∈s.ancestors h := mem_ancestors.mpr ⟨hh,.refl⟩
      simp [hxh,hse]
    · by_cases han : x∈s.ancestors h
      · simp [hxh,han]
      · simp [hxh,han]

lemma PoolInvariant.raise_descendants {u : TxMemPool} (hu : s.Raising h nFeeDelta up {h} u) :
    Ensures (SigOpsOverflow (s.sigOpsOver s.mapTx)) (s.Raising h nFeeDelta up (s.descendants h))
      (forEach ((s.descendants h).erase h)
        (fun d => modify d (·.updateAncestorState 0 nFeeDelta 0 0)) u) := by
  have hm : ∀ d∈(s.descendants h).erase h, Ensures (SigOpsOverflow (s.sigOpsOver s.mapTx))
      (·={u.entry d with withAncestors := (s.raised h nFeeDelta).totalsOver (s.ancestors d)})
      ((u.entry d).updateAncestorState 0 nFeeDelta 0 0) := by
    intro d hd
    obtain ⟨hn,hd⟩ := mem_erase.mp hd
    obtain ⟨hdp,hr⟩ := mem_descendants.mp hd
    have hme : h∈s.ancestors d := mem_ancestors.mpr ⟨hh,hr⟩
    have hse : d∈s.ancestors d := mem_ancestors.mpr ⟨hdp,.refl⟩
    have hb : (u.entry d).withAncestors=s.totalsOver (s.ancestors d) := by
      rw [hu.2 d hdp]
      simp [hn]
    have hc : (u.entry d).nSigOpCostWithAncestors=s.sigOpsOver (s.ancestors d) := by
      rw [hu.2 d hdp,raised_entry]
      exact (hs.ancestors d hdp).2
    have ha : (s.raised h nFeeDelta).totalsOver (s.ancestors d)=_ := totalsOver_raised_of_mem hme
    refine .mono (TxMemPoolEntry.updateAncestorState_ensures
      (T := (s.raised h nFeeDelta).totalsOver (s.ancestors d))
      (by rw [hb,ha,add_zero]) (by rw [hb,ha]) (by rw [hb,ha,add_zero])
      (add_zero _) (totalsOver_nSize_pos hse) (totalsOver_nCount_pos hse)
      (hfe _ (ancestors_subset d)) (hc ▸ sigOpsOver_nonneg _)
      (hc ▸ sigOpsOver_mono (ancestors_subset d))) ?_
    rintro _ rfl
    rfl
  refine .mono (modifyEach hm) ?_
  rintro _ rfl
  refine ⟨?_,fun x hx => ?_⟩
  · rw [hu.1]
  · simp only [hu.2 x hx,mem_erase,mem_singleton]
    by_cases hxh : x=h
    · have hse : h∈s.descendants h := mem_descendants.mpr ⟨hh,.refl⟩
      simp [hxh,hse]
    · by_cases hde : x∈s.descendants h
      · simp [hxh,hde]
      · simp [hxh,hde]

omit hh in
lemma Raising.poolInvariant (ht : s.Raising h nFeeDelta (s.ancestors h) (s.descendants h) t) :
    t.PoolInvariant := by
  have hd : ∀ x∈s.mapTx, t.entry x={(s.raised h nFeeDelta).entry x with
      withDescendants := (s.raised h nFeeDelta).totalsOver (s.descendants x)
      withAncestors := (s.raised h nFeeDelta).totalsOver (s.ancestors x)} := by
    intro x hx
    have hup : (if x∈s.ancestors h then s.raised h nFeeDelta else s).totalsOver (s.descendants x)=
        (s.raised h nFeeDelta).totalsOver (s.descendants x) := by
      split
      case isTrue => rfl
      case isFalse hn =>
        refine (totalsOver_raised_of_notMem fun hm => hn ?_).symm
        exact mem_ancestors.mpr ⟨hx,(mem_descendants.mp hm).2⟩
    have hdo : (if x∈s.descendants h then s.raised h nFeeDelta else s).totalsOver (s.ancestors x)=
        (s.raised h nFeeDelta).totalsOver (s.ancestors x) := by
      split
      case isTrue => rfl
      case isFalse hn =>
        refine (totalsOver_raised_of_notMem fun hm => hn ?_).symm
        exact mem_descendants.mpr ⟨hx,(mem_ancestors.mp hm).2⟩
    rw [ht.2 x hx,hup,hdo]
  have hto {C} (hC : C⊆s.mapTx) : t.totalsOver C=(s.raised h nFeeDelta).totalsOver C :=
    totalsOver_congr (fun x hx => by rw [hd x (hC hx)]) fun x hx => by rw [hd x (hC hx)]
  have hc {C} (hC : C⊆s.mapTx) : t.sigOpsOver C=s.sigOpsOver C :=
    sigOpsOver_congr fun x hx => by rw [hd x (hC hx),raised_entry]
  have hu : t.UsageCorrect := by
    refine hs.usage.congr ht.mapTx (by rw [ht.1]) fun x hx => ?_
    rw [hd x hx,raised_entry]
    rfl
  refine ⟨⟨?_,ht.parents hs.parents,ht.children hs.children,fun x hx => ?_,fun x hx => ?_⟩,
    ht.acyclic hs.acyclic,?_,fun x hx => ?_⟩
  · refine hs.toBooksCorrect.congr hu ?_ fun x hx => ?_
    · rw [ht.1]
    · rw [hd x hx,raised_entry]
      exact ⟨rfl,rfl,rfl,rfl,rfl⟩
  · rw [ht.mapTx] at hx
    rw [ancestors_congr ht.mapTx ht.spends,hto (ancestors_subset x),hc (ancestors_subset x),hd x hx]
    refine ⟨rfl,?_⟩
    rw [raised_entry]
    exact (hs.ancestors x hx).2
  · rw [ht.mapTx] at hx
    rw [descendants_congr ht.mapTx ht.spends,hto (descendants_subset x),hd x hx]
  · intro C hC
    rw [ht.mapTx] at hC
    have hsu : ∑ x∈C, (t.entry x).modifiedFee=
        ∑ x∈C, ((s.raised h nFeeDelta).entry x).modifiedFee :=
      sum_congr rfl fun x hx => by rw [hd x (hC hx)]
    rw [hsu]
    exact hfe C hC
  · rw [ht.mapTx] at hx
    rw [hd x hx,raised_entry]
    exact hs.sigops x hx
end

lemma PoolInvariant.prioritiseTransaction (hs : s.PoolInvariant)
    (hf : h∈s.mapTx → s.FeesFitRaised h nFeeDelta) :
    Ensures (SigOpsOverflow (s.sigOpsOver s.mapTx)) (fun t => t.PoolInvariant ∧ t.mapTx=s.mapTx)
      (s.prioritiseTransaction h nFeeDelta) := by
  refine .ite (fun hh => ?_) fun _ => ?_
  · replace hh : h∈s.mapTx := hh
    specialize hf hh
    refine Ensures.bind (modify_ensures (Ensures.pure_ok.mpr rfl)) fun u hu => ?_
    have hr : s.Raising h nFeeDelta {h} {h} u := by
      refine ⟨by rw [hu],fun x hx => ?_⟩
      rw [hu]
      by_cases hxh : x=h
      · subst hxh
        simp only [update_self,hs.updateModifiedFee_eq hh hf,mem_singleton,if_true]
      · have ho : (s.raised h nFeeDelta).entry x=s.entry x := by
          simp only [raised,update_of_ne hxh]
        simp only [update_of_ne hxh,mem_singleton,hxh,if_false,ho,
          ← hs.descendants x hx,← (hs.ancestors x hx).1]
    have ha : u.assumeCalculateMemPoolAncestors (u.entry h) false=(s.ancestors h).erase h := by
      rw [(hr.parents hs.parents).assumeCalculateMemPoolAncestors_eq (hr.acyclic hs.acyclic)
        (hr.mapTx ▸ hh),ancestors_congr hr.mapTx hr.spends]
    simp only [ha]
    refine .bind (raise_ancestors hh hf hr) fun v hv => ?_
    have hd : v.calculateDescendants h ∅=s.descendants h := by
      rw [(hv.children hs.children).calculateDescendants_eq (hv.mapTx ▸ hh),
        descendants_congr hv.mapTx hv.spends]
    rw [hd]
    refine .mono (hs.raise_descendants hh hf hv) fun t ht => ?_
    exact ⟨ht.poolInvariant hs hf,ht.mapTx⟩
  · refine ⟨⟨⟨⟨hs.hash_eq,hs.spent,hs.indexed,hs.witness,hs.size,hs.fee,hs.usage⟩,
      hs.parents,hs.children,hs.ancestors,hs.descendants⟩,hs.acyclic,hs.fees,hs.sigops⟩,rfl⟩
end TxMemPool
end Xero
