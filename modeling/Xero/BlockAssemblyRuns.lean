import Xero.BlockAssembly
import Xero.MempoolRuns
import Mathlib.Algebra.BigOperators.Ring.Finset

/-! What block assembly keeps: the block is closed under ancestors and ordered by them, its counters
are sums over its transactions, and a modified entry counts at least the ancestors outside the
block. So the loop ends, with no failed assert. -/
namespace Xero
open Library Relation Finset TxMemPool Ensures
variable {h it ie : Uint256}
namespace TxMemPool
variable {s : TxMemPool}

lemma ancestors_trans {a : Uint256} (ha : a∈s.ancestors h) : s.ancestors a⊆s.ancestors h := by
  intro x hx
  rw [mem_ancestors] at ha hx ⊢
  exact ⟨hx.1,ha.2.trans hx.2⟩

lemma self_mem_ancestors (hh : h∈s.mapTx) : h∈s.ancestors h :=
  mem_ancestors.mpr ⟨hh,.refl⟩

lemma mem_ancestors_of_mem_descendants {d : Uint256} (hh : h∈s.mapTx) (hd : d∈s.descendants h) :
    h∈s.ancestors d :=
  mem_ancestors.mpr ⟨hh,(mem_descendants.mp hd).2⟩

lemma Acyclic.card_ancestors_lt (hac : s.Acyclic) {a : Uint256} (hh : h∈s.mapTx)
    (ha : a∈s.ancestors h) (hn : a≠h) : (s.ancestors a).card<(s.ancestors h).card := by
  refine card_lt_card ⟨ancestors_trans ha,fun hsu => ?_⟩
  have hb := mem_ancestors.mp (hsu (self_mem_ancestors hh))
  have hf := (mem_ancestors.mp ha).2
  cases reflTransGen_iff_eq_or_transGen.mp hf with
  | inl he => exact hn he
  | inr hst => exact hac h (hst.trans_left hb.2)
end TxMemPool
namespace ModifiedEntry
structure Counts (s : TxMemPool) (C : Finset Uint256) (e : ModifiedEntry) : Prop where
  size : e.nSizeWithAncestors=(s.totalsOver C).nSize
  sigops : e.nSigOpCostWithAncestors=s.sigOpsOver C

variable {s : TxMemPool} {C : Finset Uint256} {e : ModifiedEntry}

lemma Counts.ofEntry (hs : s.Consistent) (hh : h∈s.mapTx) :
    Counts s (s.ancestors h) (.ofEntry (s.entry h)) := by
  obtain ⟨ht,hsi⟩ := hs.ancestors h hh
  exact ⟨by simp [ModifiedEntry.ofEntry,ht],hsi⟩

lemma Counts.updateForParentInclusion (he : e.Counts s C) (hi : it∈C) :
    Counts s (C.erase it) (updateForParentInclusion (s.entry it) e) := by
  refine ⟨?_,?_⟩
  · simp only [Xero.updateForParentInclusion,he.size,sub_eq_add_neg]
    exact totalsOver_erase_nSize hi
  · simp only [Xero.updateForParentInclusion,he.sigops,sub_eq_add_neg]
    exact sigOpsOver_erase hi
end ModifiedEntry
namespace ModifiedSet
/-- Each modified entry counts its ancestors without some of those in a set. -/
def Sound (s : TxMemPool) (B : Uint256 → Finset Uint256) (m : ModifiedSet) : Prop :=
  ∀ d∈m.keys, d∈s.mapTx ∧ ∃ S⊆B d, (m.entry d).Counts s (s.ancestors d \ S)

variable {s : TxMemPool} {B B' : Uint256 → Finset Uint256} {m : ModifiedSet}

lemma Sound.mono (hm : m.Sound s B) (hB : ∀ d, B d⊆B' d) : m.Sound s B' := by
  intro d hd
  obtain ⟨hp,S,hS,hc⟩ := hm d hd
  exact ⟨hp,S,hS.trans (hB d),hc⟩

lemma Sound.erase (hm : m.Sound s B) (it : Uint256) : (m.erase it).Sound s B :=
  fun d hd => hm d (mem_of_mem_erase hd)

lemma Sound.findOrNew (hs : s.Consistent) (hm : m.Sound s B) {d : Uint256} (hd : d∈s.mapTx) :
    ∃ S⊆B d, (m.findOrNew s d).Counts s (s.ancestors d \ S) := by
  unfold ModifiedSet.findOrNew
  split
  case isTrue hme => exact (hm d hme).2
  case isFalse => exact ⟨∅,empty_subset _,by simpa using ModifiedEntry.Counts.ofEntry hs hd⟩

lemma Sound.updateDescendant (hs : s.Consistent) (hm : m.Sound s B) {de : Uint256}
    (hde : de∈s.mapTx) (hi : it∈s.ancestors de) (hn : it∉B de)
    (hB : ∀ d, B d⊆B' d) (ha : it∈B' de) : (m.updateDescendant s it de).Sound s B' := by
  intro d hd
  by_cases hsa : d=de
  · subst hsa
    obtain ⟨S,hS,hc⟩ := hm.findOrNew hs hde
    have hme : it∈s.ancestors d \ S := mem_sdiff.mpr ⟨hi,fun h => hn (hS h)⟩
    refine ⟨hde,insert it S,insert_subset ha (hS.trans (hB d)),?_⟩
    have hr := hc.updateForParentInclusion hme
    rw [← sdiff_insert] at hr
    simpa [ModifiedSet.updateDescendant] using hr
  · have hk : d∈m.keys := (mem_insert.mp hd).resolve_left hsa
    obtain ⟨hp,S,hS,hc⟩ := hm d hk
    exact ⟨hp,S,hS.trans (hB d),by simpa [ModifiedSet.updateDescendant,hsa] using hc⟩
end ModifiedSet
section
variable {s : TxMemPool} (hs : s.Consistent) {blk pkg : Finset Uint256}
  (hcl : ∀ h∈blk, s.ancestors h⊆blk) (hpk : pkg⊆s.mapTx \ blk)
include hs hcl hpk

/- While the descendants of `it` are updated: those done may lack it, the others not yet. -/
lemma updateDescendantsOf_sound {dn : Finset Uint256} (hit : it∈pkg) (hn : it∉dn)
    {r : Nat×ModifiedSet}
    (hr : r.2.Sound s fun _ => blk ∪ dn) (ho : Disjoint r.2.keys (blk ∪ pkg)) :
    Ensures (fun _ => False)
      (fun r => r.2.Sound s (fun _ => blk ∪ insert it dn) ∧ Disjoint r.2.keys (blk ∪ pkg))
      (updateDescendantsOf s pkg it r) := by
  obtain ⟨hi,hib⟩ := mem_sdiff.mp (hpk hit)
  have hde : s.calculateDescendants it ∅=s.descendants it := hs.children.calculateDescendants_eq hi
  let lacking (di : Finset Uint256) (d : Uint256) : Finset Uint256 :=
    if d∈di then blk ∪ insert it dn else blk ∪ dn
  have hl : ∀ di d, lacking di d⊆blk ∪ insert it dn := by
    intro di d
    unfold lacking
    split <;> grind
  have hm : ∀ di de d, lacking di d⊆lacking (insert de di) d := by
    intro di de d
    grind
  refine (forEach (fun di r => r.2.Sound s (lacking di) ∧
    Disjoint r.2.keys (blk ∪ pkg)) ⟨by simpa [lacking] using hr,ho⟩ ?_).mono
      fun r hr => ⟨hr.1.mono (hl _),hr.2⟩
  intro di de r hd hf _ hr
  obtain ⟨hso,ho⟩ := hr
  rw [hde] at hd
  have hp := (mem_descendants.mp hd).1
  have ha := mem_ancestors_of_mem_descendants hi hd
  refine ite (fun _ => ⟨hso.mono (hm di de),ho⟩) fun had => ?_
  refine ⟨hso.updateDescendant hs hp ha ?_ (hm di de) ?_,?_⟩
  · simp [lacking,hf,hib,hn]
  · simp [lacking]
  -- a descendant in the block would have brought `it` there
  · have hb : de∉blk := fun h => hib (hcl de h ha)
    simp only [ModifiedSet.updateDescendant,disjoint_insert_left]
    exact ⟨by simp [hb,had],ho⟩

lemma updatePackagesForAdded_sound {m : ModifiedSet} (hm : m.Sound s fun _ => blk)
    (ho : Disjoint m.keys (blk ∪ pkg)) :
    Ensures (fun _ => False)
      (fun r => r.2.Sound s (fun _ => blk ∪ pkg) ∧ Disjoint r.2.keys (blk ∪ pkg))
      (updatePackagesForAdded s pkg m) := by
  refine .forEach (fun d (r : Nat×ModifiedSet) => r.2.Sound s (fun _ => blk ∪ d) ∧
    Disjoint r.2.keys (blk ∪ pkg)) ⟨by simpa using hm,ho⟩ ?_
  intro d _ r hi hn _ hr
  exact updateDescendantsOf_sound hs hcl hpk hi hn hr.1 hr.2
end

/-- The block so far: no transaction twice, ancestors first, all final, below the limits, and
counters that are sums over its transactions. -/
structure BlockAssembler.Valid {s : TxMemPool} (c : Assembly s) (a : BlockAssembler) : Prop where
  inBlock : a.inBlock=a.vtx.toFinset
  pool : ∀ h∈a.vtx, h∈s.mapTx
  nodup : a.vtx.Nodup
  closed : ∀ h∈a.vtx, ∀ x∈s.ancestors h, x∈a.vtx
  ordered : a.vtx.Pairwise fun h later => later∉s.ancestors h
  final : ∀ h∈a.vtx, isFinalTx (s.entry h).tx c.nHeight c.lockTimeCutoff
  weight : a.nBlockWeight=4000+(a.vtx.map c.weights.weight).sum
  sigops : a.nBlockSigOpsCost=400+(a.vtx.map fun h => (s.entry h).sigOpCost).sum
  fees : a.nFees=(a.vtx.map fun h => (s.entry h).nFee).sum
  weight_lt : a.vtx≠[] → a.nBlockWeight < c.mOptions.nBlockMaxWeight
  sigops_lt : a.nBlockSigOpsCost<MAX_BLOCK_SIGOPS_COST

namespace Assembly
variable {s : TxMemPool} {c : Assembly s} {a : BlockAssembler} {m : ModifiedSet}

lemma strictWeak_ancestorCount (s : TxMemPool) : StrictWeak (compareTxIterByAncestorCount s) :=
  StrictWeak.byKey (fun h => (s.entry h).withAncestors.nCount)
    (StrictWeak.of_key id fun _ _ => rfl) fun _ _ => rfl

lemma sortForBlock_perm (c : Assembly s) (p : Finset Uint256) : (c.sortForBlock p).Perm p.sort :=
  c.sorting.perm (strictWeak_ancestorCount s) _

variable {pkg : Finset Uint256}

lemma mem_sortForBlock : h∈c.sortForBlock pkg ↔ h∈pkg := by
  rw [(c.sortForBlock_perm pkg).mem_iff,mem_sort]

lemma sortForBlock_nodup (c : Assembly s) (pkg : Finset Uint256) : (c.sortForBlock pkg).Nodup :=
  (c.sortForBlock_perm pkg).nodup_iff.mpr (pkg.sort_nodup _)

/-- An ancestor has fewer ancestors, so it is not sorted behind. -/
lemma sortForBlock_ordered (hs : s.Consistent) (hac : s.Acyclic) (hpg : pkg⊆s.mapTx) :
    (c.sortForBlock pkg).Pairwise fun h later => later∉s.ancestors h := by
  have hsr := c.sorting.sorted (strictWeak_ancestorCount s) pkg.sort
  have hd : (c.sortForBlock pkg).Pairwise (·≠·) := c.sortForBlock_nodup pkg
  refine (hsr.and hd).imp_of_mem fun {h later} hh hl hb ha => ?_
  have hp := hpg (mem_sortForBlock.mp hh)
  have hpo := hpg (mem_sortForBlock.mp hl)
  have hlt := hac.card_ancestors_lt hp ha hb.2.symm
  have hc : (s.entry later).withAncestors.nCount<(s.entry h).withAncestors.nCount := by
    rw [(hs.ancestors later hpo).1,(hs.ancestors h hp).1]
    simpa [totalsOver] using hlt
  have hbe : compareTxIterByAncestorCount s later h := by
    simp [compareTxIterByAncestorCount,hc.ne,hc]
  rw [hbe] at hb
  cases hb.1

lemma addSorted_eq (c : Assembly s) (l : List Uint256) (a : BlockAssembler) (m : ModifiedSet) :
    c.addSorted l a m=
      ({vtx := a.vtx++l
        vTxFees := a.vTxFees++l.map fun h => (s.entry h).nFee
        vTxSigOpsCost := a.vTxSigOpsCost++l.map fun h => (s.entry h).sigOpCost
        nBlockWeight := a.nBlockWeight+(l.map c.weights.weight).sum
        nBlockTx := a.nBlockTx+l.length
        nBlockSigOpsCost := a.nBlockSigOpsCost+(l.map fun h => (s.entry h).sigOpCost).sum
        nFees := a.nFees+(l.map fun h => (s.entry h).nFee).sum
        inBlock := a.inBlock ∪ l.toFinset},
       {m with keys := m.keys \ l.toFinset}) := by
  induction l generalizing a m with
  | nil => simp [addSorted]
  | cons h l ih =>
    have hst : c.addSorted (h::l) a m=
        c.addSorted l (a.addToBlock h (s.entry h) (c.weights.weight h)) (m.erase h) := rfl
    rw [hst,ih]
    simp [BlockAssembler.addToBlock,ModifiedSet.erase,Nat.add_assoc,Int.add_assoc,Nat.add_comm 1,
      sdiff_insert,erase_sdiff_comm]

lemma weight_le (c : Assembly s) (hh : h∈s.mapTx) :
    c.weights.weight h≤WITNESS_SCALE_FACTOR*(s.entry h).nTxSize := by
  rw [c.weights.nTxSize h hh]
  unfold getVirtualTransactionSize WITNESS_SCALE_FACTOR
  omega

lemma sum_sortForBlock {M : Type} [AddCommMonoid M] (c : Assembly s) (pkg : Finset Uint256)
    (f : Uint256 → M) : ((c.sortForBlock pkg).map f).sum=∑ h∈pkg, f h := by
  rw [((c.sortForBlock_perm pkg).map f).sum_eq]
  have hso := congrArg (fun l : Multiset Uint256 => (l.map f).sum) (pkg.sort_eq (·≤·))
  exact hso

lemma addSorted_valid (hs : s.Consistent) (hac : s.Acyclic) (ha : a.Valid c)
    (hpg : pkg=s.ancestors ie \ a.inBlock) (hf : c.testPackageTransactions pkg)
    (hw : a.nBlockWeight+WITNESS_SCALE_FACTOR*(∑ h∈pkg, (s.entry h).nTxSize)<
      c.mOptions.nBlockMaxWeight)
    (hsi : a.nBlockSigOpsCost+∑ h∈pkg, (s.entry h).sigOpCost<MAX_BLOCK_SIGOPS_COST) :
    (c.addSorted (c.sortForBlock pkg) a m).1.Valid c := by
  have hp : pkg⊆s.mapTx := by
    rw [hpg]
    exact sdiff_subset.trans (ancestors_subset ie)
  have hou : ∀ h∈pkg, h∉a.vtx := by
    intro h hh hm
    rw [hpg,ha.inBlock] at hh
    simp [hm] at hh
  have hn : ∀ h∈pkg, ∀ x∈s.ancestors h, x∈a.vtx ∨ x∈pkg := by
    intro h hh x hx
    rw [hpg] at hh ⊢
    rw [ha.inBlock]
    have := ancestors_trans (mem_sdiff.mp hh).1 hx
    by_cases hi : x∈a.vtx <;> simp [hi,this]
  have hle : ∑ h∈pkg, c.weights.weight h≤WITNESS_SCALE_FACTOR*∑ h∈pkg, (s.entry h).nTxSize := by
    rw [mul_sum]
    exact sum_le_sum fun h hh => c.weight_le (hp hh)
  rw [addSorted_eq]
  constructor
  case inBlock => simp [ha.inBlock]
  case pool =>
    intro h hh
    cases List.mem_append.mp hh with
    | inl ho => exact ha.pool h ho
    | inr had => exact hp (mem_sortForBlock.mp had)
  case nodup =>
    refine List.nodup_append.mpr ⟨ha.nodup,c.sortForBlock_nodup pkg,?_⟩
    intro x hx y hy he
    exact hou y (mem_sortForBlock.mp hy) (he ▸ hx)
  case closed =>
    intro h hh x hx
    rw [List.mem_append,mem_sortForBlock] at hh ⊢
    cases hh with
    | inl ho => exact .inl (ha.closed h ho x hx)
    | inr had => exact hn h had x hx
  case ordered =>
    refine List.pairwise_append.mpr ⟨ha.ordered,sortForBlock_ordered hs hac hp,?_⟩
    intro h hh l hl han
    exact hou l (mem_sortForBlock.mp hl) (ha.closed h hh l han)
  case final =>
    intro h hh
    cases List.mem_append.mp hh with
    | inl ho => exact ha.final h ho
    | inr had => exact of_decide_eq_true hf h (mem_sortForBlock.mp had)
  case weight => simp [ha.weight,Nat.add_assoc]
  case sigops => simp [ha.sigops,Nat.add_assoc]
  case fees => simp [ha.fees]
  case weight_lt =>
    intro _
    simp only [c.sum_sortForBlock]
    omega
  case sigops_lt =>
    simp only [c.sum_sortForBlock]
    exact hsi
end Assembly

structure PackageSearch.Inv {s : TxMemPool} (c : Assembly s) (t : PackageSearch) : Prop where
  valid : t.assembler.Valid c
  sound : t.mapModifiedTx.Sound s fun _ => t.assembler.inBlock
  outside : Disjoint t.mapModifiedTx.keys t.assembler.inBlock
  mi_mem : ∀ h∈t.mi, h∈s.mapTx
  mi_length : t.mi.length ≤ s.mapTx.card

/-- What is left to do: entries outside the block, then what is to be looked at before the next is
added. -/
def PackageSearch.remaining (s : TxMemPool) (t : PackageSearch) : Nat :=
  (s.mapTx \ t.assembler.inBlock).card*(2*s.mapTx.card+1)+t.mi.length+t.mapModifiedTx.keys.card

namespace Assembly
variable {s : TxMemPool} {c : Assembly s} {t : PackageSearch} {a : BlockAssembler}

lemma package_eq (hs : s.Consistent) (hac : s.Acyclic) (hi : ie∈s.mapTx) (ho : ie∉a.inBlock) :
    insert ie (a.onlyUnconfirmed (s.assumeCalculateMemPoolAncestors (s.entry ie) false))=
      s.ancestors ie \ a.inBlock := by
  rw [hs.parents.assumeCalculateMemPoolAncestors_eq hac hi]
  have hse := self_mem_ancestors hi
  ext x
  simp only [BlockAssembler.onlyUnconfirmed,mem_insert,mem_filter,mem_erase,mem_sdiff]
  by_cases hx : x=ie
  · simp [hx,hse,ho]
  · simp [hx]

lemma testPackage_le {o : AssemblerOptions} {sz size : Int} (h : a.testPackage o sz size) :
    a.nBlockWeight+WITNESS_SCALE_FACTOR*sz<o.nBlockMaxWeight ∧
      a.nBlockSigOpsCost+size<MAX_BLOCK_SIGOPS_COST := by
  unfold BlockAssembler.testPackage at h
  split at h
  · cases h
  · split at h
    · cases h
    · omega

variable {fum : Bool}

lemma forget_inv (ht : t.Inv c) (hk : fum → ie∈t.mapModifiedTx.keys) : (t.forget fum ie).Inv c ∧
      (t.forget fum ie).remaining s+(if fum then 1 else 0)≤t.remaining s := by
  cases fum with
  | false => exact ⟨ht,by simp [PackageSearch.forget]⟩
  | true =>
    refine ⟨⟨ht.valid,ht.sound.erase ie,ht.outside.mono_left (erase_subset ..),ht.mi_mem,
      ht.mi_length⟩,?_⟩
    have hc := card_erase_add_one (hk rfl)
    simp only [PackageSearch.forget,PackageSearch.remaining,ModifiedSet.erase,if_true]
    omega

section
variable (hs : s.Consistent)
include hs

lemma addPackage_inv (ht : t.Inv c) (hi : ie∈s.mapTx) (ho : ie∉t.assembler.inBlock)
    {p : Finset Uint256} (hp : p=s.ancestors ie \ t.assembler.inBlock)
    (hv : (c.addSorted (c.sortForBlock p) t.assembler t.mapModifiedTx).1.Valid c) :
    Ensures (fun _ => False) (fun t' => t'.Inv c ∧ t'.remaining s<t.remaining s)
      (c.addPackage p t) := by
  have hsu : p⊆s.mapTx \ t.assembler.inBlock := by
    rw [hp]
    exact sdiff_subset_sdiff (ancestors_subset ie) (subset_refl _)
  have hm : ie∈p := by
    rw [hp]
    exact mem_sdiff.mpr ⟨self_mem_ancestors hi,ho⟩
  have hcl : ∀ h∈t.assembler.inBlock, s.ancestors h⊆t.assembler.inBlock := by
    intro h hh x hx
    rw [ht.valid.inBlock,List.mem_toFinset] at hh ⊢
    exact ht.valid.closed h hh x hx
  have ha : (c.sortForBlock p).toFinset=p := by
    ext h
    rw [List.mem_toFinset,mem_sortForBlock]
  unfold addPackage
  rw [addSorted_eq,ha] at hv ⊢
  have hf : ({t.mapModifiedTx with keys := t.mapModifiedTx.keys \ p} : ModifiedSet).Sound s
      fun _ => t.assembler.inBlock := fun d hd => ht.sound d (mem_sdiff.mp hd).1
  have hap : Disjoint (t.mapModifiedTx.keys \ p) (t.assembler.inBlock ∪ p) := by
    refine disjoint_union_right.mpr ⟨ht.outside.mono_left sdiff_subset,?_⟩
    exact sdiff_disjoint
  refine (updatePackagesForAdded_sound hs hcl hsu hf hap).bind fun r hr => ?_
  refine ⟨⟨hv,hr.1,hr.2,ht.mi_mem,ht.mi_length⟩,?_⟩
  -- the block has grown, which outweighs all that is to be looked at anew
  have hk : r.2.keys.card ≤ s.mapTx.card := card_le_card fun d hd => (hr.1 d hd).1
  have hfe : (s.mapTx \ (t.assembler.inBlock ∪ p)).card<(s.mapTx \ t.assembler.inBlock).card := by
    refine card_lt_card ⟨sdiff_subset_sdiff (subset_refl _) subset_union_left,?_⟩
    intro hb
    have := hb (hsu hm)
    simp [hm] at this
  have hmu := Nat.mul_le_mul_right (2*s.mapTx.card+1) hfe
  simp only [PackageSearch.remaining]
  rw [Nat.succ_mul] at hmu
  omega

lemma package_counts (ht : t.Inv c) (hi : ie∈s.mapTx) (hk : fum → ie∈t.mapModifiedTx.keys) :
    ∃ S⊆t.assembler.inBlock,
      (if fum then t.mapModifiedTx.entry ie else .ofEntry (s.entry ie)).Counts s
        (s.ancestors ie \ S) := by
  cases fum with
  | false => exact ⟨∅,empty_subset _,by simpa using ModifiedEntry.Counts.ofEntry hs hi⟩
  | true => exact (ht.sound ie (hk rfl)).2

variable (ha : s.Acyclic)
include ha

lemma evaluate_inv (ht : t.Inv c) (hi : ie∈s.mapTx)
    (ho : ie∉t.assembler.inBlock) (hk : fum → ie∈t.mapModifiedTx.keys) :
    Ensures (fun _ => False)
      (Sum.elim (fun t' => t'.assembler.Valid c)
        fun t' => t'.Inv c ∧ t'.remaining s+(if fum then 1 else 0)≤t.remaining s)
      (c.evaluate ie fum t) := by
  refine (rejectIf fun h => ho (of_decide_eq_true h)).bind fun _ _ => ?_
  refine ite (fun _ => ht.valid) fun _ => ?_
  obtain ⟨hf,hl⟩ := forget_inv ht hk
  obtain ⟨S,hS,hc⟩ := package_counts hs ht hi hk
  refine .ite (fun _ => ?_) fun hte => ?_
  · refine .ite (fun _ => hf.valid) fun _ => ?_
    exact ⟨⟨hf.valid,hf.sound,hf.outside,hf.mi_mem,hf.mi_length⟩,hl⟩
  simp only [package_eq hs ha hi ho]
  refine .ite (fun _ => ⟨hf,hl⟩) fun hfi => ?_
  simp only [Bool.not_eq_true,Bool.not_eq_false'] at hte hfi
  obtain ⟨hw,hsi⟩ := testPackage_le hte
  -- what was tested includes what is added
  have hsu : s.ancestors ie \ t.assembler.inBlock⊆s.ancestors ie \ S :=
    sdiff_subset_sdiff (subset_refl _) hS
  rw [hc.size] at hw
  rw [hc.sigops] at hsi
  have hsz : ∑ h∈s.ancestors ie \ t.assembler.inBlock, (s.entry h).nTxSize ≤
      ∑ h∈s.ancestors ie \ S, (s.entry h).nTxSize := sum_le_sum_of_subset hsu
  have hco : ∑ h∈s.ancestors ie \ t.assembler.inBlock, (s.entry h).sigOpCost ≤
      ∑ h∈s.ancestors ie \ S, (s.entry h).sigOpCost := sum_le_sum_of_subset hsu
  simp only [totalsOver,sigOpsOver,← Nat.cast_sum] at hw hsi
  have hv := addSorted_valid (m := t.mapModifiedTx) hs ha ht.valid rfl hfi
    (by simp only [WITNESS_SCALE_FACTOR] at hw ⊢; omega) (by omega)
  refine (addPackage_inv hs ht hi ho rfl hv).bind fun t' ht' => ?_
  exact ⟨ht'.1,by have := ht'.2; split <;> omega⟩

lemma round_inv (t : PackageSearch) (ht : t.Inv c) : Ensures (fun _ => False)
      (Sum.elim (fun t' => t'.assembler.Valid c) fun t' => t'.Inv c ∧ t'.remaining s<t.remaining s)
      (c.round t) := by
  have hb : t.mapModifiedTx.keys.Nonempty → Ensures (fun _ => False)
        (Sum.elim (fun t' => t'.assembler.Valid c) fun t' => t'.Inv c ∧
            t'.remaining s<t.remaining s)
        (c.evaluate (c.score.first t.mapModifiedTx) true t) := by
    intro hne
    have hm := c.score.first_mem t.mapModifiedTx hne
    exact evaluate_inv hs ha ht (ht.sound _ hm).1 (disjoint_left.mp ht.outside hm) fun _ => hm
  unfold round
  split
  case h_1 hmi =>
    refine .ite (fun _ => ht.valid) fun hne => ?_
    exact hb (nonempty_iff_ne_empty.mpr hne)
  case h_2 it mi hmi =>
    have hit : it∈s.mapTx := ht.mi_mem it (by simp [hmi])
    have hn : PackageSearch.Inv c {t with mi} := by
      refine ⟨ht.valid,ht.sound,ht.outside,fun h hh => ht.mi_mem h (by simp [hmi,hh]),?_⟩
      have := ht.mi_length
      simp only [hmi,List.length_cons] at this ⊢
      omega
    have hl : ({t with mi} : PackageSearch).remaining s<t.remaining s := by
      simp only [PackageSearch.remaining,hmi,List.length_cons]
      omega
    refine (rejectIf fun h => (of_decide_eq_true h : it∉s.mapTx) hit).bind fun _ _ => ?_
    refine ite (fun _ => ⟨hn,hl⟩) fun hst => ?_
    refine .ite (fun hbe => hb hbe.1) fun _ => ?_
    have hno : it∉t.assembler.inBlock := fun h => hst (.inr (.inl h))
    refine (evaluate_inv hs ha hn hit hno (fun h : false => nomatch h)).mono ?_
    intro n hi
    cases n with
    | inl t' => exact hi
    | inr t' => exact ⟨hi.1,hi.2.trans_lt hl⟩
end

lemma start_inv (c : Assembly s) : c.start.Inv c := by
  refine ⟨?_,fun d hd => absurd hd (notMem_empty d),disjoint_empty_left _,
    fun h hh => (c.score.mem_iff h).mp hh,?_⟩
  · constructor
    all_goals simp [start,BlockAssembler.resetBlock,MAX_BLOCK_SIGOPS_COST]
  · have hse : c.score.mapTx.toFinset=s.mapTx := by
      ext h
      rw [List.mem_toFinset,c.score.mem_iff]
    rw [← hse,List.toFinset_card_of_nodup c.score.nodup]
    exact le_refl _

def enoughRounds (s : TxMemPool) : Nat := s.mapTx.card*(2*s.mapTx.card+1)+s.mapTx.card+1

lemma ancestor_before (ha : a.Valid c) {bef aft : List Uint256}
    {x : Uint256} (hv : a.vtx=bef++h::aft) (hx : x∈s.ancestors h) (hn : x≠h) : x∈bef := by
  have hm := ha.closed h (by simp [hv]) x hx
  have ho := ha.ordered
  rw [hv] at hm ho
  have hr := (List.pairwise_cons.mp (List.pairwise_append.mp ho).2.1).1
  cases List.mem_append.mp hm with
  | inl hb => exact hb
  | inr ht =>
    cases List.mem_cons.mp ht with
    | inl he => exact absurd he hn
    | inr haf => exact absurd hx (hr x haf)

/-- Block assembly ends without a failed assert. The selected list has no duplicates, ancestors come
first, all are final, the fees are summed up, and the limits are kept; only the weight limit is not
strict when nothing is selected, because the options may leave no more than the reserved weight. -/
theorem addPackageTxs_valid (hs : s.Consistent) (hacyclic : s.Acyclic) (c : Assembly s) :
    ∃ t : PackageSearch, (∀ rounds, enoughRounds s ≤ rounds → c.addPackageTxs rounds=some (.ok t)) ∧
      t.assembler.vtx.Nodup ∧ (∀ h∈t.assembler.vtx, h∈s.mapTx) ∧
      (∀ before h after, t.assembler.vtx=before++h::after →
        ∀ x∈s.ancestors h, x≠h → x∈before) ∧
      (∀ h∈t.assembler.vtx, isFinalTx (s.entry h).tx c.nHeight c.lockTimeCutoff) ∧
      t.assembler.nBlockWeight=4000+(t.assembler.vtx.map c.weights.weight).sum ∧
      (t.assembler.vtx≠[] → t.assembler.nBlockWeight < c.mOptions.nBlockMaxWeight) ∧
      t.assembler.nBlockWeight ≤ c.mOptions.nBlockMaxWeight ∧
      t.assembler.nBlockSigOpsCost=400+(t.assembler.vtx.map fun h => (s.entry h).sigOpCost).sum ∧
      t.assembler.nBlockSigOpsCost<MAX_BLOCK_SIGOPS_COST ∧
      t.assembler.nFees=(t.assembler.vtx.map fun h => (s.entry h).nFee).sum := by
  have hst : c.start.remaining s<enoughRounds s := by
    have := (c.start_inv).mi_length
    simp only [PackageSearch.remaining,start,ModifiedSet.empty,BlockAssembler.resetBlock,
      sdiff_empty,card_empty,enoughRounds] at this ⊢
    omega
  obtain ⟨r,hr,hv⟩ := runRounds_ensures (round_inv hs hacyclic) c.start_inv hst
  obtain ⟨t,rfl,ha⟩ := hv.exists_ok fun _ h => h.elim
  refine ⟨t,fun rounds hl => runRounds_of_le hr hl,ha.nodup,ha.pool,
    fun before h after hvt x => ancestor_before ha hvt,ha.final,ha.weight,ha.weight_lt,?_,ha.sigops,
    ha.sigops_lt,ha.fees⟩
  by_cases he : t.assembler.vtx=[]
  · have hw := ha.weight
    rw [he] at hw
    rw [hw]
    exact le_max_left ..
  · exact (ha.weight_lt he).le

section
def scoreByHash (s : TxMemPool) : AncestorScore s where
  mapTx := s.mapTx.sort
  nodup := s.mapTx.sort_nodup _
  mem_iff _ := mem_sort _
  first m := if h : m.keys.Nonempty then m.keys.min' h else 0
  first_mem m h := by
    rw [dif_pos h]
    exact m.keys.min'_mem h
  better _ _ := false

def plainAssembly {s : TxMemPool} (weights : EntryWeights s) (nBlockMaxWeight : Nat) :
    Assembly s where
  options := {nBlockMaxWeight, getFee := fun _ => 0}
  nHeight := 1
  lockTimeCutoff := 0
  weights := weights
  score := scoreByHash s
  sorting := .merge

def noWeights : EntryWeights .empty := ⟨fun _ => 0,0,fun h hh => absurd hh (notMem_empty h)⟩

/-- With the smallest weight option the reserved weight alone is not below the limit. -/
theorem plainAssembly_reserved : TxMemPool.empty.Consistent ∧
    ∃ t, (plainAssembly noWeights 4000).addPackageTxs 1=some (.ok t) ∧
      ¬4000+(t.assembler.vtx.map noWeights.weight).sum<(plainAssembly noWeights
      4000).mOptions.nBlockMaxWeight := by
  refine ⟨TxMemPool.poolInvariant_empty.toConsistent,
      (plainAssembly noWeights 4000).start,?_,by decide⟩
  simp only [addPackageTxs,runRounds,round,start,plainAssembly,scoreByHash,
      TxMemPool.empty,sort_empty]
  rfl

/- A parent and its child, in whichever order the scores offer them. -/
theorem addPackageTxs_valid_parent_and_child :
    ∃ (s : TxMemPool) (c : Assembly s) (t : PackageSearch),
    s.mapTx={2,1} ∧ c.addPackageTxs (enoughRounds s)=some (.ok t) ∧
      (∀ before after, t.assembler.vtx=before++2::after → 1∈before) ∧
      (t.assembler.vtx≠[] → 4000+(t.assembler.vtx.map c.weights.weight).sum<3996000) ∧
      t.assembler.nFees=(t.assembler.vtx.map fun h => (s.entry h).nFee).sum := by
  obtain ⟨p,s,hp,hs,hi⟩ := TxMemPool.exists_parent_and_child
  have hm : s.mapTx={2,1} := by
    rw [hs.mapTx,hp.mapTx]
    rfl
  have hancestor : 1∈s.ancestors 2 := by
    rw [show s.ancestors 2=insert 2 {1} from hs.ancestors_new (TxMemPool.accepted_childEntry hp)]
    decide
  let weights : EntryWeights s := ⟨fun _ => 400,20,fun h hh => by
    rw [hm,mem_insert,mem_singleton] at hh
    obtain rfl | rfl := hh
    · have hn := hs.new
      rw [show TxMemPool.childEntry.hash=2 from rfl] at hn
      rw [hn]
      rfl
    · have hn := hp.new
      rw [show TxMemPool.parentEntry.hash=1 from rfl] at hn
      rw [hs.old 1 (by rw [hp.mapTx]; exact mem_insert_self _ _),hn]
      rfl⟩
  obtain ⟨t,ht,_,_,horder,_,hweight,hlimit,_,_,_,hfees⟩ :=
    addPackageTxs_valid hi.toConsistent hi.acyclic (plainAssembly weights 4000000)
  refine ⟨s,_,t,hm,ht _ (le_refl _),fun before after hv => ?_,fun hne => ?_,hfees⟩
  · exact horder before 2 after hv 1 hancestor (by decide)
  · have hmax : (plainAssembly weights 4000000).mOptions.nBlockMaxWeight=3996000 := rfl
    rw [hmax,hweight] at hlimit
    exact hlimit hne
end
end Assembly
end Xero
