import Xero.MempoolRemoval

/-! Every operation of the pool keeps its invariant. The removals take out whole sets of
descendants, or a transaction without unconfirmed parents. -/
namespace Xero
open Library Relation Finset Ensures
variable (tx : Transaction)
namespace TxMemPool
variable {s t : TxMemPool} {R : Finset Uint256}

/- The set holds with an entry all its descendants, or with an entry all its ancestors. -/
def Separable (s : TxMemPool) (R : Finset Uint256) : Prop :=
  (∀ r∈R, ∀ c, s.Spends c r → c∈R) ∨ (∀ r∈R, ∀ p, s.Spends r p → p∈R)

section
variable (hre : s.Removed R t)
include hre

lemma Removed.mem_iff {h : Uint256} : h∈t.mapTx ↔ h∈s.mapTx ∧ h∉R := by
  rw [hre.mapTx,mem_sdiff]

lemma Removed.spends_iff {c p : Uint256} : t.Spends c p ↔ s.Spends c p ∧ c∉R ∧ p∉R := by
  have hpr (hc : c∈t.mapTx) : (t.entry c).prevouts=(s.entry c).prevouts := by
    rw [hre.entry c hc]
    rfl
  simp only [Spends]
  constructor
  · rintro ⟨hc,hp,hsp⟩
    rw [hpr hc] at hsp
    obtain ⟨hc,hcR⟩ := hre.mem_iff.mp hc
    obtain ⟨hp,hpR⟩ := hre.mem_iff.mp hp
    exact ⟨⟨hc,hp,hsp⟩,hcR,hpR⟩
  · rintro ⟨⟨hc,hp,hsp⟩,hcR,hpR⟩
    have hc' := hre.mem_iff.mpr ⟨hc,hcR⟩
    rw [hpr hc']
    exact ⟨hc',hre.mem_iff.mpr ⟨hp,hpR⟩,hsp⟩

lemma Removed.reaches_iff (hse : s.Separable R) {c p : Uint256} (hc : c∉R) (hp : p∉R) :
    ReflTransGen t.Spends c p ↔ ReflTransGen s.Spends c p := by
  refine ⟨ReflTransGen.mono (fun _ _ hst => (hre.spends_iff.mp hst).1) _ _,fun h => ?_⟩
  cases hse with
  | inl hdo =>
    induction h using ReflTransGen.head_induction_on with
    | refl => exact .refl
    | head hcd _ ih =>
      have hd := fun hd => hc (hdo _ hd _ hcd)
      exact .head (hre.spends_iff.mpr ⟨hcd,hc,hd⟩) (ih hd)
  | inr hu =>
    induction h with
    | refl => exact .refl
    | tail _ hdp ih =>
      have hd := fun hd => hp (hu _ hd _ hdp)
      exact .tail (ih hd) (hre.spends_iff.mpr ⟨hdp,hd,hp⟩)

lemma Removed.ancestors_eq (hse : s.Separable R) {h : Uint256} (hh : h∉R) :
    t.ancestors h=s.ancestors h \ R := by
  ext a
  rw [mem_ancestors,mem_sdiff,mem_ancestors,hre.mem_iff]
  constructor
  · rintro ⟨⟨ha,haR⟩,hr⟩
    exact ⟨⟨ha,(hre.reaches_iff hse hh haR).mp hr⟩,haR⟩
  · rintro ⟨⟨ha,hr⟩,haR⟩
    exact ⟨⟨ha,haR⟩,(hre.reaches_iff hse hh haR).mpr hr⟩

lemma Removed.descendants_eq (hse : s.Separable R) {h : Uint256} (hh : h∉R) :
    t.descendants h=s.descendants h \ R := by
  ext d
  rw [mem_descendants,mem_sdiff,mem_descendants,hre.mem_iff]
  constructor
  · rintro ⟨⟨hd,hdR⟩,hr⟩
    exact ⟨⟨hd,(hre.reaches_iff hse hdR hh).mp hr⟩,hdR⟩
  · rintro ⟨⟨hd,hr⟩,hdR⟩
    exact ⟨⟨hd,hdR⟩,(hre.reaches_iff hse hdR hh).mpr hr⟩

lemma Removed.totalsOver_eq {C : Finset Uint256} (hC : C⊆t.mapTx) : t.totalsOver C=s.totalsOver C :=
  totalsOver_congr (fun h hh => by rw [hre.entry h (hC hh)])
    fun h hh => by rw [hre.entry h (hC hh)]

lemma Removed.poolInvariant (hs : s.PoolInvariant) (hse : s.Separable R) : t.PoolInvariant := by
  have hm {h} (hh : h∈t.mapTx) := hre.mem_iff.mp hh
  have hf {C} (hC : C⊆t.mapTx) : ∑ h∈C, (t.entry h).modifiedFee=∑ h∈C, (s.entry h).modifiedFee :=
    sum_congr rfl fun h hh => by rw [hre.entry h (hC hh)]
  refine ⟨⟨hre.books,?_,?_,?_,?_⟩,?_,?_,?_⟩
  · intro h hh p
    rw [hre.entry h hh,hre.spends_iff]
    simp [hs.parents h (hm hh).1 p,(hm hh).2]
  · intro h hh c
    rw [hre.entry h hh,hre.spends_iff]
    simp [hs.children h (hm hh).1 c,(hm hh).2]
  · intro h hh
    rw [hre.ancestors_eq hse (hm hh).2]
    have hsu : s.ancestors h \ R⊆t.mapTx := by
      rw [hre.mapTx]
      exact sdiff_subset_sdiff (ancestors_subset h) subset_rfl
    have hsi : t.sigOpsOver (s.ancestors h \ R)=s.sigOpsOver (s.ancestors h \ R) :=
      sigOpsOver_congr fun x hx => by rw [hre.entry x (hsu hx)]
    rw [hre.totalsOver_eq hsu,hsi,hre.entry h hh]
    exact ⟨rfl,rfl⟩
  · intro h hh
    have hsu : s.descendants h \ R⊆t.mapTx := by
      rw [hre.mapTx]
      exact sdiff_subset_sdiff (descendants_subset h) subset_rfl
    rw [hre.descendants_eq hse (hm hh).2,hre.totalsOver_eq hsu,hre.entry h hh]
  · intro h hc
    exact hs.acyclic h (TransGen.mono (fun _ _ hst => (hre.spends_iff.mp hst).1) _ _ hc)
  · intro C hC
    rw [hf hC]
    exact hs.fees C fun h hh => (hm (hC hh)).1
  · intro h hh
    rw [hre.entry h hh]
    exact hs.sigops h (hm hh).1

lemma Removed.sigOpsOver_le : t.sigOpsOver t.mapTx ≤ s.sigOpsOver s.mapTx := by
  have hsa : t.sigOpsOver t.mapTx=s.sigOpsOver t.mapTx :=
    sigOpsOver_congr fun h hh => by rw [hre.entry h hh]
  rw [hsa]
  exact sigOpsOver_mono fun h hh => (hre.mem_iff.mp hh).1
end

/-- What every removal keeps: the invariant, and no entry, spend or cost that was not there. -/
structure Shrunk (s t : TxMemPool) : Prop where
  poolInvariant : t.PoolInvariant
  mapTx : t.mapTx⊆s.mapTx
  spends : ∀ c p, t.Spends c p → s.Spends c p
  sigops : t.sigOpsOver t.mapTx ≤ s.sigOpsOver s.mapTx

lemma Shrunk.refl (hs : s.PoolInvariant) : s.Shrunk s :=
  ⟨hs,subset_rfl,fun _ _ h => h,le_rfl⟩

lemma Shrunk.trans {u : TxMemPool} (h : s.Shrunk t) (h' : t.Shrunk u) : s.Shrunk u :=
  ⟨h'.poolInvariant,h'.mapTx.trans h.mapTx,fun c p hu => h.spends c p (h'.spends c p hu),
    h'.sigops.trans h.sigops⟩

lemma Shrunk.allow {α : Type} {r : MempoolResult α} {p : α → Prop} (h : s.Shrunk t)
    (hr : Ensures (SigOpsOverflow (t.sigOpsOver t.mapTx)) p r) :
    Ensures (SigOpsOverflow (s.sigOpsOver s.mapTx)) p r :=
  hr.allow fun _ he => ⟨he.1,he.2.trans h.sigops⟩

lemma Shrunk.then {r : MempoolResult TxMemPool} (h : s.Shrunk t)
    (hr : Ensures (SigOpsOverflow (t.sigOpsOver t.mapTx)) t.Shrunk r) :
    Ensures (SigOpsOverflow (s.sigOpsOver s.mapTx)) s.Shrunk r :=
  h.allow (hr.mono fun _ hu => h.trans hu)

section
variable (hs : s.PoolInvariant)
include hs

lemma PoolInvariant.clearPrioritisation (h : Uint256) : s.Shrunk (s.clearPrioritisation h) :=
  ⟨⟨⟨⟨hs.hash_eq,hs.spent,hs.indexed,hs.witness,hs.size,hs.fee,hs.usage⟩,
    hs.parents,hs.children,hs.ancestors,hs.descendants⟩,hs.acyclic,hs.fees,hs.sigops⟩,
    subset_rfl,fun _ _ h => h,le_rfl⟩

lemma PoolInvariant.removeStaged_shrunk (hR : R⊆s.mapTx) {upd : Bool}
    (hc : upd=false → ∀ r∈R, ∀ c, s.Spends c r → c∈R) (hse : s.Separable R) :
    Ensures (SigOpsOverflow (s.sigOpsOver s.mapTx)) (fun t => s.Shrunk t ∧ t.mapTx=s.mapTx \ R)
      (s.removeStaged R upd) := by
  refine .mono (hs.removeStaged hR hc) fun t ht => ⟨⟨ht.poolInvariant hs hse,?_,?_,?_⟩,ht.mapTx⟩
  · rw [ht.mapTx]
    exact sdiff_subset
  · exact fun c p h => (ht.spends_iff.mp h).1
  · exact ht.sigOpsOver_le

lemma PoolInvariant.removeDescendants (hR : R⊆s.mapTx) (hc : ∀ r∈R, ∀ c, s.Spends c r → c∈R) :
    Ensures (SigOpsOverflow (s.sigOpsOver s.mapTx)) (fun t => s.Shrunk t ∧ t.mapTx=s.mapTx \ R)
      (s.removeStaged R false) :=
  hs.removeStaged_shrunk hR (fun _ => hc) (.inl hc)

lemma PoolInvariant.removeAllDescendants {its : Finset Uint256} (hits : its⊆s.mapTx) :
    Ensures (SigOpsOverflow (s.sigOpsOver s.mapTx)) s.Shrunk
      (s.removeStaged (s.calculateAllDescendants its) false) := by
  have hm := hs.children.mem_calculateAllDescendants hits
  refine .mono (hs.removeDescendants (fun d hd => ?_) fun r hr c hc => ?_) fun t ht => ht.1
  · obtain ⟨it,_,hd⟩ := (hm d).mp hd
    exact descendants_subset it hd
  · obtain ⟨it,hi,hr⟩ := (hm r).mp hr
    exact (hm c).mpr ⟨it,hi,mem_descendants.mpr ⟨hc.1,.head hc (mem_descendants.mp hr).2⟩⟩

lemma PoolInvariant.removeRecursive (ot : Transaction) :
    Ensures (SigOpsOverflow (s.sigOpsOver s.mapTx)) s.Shrunk (s.removeRecursive ot) := by
  generalize hsp :
    (List.range ot.vout.length).filterMap (fun i => s.mapNextTx ⟨ot.hash,i⟩)=spenders
  have hin : ∀ n∈spenders, n∈s.mapTx := by
    intro n hn
    rw [← hsp] at hn
    obtain ⟨i,_,hi⟩ := List.mem_filterMap.mp hn
    exact ((hs.spent _ _).mp hi).1
  have ha : spenders.any (fun n => decide (n∉s.mapTx))=false := by
    simpa using hin
  unfold TxMemPool.removeRecursive
  simp only [hsp,ha,Bool.and_false]
  refine .bind (.rejectIf (by simp)) fun _ _ => ?_
  apply hs.removeAllDescendants
  split
  case isTrue hp => exact singleton_subset_iff.mpr hp
  case isFalse => exact fun n hn => hin n (List.mem_toFinset.mp hn)

lemma PoolInvariant.removeConflict (ti : TxIn) :
    Ensures (SigOpsOverflow (s.sigOpsOver s.mapTx)) s.Shrunk (s.removeConflict tx ti) := by
  unfold TxMemPool.removeConflict
  cases s.mapNextTx ti.prevout with
  | none => exact pure_ok.mpr (.refl hs)
  | some c =>
    refine ite (fun _ => ?_) fun _ => pure_ok.mpr (.refl hs)
    have hc := hs.clearPrioritisation (s.entry c).hash
    exact hc.then (hc.poolInvariant.removeRecursive _)

lemma PoolInvariant.removeConflicts :
    Ensures (SigOpsOverflow (s.sigOpsOver s.mapTx)) s.Shrunk (s.removeConflicts tx) := by
  have hf (v : List TxIn) : Ensures (SigOpsOverflow (s.sigOpsOver s.mapTx)) s.Shrunk
      (v.foldlM (fun s ti => s.removeConflict tx ti) s) := by
    induction v generalizing s with
    | nil => exact pure_ok.mpr (.refl hs)
    | cons ti v ih =>
      exact .bind (hs.removeConflict tx ti) fun t ht => ht.then (ih ht.poolInvariant)
  exact hf tx.vin

/-- A confirmed transaction goes alone. It has no parent in the pool any more. -/
lemma PoolInvariant.removeConfirmed (hpa : ∀ p, ¬s.Spends tx.hash p) :
    Ensures (SigOpsOverflow (s.sigOpsOver s.mapTx)) (fun t => s.Shrunk t ∧ tx.hash∉t.mapTx)
      (s.removeConfirmed tx) := by
  have hrm : Ensures (SigOpsOverflow (s.sigOpsOver s.mapTx)) (fun t => s.Shrunk t ∧ tx.hash∉t.mapTx)
      (if tx.hash∈s.mapTx then s.removeStaged {tx.hash} true else pure s) := by
    split
    case isTrue hp =>
      refine .mono (hs.removeStaged_shrunk (singleton_subset_iff.mpr hp) (by simp) ?_) ?_
      · refine .inr fun r hr p hrp => ?_
        rw [mem_singleton.mp hr] at hrp
        exact absurd hrp (hpa p)
      · rintro t ⟨ht,hm⟩
        exact ⟨ht,by simp [hm]⟩
    case isFalse hp => exact pure_ok.mpr ⟨.refl hs,hp⟩
  refine .bind hrm ?_
  rintro t ⟨ht,ho⟩
  refine .bind (ht.allow (ht.poolInvariant.removeConflicts tx)) fun u hu => ?_
  have hc := hu.poolInvariant.clearPrioritisation tx.hash
  exact ⟨(ht.trans hu).trans hc,fun hi => ho (hu.mapTx hi)⟩
end

/-- A block of the chain: a parent in the pool of one of its transactions stands earlier in it. -/
def ValidBlock (s : TxMemPool) (vtx : List Transaction) : Prop :=
  ∀ before tx after, vtx=before++tx::after → ∀ p, s.Spends tx.hash p → p∈before.map Transaction.hash

lemma PoolInvariant.removeForBlock (hs : s.PoolInvariant) {vtx : List Transaction}
    (hva : s.ValidBlock vtx) :
    Ensures (SigOpsOverflow (s.sigOpsOver s.mapTx)) s.Shrunk (s.removeForBlock vtx) := by
  -- The transactions that have been treated are no longer in the pool.
  have hf before a (hv : vtx=before++a) t (ht : s.Shrunk t) (hg : ∀ tx∈before, tx.hash∉t.mapTx) :
      Ensures (SigOpsOverflow (s.sigOpsOver s.mapTx)) s.Shrunk
        (a.foldlM (fun s tx => s.removeConfirmed tx) t) := by
    induction a generalizing before t with
    | nil => exact pure_ok.mpr ht
    | cons tx a ih =>
      have hpa : ∀ p, ¬t.Spends tx.hash p := by
        intro p hp
        obtain ⟨pa,hpr,rfl⟩ := List.mem_map.mp (hva before tx a hv p (ht.spends _ _ hp))
        exact hg pa hpr hp.2.1
      refine .bind (ht.allow (ht.poolInvariant.removeConfirmed tx hpa)) ?_
      rintro u ⟨hu,ho⟩
      refine ih (before++[tx]) (by simp [hv]) u (ht.trans hu) fun x hx => ?_
      cases List.mem_append.mp hx with
      | inl hb => exact fun hi => hg x hb (hu.mapTx hi)
      | inr hl => exact List.mem_singleton.mp hl ▸ ho
  exact hf [] vtx rfl s (.refl hs) (by simp)

lemma PoolInvariant.expire (hs : s.PoolInvariant) (ti : Int) :
    Ensures (SigOpsOverflow (s.sigOpsOver s.mapTx)) (fun r => s.Shrunk r.2) (s.expire ti) := by
  exact .bind (hs.removeAllDescendants (filter_subset ..)) fun t ht => ht

lemma PoolInvariant.trimToSize (hs : s.PoolInvariant) (idx : DescendantScoreIndex)
    (dmu : TxMemPool → Nat) (size : Nat) :
    Ensures (SigOpsOverflow (s.sigOpsOver s.mapTx))
      (fun r => s.Shrunk r.2 ∧ (r.2.mapTx=∅ ∨ dmu r.2 ≤ size))
      (s.trimToSize idx dmu size) := by
  have hrd n pvNoSpendsRemaining t (ht : s.Shrunk t) (hn : t.mapTx.card≤n) :
      Ensures (SigOpsOverflow (s.sigOpsOver s.mapTx))
        (fun r => s.Shrunk r.2 ∧ (r.2.mapTx=∅ ∨ dmu r.2 ≤ size))
        (t.trimRounds idx dmu size n pvNoSpendsRemaining) := by
    induction n generalizing pvNoSpendsRemaining t with
    | zero => exact pure_ok.mpr ⟨ht,.inl (card_eq_zero.mp (Nat.le_zero.mp hn))⟩
    | succ n ih =>
      refine ite (fun hm => ?_) fun hd => ?_
      · have hf := idx.first_mem t hm.1
        have hi := ht.poolInvariant
        rw [hi.children.calculateDescendants_eq hf]
        refine bind (ht.allow (hi.removeDescendants (descendants_subset _) ?_)) ?_
        · intro r hr c hc
          exact mem_descendants.mpr ⟨hc.1,.head hc (mem_descendants.mp hr).2⟩
        · rintro u ⟨hu,hum⟩
          refine ih _ u (ht.trans hu) ?_
          have hlt : u.mapTx.card<t.mapTx.card := by
            rw [hum]
            apply card_lt_card
            refine ⟨sdiff_subset,fun hsu => ?_⟩
            have hse : idx.first t∈t.descendants (idx.first t) := mem_descendants.mpr ⟨hf,.refl⟩
            exact (mem_sdiff.mp (hsu hf)).2 hse
          omega
      · refine pure_ok.mpr ⟨ht,?_⟩
        by_cases he : t.mapTx.Nonempty
        · exact .inr (not_lt.mp fun hl => hd ⟨he,hl⟩)
        · exact .inl (not_nonempty_iff_eq_empty.mp he)
  exact hrd _ [] s (.refl hs) le_rfl
end TxMemPool
end Xero
