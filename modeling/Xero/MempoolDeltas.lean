import Xero.Mempool

/-! The fee deltas of PrioritiseTransaction. A delta is added to mapDeltas and to the entry, and the
two additions saturate apart from each other. -/
namespace Xero
open Library

abbrev FitsInt64 (n : Int) : Prop := int64Min≤n ∧ n ≤ int64Max

variable {fee delta nFeeDelta : Int}

lemma saturatingAdd_eq_clamp (h : FitsInt64 delta) (h' : FitsInt64 nFeeDelta) :
    saturatingAdd delta nFeeDelta=max int64Min (min int64Max (delta+nFeeDelta)) := by
  simp only [FitsInt64,saturatingAdd,int64Max,int64Min] at *
  split_ifs <;> omega

lemma saturatingAdd_fits (h : FitsInt64 delta) (h' : FitsInt64 nFeeDelta) :
    FitsInt64 (saturatingAdd delta nFeeDelta) := by
  rw [saturatingAdd_eq_clamp h h']
  simp only [FitsInt64,int64Max,int64Min]
  omega

/-- The next delta keeps a fee and its delta together: the sum has not saturated or goes up again,
and the delta does not saturate below. -/
def KeepsFee (fee delta nFeeDelta : Int) : Prop :=
  (fee+delta ≤ int64Max ∨ 0≤nFeeDelta) ∧ (fee=0 ∨ int64Min≤delta+nFeeDelta)

lemma saturatingAdd_assoc_iff (hf : 0≤fee) (hm : fee≤MAX_MONEY) (hd : FitsInt64 delta)
    (hn : FitsInt64 nFeeDelta) : saturatingAdd (saturatingAdd fee delta) nFeeDelta=
      saturatingAdd fee (saturatingAdd delta nFeeDelta) ↔ KeepsFee fee delta nFeeDelta := by
  have hi : FitsInt64 fee := ⟨le_trans (by decide) hf,le_trans hm (by decide)⟩
  rw [saturatingAdd_eq_clamp (saturatingAdd_fits hi hd) hn,saturatingAdd_eq_clamp hi hd,
    saturatingAdd_eq_clamp hi (saturatingAdd_fits hd hn),saturatingAdd_eq_clamp hd hn]
  simp only [FitsInt64,KeepsFee,int64Max,int64Min] at *
  omega

/-- Every delta of a list keeps the fee and the delta together. -/
def AllKeepFee (fee : Int) : Int → List Int → Prop
  | _, [] => True
  | delta, nFeeDelta::deltas =>
    KeepsFee fee delta nFeeDelta ∧ AllKeepFee fee (saturatingAdd delta nFeeDelta) deltas

namespace TxMemPool
def feeDelta (s : TxMemPool) (hash : Uint256) : Int := (s.mapDeltas hash).getD 0

/- ApplyDelta, where `none` is an addition that overflows. -/
def applyDelta (hash : Uint256) (nFeeDelta : Int) (s : TxMemPool) : Option Int :=
  match s.mapDeltas hash with
  | none => some nFeeDelta
  | some delta =>
    if int64Min≤nFeeDelta+delta ∧ nFeeDelta+delta ≤ int64Max then some (nFeeDelta+delta) else none

def prioritise (hash : Uint256) (deltas : List Int) (s : TxMemPool) : MempoolResult TxMemPool :=
  deltas.foldlM (fun s nFeeDelta => s.prioritiseTransaction hash nFeeDelta) s

/-- Deltas before and after a transaction enters the pool. -/
def prioritiseAround (e : TxMemPoolEntry) (setAncestors : Finset Uint256) (before after : List Int)
    (s : TxMemPool) : MempoolResult TxMemPool := do
  let s ← s.prioritise e.hash before
  let s ← s.addUnchecked e setAncestors
  s.prioritise e.hash after

def FeeFollowsDelta (fee : Int) (hash : Uint256) (s : TxMemPool) : Prop :=
  (s.entry hash).modifiedFee=saturatingAdd fee (s.feeDelta hash)

structure SameFees (s t : TxMemPool) : Prop where
  mapTx : t.mapTx=s.mapTx
  mapDeltas : t.mapDeltas=s.mapDeltas
  modifiedFee : ∀ x, (t.entry x).modifiedFee=(s.entry x).modifiedFee

variable {s t : TxMemPool} {hash i : Uint256} {de : List Int}

lemma SameFees.refl (s : TxMemPool) : SameFees s s := ⟨rfl,rfl,fun _ => rfl⟩

lemma SameFees.update (h : SameFees s t) {e : TxMemPoolEntry} (cachedInnerUsage : Int)
    (he : e.modifiedFee=(t.entry i).modifiedFee) :
    SameFees s {t with entry := Function.update t.entry i e, cachedInnerUsage} := by
  refine ⟨h.mapTx,h.mapDeltas,fun x => ?_⟩
  rw [← h.modifiedFee x]
  by_cases hx : x=i
  · simp [hx,he]
  · simp [hx]

lemma SameFees.modify (h : SameFees s t) {f : TxMemPoolEntry → MempoolResult TxMemPoolEntry}
    (hf : ∀ e, Ensures (fun _ => True) (fun e' => e'.modifiedFee=e.modifiedFee) (f e)) :
    Ensures (fun _ => True) (SameFees s) (t.modify i f) :=
  (hf _).bind fun _ he => h.update _ he

lemma updateDescendantState_fee {size fee c : Int} (e : TxMemPoolEntry) :
    Ensures (fun _ => True) (fun e' => e'.modifiedFee=e.modifiedFee)
      (e.updateDescendantState size fee c) :=
  (Ensures.rejectIf fun _ => trivial).bind fun _ _ =>
    (Ensures.rejectIf fun _ => trivial).bind fun _ _ => rfl

lemma updateAncestorState_fee {size fee c so : Int} (e : TxMemPoolEntry) :
    Ensures (fun _ => True) (fun e' => e'.modifiedFee=e.modifiedFee)
      (e.updateAncestorState size fee c so) :=
  (Ensures.rejectIf fun _ => trivial).bind fun _ _ =>
    (Ensures.rejectIf fun _ => trivial).bind fun _ _ =>
      (Ensures.rejectIf fun _ => trivial).bind fun _ _ => rfl

lemma SameFees.loop (h : SameFees s t) {S : Finset Uint256}
    {b : Uint256 → TxMemPool → MempoolResult TxMemPool}
    (hb : ∀ x u, SameFees s u → Ensures (fun _ => True) (SameFees s) (b x u)) :
    Ensures (fun _ => True) (SameFees s) (forEach S b t) :=
  Ensures.foldlM_keeps (fun u x _ => hb x u) h

lemma SameFees.updateAncestorsOf (h : SameFees s t) {add : Bool} {setAncestors : Finset Uint256} :
    Ensures (fun _ => True) (SameFees s) (t.updateAncestorsOf add i setAncestors) := by
  have hc : Ensures (fun _ => True) (SameFees s) (forEach (t.entry i).parents
      (fun p s => pure (s.updateChild p i add)) t) := h.loop fun _ _ ht => ht.update _ rfl
  exact hc.bind fun _ hu => hu.loop fun _ _ ht => ht.modify updateDescendantState_fee

lemma addUnchecked_fees (s : TxMemPool) (e : TxMemPoolEntry) (setAncestors : Finset Uint256) :
    Ensures (fun _ => True) (SameFees (s.insertEntry e)) (s.addUnchecked e setAncestors) := by
  have hp : Ensures (fun _ => True) (SameFees (s.insertEntry e)) (forEach
      ((s.insertEntry e).parentsInPool e) (fun p s => pure (s.updateParent e.hash p true))
      (s.insertEntry e)) := (SameFees.refl _).loop fun p u hu => hu.update _ rfl
  refine hp.bind fun u hu => hu.updateAncestorsOf.bind fun v hv => ?_
  refine (hv.modify updateAncestorState_fee).bind fun t ht => ?_
  obtain ⟨hm,hd,hf⟩ := ht.update (i := e.hash)
    (e := {t.entry e.hash with vTxHashesIdx := t.vTxHashes.length}) t.cachedInnerUsage rfl
  exact ⟨hm,hd,hf⟩

lemma prioritiseTransaction_spec (s : TxMemPool) (hash : Uint256) (nFeeDelta : Int) :
    Ensures (fun _ => True) (fun t => t.mapTx=s.mapTx ∧
      t.feeDelta hash=saturatingAdd (s.feeDelta hash) nFeeDelta ∧ (hash∈s.mapTx →
        (t.entry hash).modifiedFee=saturatingAdd (s.entry hash).modifiedFee nFeeDelta))
      (s.prioritiseTransaction hash nFeeDelta) := by
  refine .ite (fun _ => ?_) fun hm => ⟨rfl,by simp [feeDelta],fun h => absurd h hm⟩
  let raised : TxMemPool := {s with
    mapDeltas := Function.update s.mapDeltas hash (some (saturatingAdd (s.feeDelta hash) nFeeDelta))
    entry := Function.update s.entry hash ((s.entry hash).updateModifiedFee nFeeDelta)}
  have ha (S : Finset Uint256) : Ensures (fun _ => True) (SameFees raised) (forEach S
      (fun a => modify a (·.updateDescendantState 0 nFeeDelta 0)) raised) :=
    (SameFees.refl raised).loop fun _ _ ht => ht.modify updateDescendantState_fee
  refine (ha _).bind fun u hu => ?_
  refine (hu.loop fun _ _ ht => ht.modify updateAncestorState_fee).mono fun t ht => ?_
  refine ⟨ht.mapTx,?_,fun _ => ?_⟩
  · simp [feeDelta,ht.mapDeltas,raised]
  · simp [ht.modifiedFee,raised,TxMemPoolEntry.updateModifiedFee]

lemma prioritise_feeDelta (hr : s.prioritise hash de=.ok t) :
    t.feeDelta hash=de.foldl saturatingAdd (s.feeDelta hash) := by
  induction de generalizing s with
  | nil =>
    cases hr
    rfl
  | cons nFeeDelta de ih =>
    obtain ⟨u,hu,hr⟩ := bind_eq_ok.mp hr
    rw [ih hr,((prioritiseTransaction_spec s hash nFeeDelta).ok hu).2.1,List.foldl_cons]

lemma foldl_fits (hde : FitsInt64 delta) (hd : ∀ n∈de, FitsInt64 n) :
    FitsInt64 (de.foldl saturatingAdd delta) := by
  induction de generalizing delta with
  | nil => exact hde
  | cons n de ih =>
    rw [List.forall_mem_cons] at hd
    exact ih (saturatingAdd_fits hde hd.1) hd.2

/- The induction is on the deltas that follow; the fee and the delta agree before the first. -/
lemma prioritise_follows_iff (hfe : 0≤fee) (hma : fee≤MAX_MONEY) (hme : hash∈s.mapTx)
    (hde : FitsInt64 (s.feeDelta hash)) (hd : ∀ n∈de, FitsInt64 n)
    (hf : s.FeeFollowsDelta fee hash) (hr : s.prioritise hash de=.ok t) :
    (∀ k u, s.prioritise hash (de.take k)=.ok u → u.FeeFollowsDelta fee hash) ↔
      AllKeepFee fee (s.feeDelta hash) de := by
  induction de generalizing s with
  | nil =>
    refine iff_of_true (fun k u hu => ?_) trivial
    rw [List.take_nil] at hu
    cases hu
    exact hf
  | cons nFeeDelta de ih =>
    rw [List.forall_mem_cons] at hd
    obtain ⟨s',hs',hr⟩ := bind_eq_ok.mp hr
    obtain ⟨hmp,hn,hm⟩ := (prioritiseTransaction_spec s hash nFeeDelta).ok hs'
    have hst : s'.FeeFollowsDelta fee hash ↔ KeepsFee fee (s.feeDelta hash) nFeeDelta := by
      rw [FeeFollowsDelta,hn,hm hme,hf]
      exact saturatingAdd_assoc_iff hfe hma hde hd.1
    have hp (k : Nat) : s.prioritise hash ((nFeeDelta::de).take (k+1))=
        s'.prioritise hash (de.take k) := by
      simp [prioritise,hs',bind,Except.bind]
    have hre (hs : s'.FeeFollowsDelta fee hash) := ih (hmp ▸ hme)
      (hn ▸ saturatingAdd_fits hde hd.1) hd.2 hs hr
    rw [AllKeepFee,← hn,← hst]
    constructor
    · intro ha
      have hs := ha 1 s' (by rw [hp]; rfl)
      exact ⟨hs,(hre hs).mp fun k u hu => ha (k+1) u (hp k ▸ hu)⟩
    · intro ⟨hs,ha⟩ k u hu
      cases k with
      | zero =>
        cases hu
        exact hf
      | succ k => exact (hre hs).mpr ha k u (hp k ▸ hu)

lemma applyDelta_isSome_iff (hf : FitsInt64 fee) :
    (s.applyDelta hash fee).isSome ↔ FitsInt64 (fee+s.feeDelta hash) := by
  rw [applyDelta,feeDelta]
  cases s.mapDeltas hash with
  | none => simpa using hf
  | some delta => simp

/-- A fee keeps following its delta exactly as long as no addition saturates for one of them alone,
and ApplyDelta overflows exactly where the fee with the delta does not fit. -/
theorem modifiedFee_follows_iff {e : TxMemPoolEntry} {setAncestors : Finset Uint256}
    {before after : List Int} (hfee : 0≤e.nFee) (hmax : e.nFee≤MAX_MONEY)
    (hnew : e.modifiedFee=e.nFee) (hdelta : FitsInt64 (s.feeDelta e.hash)) (hbefore : ∀ n∈before, FitsInt64 n)
    (hafter : ∀ n∈after, FitsInt64 n)
    (hrun : s.prioritiseAround e setAncestors before after=.ok t) :
    ((∀ k u, s.prioritiseAround e setAncestors before (after.take k)=.ok u →
        u.FeeFollowsDelta e.nFee e.hash) ↔
      AllKeepFee e.nFee (before.foldl saturatingAdd (s.feeDelta e.hash)) after) ∧
    ∀ s1, s.prioritise e.hash before=.ok s1 → ((s1.applyDelta e.hash e.nFee).isSome ↔
      FitsInt64 (e.nFee+before.foldl saturatingAdd (s.feeDelta e.hash))) := by
  have hi : FitsInt64 e.nFee := ⟨le_trans (by decide) hfee,le_trans hmax (by decide)⟩
  obtain ⟨s1,h1,hrun⟩ := bind_eq_ok.mp hrun
  obtain ⟨s2,h2,hrun⟩ := bind_eq_ok.mp hrun
  have ha := (addUnchecked_fees s1 e setAncestors).ok h2
  have hdelta1 := prioritise_feeDelta h1
  have hdelta2 : s2.feeDelta e.hash=s1.feeDelta e.hash := by
    rw [feeDelta,ha.mapDeltas]
    rfl
  have hf : s2.FeeFollowsDelta e.nFee e.hash := by
    rw [FeeFollowsDelta,hdelta2,ha.modifiedFee,← hnew]
    have he : (s1.insertEntry e).entry e.hash=s1.withDelta e := Function.update_self ..
    rw [he,withDelta]
    by_cases hz : s1.feeDelta e.hash=0
    · rw [hz,saturatingAdd_eq_clamp (hnew ▸ hi) (by decide),add_zero,
        min_eq_right (hnew ▸ hi.2),max_eq_right (hnew ▸ hi.1)]
      exact congrArg _ (if_pos hz)
    · exact congrArg _ (if_neg hz)
  refine ⟨?_,fun u hu => ?_⟩
  · rw [← hdelta1,← hdelta2,← prioritise_follows_iff hfee hmax ?_ ?_ hafter hf hrun]
    · simp only [prioritiseAround,h1,h2,bind,Except.bind]
    · rw [ha.mapTx]
      exact Finset.mem_insert_self _ _
    · rw [hdelta2,hdelta1]
      exact foldl_fits hdelta hbefore
  · rw [applyDelta_isSome_iff hi,prioritise_feeDelta hu]

def oneFeeEntry : TxMemPoolEntry :=
  .make {vin := [], vout := [], hash := 1} 0 1 0 0 4 0 0 (by decide)

theorem modifiedFee_follows_iff_raised : ∃ t, empty.prioritiseAround oneFeeEntry ∅ [5] [-3]=.ok t ∧
      ∀ k u, empty.prioritiseAround oneFeeEntry ∅ [5] (([-3] : List Int).take k)=.ok u →
        u.FeeFollowsDelta 1 1 := by
  have hr : (empty.prioritiseAround oneFeeEntry ∅ [5] [-3]).toBool := by decide +kernel
  cases ht : empty.prioritiseAround oneFeeEntry ∅ [5] [-3] with
  | error e => simp [ht,Except.toBool] at hr
  | ok t =>
    exact ⟨t,rfl,(modifiedFee_follows_iff (by decide) (by decide) rfl (by decide)
        (by decide) (by decide)
      ht).1.mpr (by simp [AllKeepFee,KeepsFee]; decide)⟩

/-- The fee of 1 saturates, and the delta does not: taking the delta back leaves a fee of 0. With the
same delta, ApplyDelta overflows for the fee of 1. -/
theorem modifiedFee_loses_base : ((empty.prioritiseAround oneFeeEntry ∅ []
    [int64Max,-int64Max]).toOption.map
      fun t => ((t.entry 1).modifiedFee,saturatingAdd 1 (t.feeDelta 1)))=some (0,1) ∧
    ((empty.prioritise 1 [int64Max]).toOption.map fun t => t.applyDelta 1 1)=some none := by
  decide +kernel
end TxMemPool
end Xero
