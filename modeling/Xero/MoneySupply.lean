import Xero.BlockTree
import Xero.Library.Simulation
import Mathlib.Algebra.BigOperators.Intervals
import Mathlib.Algebra.Order.BigOperators.Group.Finset
import Mathlib.Tactic.Linarith
import Mathlib.Tactic.Ring

/-! No inflation. Over any run of connected and disconnected blocks the coins of the view
are worth at most the subsidies up to the tip, and those never pass MAX_MONEY. -/
namespace Xero
open Library List Function BlockTree

def valueAt (U : PlainMap) (o : OutPoint) : Int := ((U o).map (fun c => c.out.nValue)).getD 0

/-- Every outpoint that some level of the view has an entry for. -/
def CoinsView.outpoints : CoinsView → Finset OutPoint
  | .flat coins _ => coins.keys.toFinset
  | .cache m _ b => m.keys.toFinset ∪ b.outpoints

/-- The sum of nValue over all unspent coins. -/
def CoinsViewCache.totalValue (c : CoinsViewCache) : Int :=
  ∑ o∈c.toView.outpoints, valueAt c.coinAt o

lemma CoinsView.coinAt_of_not_mem_outpoints {v : CoinsView} {o : OutPoint}
    (h : o∉v.outpoints) : v.coinAt o=none := by
  induction v with
  | flat c be =>
    have hl : c.lookup o=none := by
      rw [AList.lookup_eq_none]
      simpa [outpoints,AList.mem_keys] using h
    simp [coinAt,hl]
  | cache m hb b ih =>
    simp only [outpoints,Finset.mem_union,not_or] at h
    have hl : m.lookup o=none := by
      rw [AList.lookup_eq_none]
      simpa [AList.mem_keys] using h.1
    rw [coinAt_of_lookup_none hl]
    exact ih h.2

def SupplyAtMost (U : PlainMap) (bound : Int) : Prop :=
  ∃ S : Finset OutPoint, (∀ o, o∉S → U o=none) ∧ ∑ o∈S, valueAt U o≤bound

lemma valueAt_of_none {U : PlainMap} {o : OutPoint} (h : U o=none) : valueAt U o=0 := by
  simp [valueAt,h]

lemma sum_valueAt_eq {U : PlainMap} {S T : Finset OutPoint} (hS : ∀ o, o∉S → U o=none)
    (hT : ∀ o, o∉T → U o=none) : ∑ o∈S, valueAt U o=∑ o∈T, valueAt U o := by
  have hs : ∀ V W : Finset OutPoint, (∀ o, o∉V → U o=none) →
      ∑ o∈V, valueAt U o=∑ o∈V ∪ W, valueAt U o := fun V W hV =>
    Finset.sum_subset Finset.subset_union_left (fun o _ ho => valueAt_of_none (hV o ho))
  rw [hs S T hS,hs T S hT,Finset.union_comm]

variable {bo : Int}

lemma CoinsViewCache.totalValue_le {c : CoinsViewCache}
    (h : SupplyAtMost c.coinAt bo) : c.totalValue≤bo := by
  obtain ⟨S,hS,hs⟩ := h
  have ha : ∀ o, o∉c.toView.outpoints → c.coinAt o=none := fun o ho =>
    CoinsView.coinAt_of_not_mem_outpoints ho
  rw [totalValue,sum_valueAt_eq ha hS]
  exact hs

variable {tx : Transaction} {nH : Nat} {undo : TxUndo} {U : PlainMap}

lemma Transaction.Fits.valueAt_applyTo (hf : tx.Fits nH undo U) (o : OutPoint) :
    valueAt (tx.applyTo nH U) o=
      valueAt (tx.creates nH) o+(valueAt U o-if o∈tx.spends then valueAt U o else 0) := by
  cases hc : tx.creates nH o with
  | none => by_cases hs : o∈tx.spends <;> simp [valueAt,applyTo,hc,hs]
  | some d =>
    by_cases hs : o∈tx.spends
    · simp [valueAt,applyTo,hc,hs]
    · simp [valueAt,applyTo,hc,hs,hf.fresh o (by simp [hc]) hs]

lemma Transaction.Fits.sum_spends (hf : tx.Fits nH undo U) :
    ∑ o∈tx.spends.toFinset, valueAt U o=valueOfCoins undo := by
  rw [sum_toFinset _ hf.nodup]
  have hm : tx.spends.map (valueAt U)=
      (tx.spends.map U).map (fun c => (c.map (fun c : Coin => c.out.nValue)).getD 0) := by
    rw [map_map]
    rfl
  rw [hm,hf.spent,map_map]
  rfl

lemma Transaction.nodup_outpoints (tx : Transaction) : tx.outpoints.Nodup :=
  nodup_range.map (fun _ _ h => (OutPoint.mk.inj h).2)

lemma Transaction.sum_creates_le (hv : ∀ out∈tx.vout, 0≤out.nValue) :
    ∑ o∈tx.outpoints.toFinset, valueAt (tx.creates nH) o≤valueOf tx.vout := by
  have hva : valueOf tx.vout=
      ((range tx.vout.length).map (fun i => (tx.vout[i]?.map TxOut.nValue).getD 0)).sum := by
    rw [valueOf]
    congr 1
    refine ext_getElem (by simp) (fun i h1 h2 => ?_)
    have hi : i<tx.vout.length := by simpa using h1
    simp [hi]
  rw [sum_toFinset _ tx.nodup_outpoints,hva,outpoints,map_map]
  refine sum_le_sum (fun i hi => ?_)
  have hi : i<tx.vout.length := by simpa using hi
  have hn := hv tx.vout[i] (getElem_mem hi)
  cases hu : isUnspendable tx.vout[i].scriptPubKey with
  | true => simp [valueAt,creates,outpoint,storedCoin,hi,hu,hn]
  | false => simp [valueAt,creates,outpoint,storedCoin,hi,hu]

/-- One transaction changes the supply by its outputs less its inputs, at most. -/
lemma Transaction.Fits.supply (hf : tx.Fits nH undo U)
    (hv : ∀ out∈tx.vout, 0≤out.nValue) (h : SupplyAtMost U bo) :
    SupplyAtMost (tx.applyTo nH U) (bo-valueOfCoins undo+valueOf tx.vout) := by
  obtain ⟨S,hS,_⟩ := h
  have hc : ∀ o, o∉tx.outpoints.toFinset → tx.creates nH o=none := by
    intro o ho
    by_contra hn
    exact ho (mem_toFinset.mpr (mem_outpoints_of_creates (Option.isSome_iff_ne_none.mpr hn)))
  let T := S ∪ tx.outpoints.toFinset ∪ tx.spends.toFinset
  have hST : S⊆T := fun o ho => by simp [T,ho]
  have hOT : tx.outpoints.toFinset⊆T := fun o ho => by
    simp only [T,Finset.mem_union]
    exact .inl (.inr ho)
  have hIT : tx.spends.toFinset⊆T := fun o ho => by
    simp only [T,Finset.mem_union]
    exact .inr ho
  refine ⟨T,fun o ho => ?_,?_⟩
  · have h1 : U o=none := hS o (fun h => ho (hST h))
    have h2 : tx.creates nH o=none := hc o (fun h => ho (hOT h))
    simp [applyTo,h1,h2]
  · have hsp : ∑ o∈T, (if o∈tx.spends then valueAt U o else 0)=valueOfCoins undo := by
      rw [← hf.sum_spends,← Finset.sum_subset hIT
        (fun o _ ho => if_neg (fun hs => ho (mem_toFinset.mpr hs)))]
      exact Finset.sum_congr rfl (fun o ho => if_pos (mem_toFinset.mp ho))
    have hcr : ∑ o∈T, valueAt (tx.creates nH) o≤valueOf tx.vout := by
      rw [← Finset.sum_subset hOT (fun o _ ho => valueAt_of_none (hc o ho))]
      exact sum_creates_le hv
    have hol : ∑ o∈T, valueAt U o=∑ o∈S, valueAt U o :=
      (Finset.sum_subset hST (fun o _ ho => valueAt_of_none (hS o ho))).symm
    calc
      ∑ o∈T, valueAt (tx.applyTo nH U) o =∑ o∈T, valueAt (tx.creates nH) o+
            (∑ o∈T, valueAt U o-∑ o∈T, if o∈tx.spends then valueAt U o else 0) := by
        rw [← Finset.sum_sub_distrib,← Finset.sum_add_distrib]
        exact Finset.sum_congr rfl (fun o _ => hf.valueAt_applyTo o)
      _≤bo-valueOfCoins undo+valueOf tx.vout := by
        linarith

lemma TxLog.Fits.supply {log : TxLog} (hf : log.Fits nH U)
    (hc : ∀ p∈log, p.1.isCoinBase=false) (hv : ∀ p∈log, ∀ out∈p.1.vout, 0≤out.nValue)
    (h : SupplyAtMost U bo) : SupplyAtMost (log.applyTo nH U) (bo-log.fees) := by
  induction log generalizing U bo with
  | nil => simpa [TxLog.applyTo,TxLog.fees] using h
  | cons p log ih =>
    obtain ⟨tx,undo⟩ := p
    have ho := hf.1.supply (hv _ mem_cons_self) h
    have hr := ih hf.2 (fun q hq => hc q (mem_cons_of_mem _ hq))
      (fun q hq => hv q (mem_cons_of_mem _ hq)) ho
    have hfe : bo-valueOfCoins undo+valueOf tx.vout-TxLog.fees log=
        bo-TxLog.fees ((tx,undo)::log) := by
      have hc0 : tx.isCoinBase=false := hc _ mem_cons_self
      rw [TxLog.fees_cons,Transaction.fee,hc0]
      simp only [Bool.false_eq_true,if_false]
      ring
    rw [hfe] at hr
    exact hr

variable {params : ConsensusParams} {block : Block} {pi : BlockIndex} {bu : BlockUndo}

lemma SupplyAtMost.mono {b b' : Int} (h : SupplyAtMost U b) (hb : b≤b') : SupplyAtMost U b' :=
  h.imp (fun _ hS => ⟨hS.1,hS.2.trans hb⟩)

lemma Connected.supply (hc : Connected params block pi U bu) (h : SupplyAtMost U bo) :
    SupplyAtMost (block.applyTo pi.nHeight U)
      (bo+getBlockSubsidy pi.nHeight params) := by
  obtain ⟨c,_,hv,_,hr,-,_⟩ := hc.vtx
  have hf := hc.fits
  have hn := hc.nonneg
  rw [← hc.applyTo_log]
  rw [hv,zip_cons_cons] at hf ⊢
  rw [hv] at hn
  have hfs := hf.1.supply (hn c mem_cons_self) h
  have ho := hf.2.supply (fun p hp => hr p.1 (of_mem_zip hp).1)
    (fun p hp => hn p.1 (mem_cons_of_mem _ (of_mem_zip hp).1)) hfs
  refine ho.mono ?_
  have he : valueOfCoins []=0 := rfl
  linarith

section
def subsidyUpTo (params : ConsensusParams) (n : Nat) : Int :=
  ∑ i∈Finset.Icc 1 n, getBlockSubsidy i params

lemma subsidyUpTo_succ (params : ConsensusParams) (n : Nat) :
    subsidyUpTo params (n+1)=subsidyUpTo params n+getBlockSubsidy (n+1) params := by
  rw [subsidyUpTo,Finset.sum_Icc_succ_top (by omega)]
  rfl

def shifted (k : Nat) : Int := (10*COIN) >>> k

lemma shifted_nonneg (k : Nat) : 0 ≤ shifted k := by
  rw [shifted,Int.shiftRight_eq_div_pow]
  exact Int.ediv_nonneg (by decide) (by positivity)

lemma two_mul_shifted_succ_le (k : Nat) : 2*shifted (k+1) ≤ shifted k := by
  rw [shifted,Int.shiftRight_add,← shifted,Int.shiftRight_eq_div_pow]
  omega

lemma getBlockSubsidy_le (h : params.nSubsidyHalvingInterval=5000) (n : Nat) :
    getBlockSubsidy n params ≤ shifted (n/5000) := by
  simp only [getBlockSubsidy,h]
  split
  · exact shifted_nonneg _
  · exact le_refl _

lemma getBlockSubsidy_nonneg (params : ConsensusParams) (n : Nat) : 0≤getBlockSubsidy n params := by
  simp only [getBlockSubsidy]
  split
  · exact le_refl 0
  · exact shifted_nonneg _

/-- What the periods still to come can pay is set aside from the start. -/
lemma subsidy_potential (h : params.nSubsidyHalvingInterval=5000) (n : Nat) :
    ∑ i∈Finset.range n, getBlockSubsidy i params+
      (10000-((n%5000 : Nat) : Int))*shifted (n/5000)≤MAX_MONEY := by
  induction n with
  | zero =>
    rw [Finset.sum_range_zero]
    decide
  | succ n ih =>
    rw [Finset.sum_range_succ]
    have ho := getBlockSubsidy_le h n
    by_cases hr : n%5000+1<5000
    · have hm : (n+1)%5000=n%5000+1 := by omega
      have hd : (n+1)/5000=n/5000 := by omega
      have hs : (10000-((n%5000+1 : Nat) : Int))*shifted (n/5000)=
          (10000-((n%5000 : Nat) : Int))*shifted (n/5000)-shifted (n/5000) := by
        push_cast
        ring
      rw [hm,hd]
      linarith
    · have hm : (n+1)%5000=0 := by omega
      have hd : (n+1)/5000=n/5000+1 := by omega
      have hl : n%5000=4999 := by omega
      have hh := two_mul_shifted_succ_le (n/5000)
      rw [hm,hd]
      rw [hl] at ih
      push_cast at ih ⊢
      linarith

lemma subsidyUpTo_le (h : params.nSubsidyHalvingInterval=5000) (n : Nat) :
    subsidyUpTo params n≤MAX_MONEY := by
  have hs : Finset.Icc 1 n⊆Finset.range (n+1) := by
    intro i hi
    simp only [Finset.mem_Icc,Finset.mem_range] at hi ⊢
    omega
  have hl : subsidyUpTo params n≤∑ i∈Finset.range (n+1), getBlockSubsidy i params :=
    Finset.sum_le_sum_of_subset_of_nonneg hs (fun i _ _ => getBlockSubsidy_nonneg params i)
  have hr : 0≤(10000-(((n+1)%5000 : Nat) : Int))*shifted ((n+1)/5000) :=
    mul_nonneg (by omega) (shifted_nonneg _)
  have hp := subsidy_potential h (n+1)
  linarith
end

structure ChainState where
  view : CoinsViewCache
  tip : Uint256
  undo : Uint256 → Option BlockUndo

/-- WriteUndoDataForBlock: undo data that exists is kept. -/
def writeUndoDataForBlock (undo : Uint256 → Option BlockUndo) (hash : Uint256)
    (blockundo : BlockUndo) : Uint256 → Option BlockUndo :=
  if (undo hash).isNone then update undo hash (some blockundo) else undo

inductive ChainStep where
  | connect (hash : Uint256)
  | disconnect

/-- One call of ConnectBlock, or of DisconnectBlock on the tip; `none` when it fails. -/
def ChainState.step (env : ConnectEnv) (tree : BlockTree) (s : ChainState) : ChainStep →
    Option ChainState
  | .connect hash =>
    match env.connectBlock (tree.block hash) (tree.index hash) s.view with
    | .ok (view,some blockundo) => some ⟨view,hash,writeUndoDataForBlock s.undo hash blockundo⟩
    | .ok (view,none) => some ⟨view,hash,s.undo⟩
    | .error _ => none
  | .disconnect =>
    match disconnectBlock (tree.block s.tip) (s.undo s.tip) (tree.index s.tip) s.view with
    | .ok (_,view) => some ⟨view,(tree.index s.tip).prevHash,s.undo⟩
    | .error _ => none

/-- A view at genesis: no coins, as the genesis coinbase is never added. -/
structure ChainState.AtGenesis (env : ConnectEnv) (tree : BlockTree) (s : ChainState) : Prop where
  wf : s.view.WF
  coins : ∀ o, s.view.coinAt o=none
  best : s.view.getBestBlock.2=env.params.hashGenesisBlock
  tip : s.tip=env.params.hashGenesisBlock
  undo : ∀ h, s.undo h=none
  nonnull : env.params.hashGenesisBlock≠0
  root : (tree.index env.params.hashGenesisBlock).pprev=[]

/-- The coins are those of the branch of the tip, and the undo files hold what ConnectBlock
produced on the branch of each block. -/
structure ChainState.Inv (env : ConnectEnv) (tree : BlockTree) (s : ChainState) : Prop where
  wf : s.view.WF
  best : s.view.getBestBlock.2=s.tip
  nonnull : s.tip≠0
  coins : s.view.coinAt=tree.utxoAt s.tip
  stored : AllStored (tree.utxoAt s.tip)
  supply : SupplyAtMost (tree.utxoAt s.tip) (subsidyUpTo env.params (tree.index s.tip).nHeight)
  undo : ∀ h u, s.undo h=some u → BlockTree.Recorded env.params tree h u ∧
    SupplyAtMost (tree.utxoAt (tree.index h).prevHash)
      (subsidyUpTo env.params (tree.index (tree.index h).prevHash).nHeight)

lemma ChainState.AtGenesis.inv {env : ConnectEnv} {tree : BlockTree} {s : ChainState}
    (h : s.AtGenesis env tree) : s.Inv env tree := by
  have hr : (tree.index s.tip).pprev=[] := by rw [h.tip,h.root]
  have hc : s.view.coinAt=tree.utxoAt s.tip := by
    funext o
    rw [h.coins o,utxoAt_root hr o]
  refine ⟨h.wf,h.best.trans h.tip.symm,h.tip ▸ h.nonnull,hc,fun o c ho => ?_,?_,fun k u hu => ?_⟩
  · cases (utxoAt_root hr o).symm.trans ho
  · refine ⟨∅,fun o _ => utxoAt_root hr o,?_⟩
    rw [BlockIndex.nHeight,hr]
    exact le_refl 0
  · cases (h.undo k).symm.trans hu

lemma getBestBlock_of_hashBlock {c : CoinsViewCache} {h : Uint256} (hh : c.hashBlock=h)
    (hn : h≠0) : c.getBestBlock.2=h := by
  rw [CoinsViewCache.getBestBlock,if_neg (by rw [hh]; exact hn)]
  exact hh

variable {env : ConnectEnv} {tree : BlockTree} {s s' : ChainState}

lemma ChainState.Inv.connect (hbi : env.params.BIP34Hash=0)
    (hre : ∀ h, isBIP30Repeat (tree.index h)=false)
    (hro : (tree.index env.params.hashGenesisBlock).pprev=[]) (hs : s.Inv env tree) {hash : Uint256}
    (h : s.step env tree (.connect hash)=some s') : s'.Inv env tree := by
  -- the assert on the best block puts the new block on top of the tip
  cases hc : env.connectBlock (tree.block hash) (tree.index hash) s.view with
  | error e => simp [step,hc] at h
  | ok r =>
    obtain ⟨v,undo⟩ := r
    have hf := hc
    simp only [ConnectEnv.connectBlock,bind_eq_ok,rejectIf_eq_ok] at hf
    obtain ⟨-,hh,_,-,-,hbe,-⟩ := hf
    have hpr : (tree.index hash).prevHash=s.tip := by
      rw [← hs.best]
      simpa using hbe
    have hne : (tree.index hash).pprev≠[] := by
      intro he
      rw [BlockIndex.prevHash,he] at hpr
      exact hs.nonnull hpr.symm
    have hg : (tree.block hash).hash≠env.params.hashGenesisBlock := by
      have hb : hash=(tree.block hash).hash := by
        rw [tree.index_hash] at hh
        simpa using hh
      rw [← hb]
      rintro rfl
      exact hne hro
    have hn : 0∉hash::(tree.index hash).pprev := tree.nonnull hash hne
    have hen := enforceBIP30_of_null hbi (hre hash) (fun h0 => hn (mem_cons_of_mem _ h0))
    obtain ⟨bu,rfl,-,-,hco,hw,hm,hbl⟩ := connectBlock_ok hs.wf hg hen hc
    obtain ⟨p,_,hp⟩ := exists_cons_of_ne_nil hne
    rw [prevHash_of_prev hp] at hpr
    rw [hs.coins] at hco hm
    have hr : BlockTree.Recorded env.params tree hash bu := by
      refine ⟨?_,?_⟩
      · rw [prevHash_of_prev hp,hpr]
        exact hco
      · rw [prevHash_of_prev hp,hpr]
        exact hs.stored
    have hu : v.coinAt=tree.utxoAt hash := by
      rw [hm,utxoAt_of_prev hp,hpr]
    have hnn : hash≠0 := fun h0 => hn (by simp [h0])
    simp only [step,hc,Option.some.injEq] at h
    subst h
    refine ⟨hw,getBestBlock_of_hashBlock (hbl.trans (tree.index_hash hash)) hnn,hnn,hu,
      hr.stored_self,?_,fun k u hk => ?_⟩
    · have hsu := hco.supply hs.supply
      rw [utxoAt_of_prev hp]
      rw [nHeight_of_prev hp,hpr] at hsu ⊢
      rw [subsidyUpTo_succ]
      exact hsu
    · have hnw : s.undo k=some u ∨ k=hash ∧ u=bu := by
        simp only [writeUndoDataForBlock] at hk
        split at hk
        · by_cases hkh : k=hash
          · subst hkh
            simp only [update_self,Option.some.injEq] at hk
            exact .inr ⟨rfl,hk.symm⟩
          · rw [update_of_ne hkh] at hk
            exact .inl hk
        · exact .inl hk
      obtain ho | ⟨rfl,rfl⟩ := hnw
      · exact hs.undo k u ho
      · refine ⟨hr,?_⟩
        rw [prevHash_of_prev hp,hpr]
        exact hs.supply

lemma ChainState.Inv.disconnect (hs : s.Inv env tree)
    (h : s.step env tree .disconnect=some s') : s'.Inv env tree := by
  cases hu : s.undo s.tip with
  | none => simp [step,hu,disconnectBlock] at h
  | some undo =>
    obtain ⟨hr,hsu⟩ := hs.undo s.tip undo hu
    obtain ⟨_,v,hd,hw,hm,hbl,-⟩ := disconnectBlock_spec hs.wf (hr.connected.undoShape hr.stored)
    obtain ⟨p,_,hp⟩ := exists_cons_of_ne_nil hr.connected.hasPrev
    have hn : (tree.index s.tip).prevHash≠0 := by
      rw [prevHash_of_prev hp]
      exact prev_nonnull hp
    have hb : v.coinAt=tree.utxoAt (tree.index s.tip).prevHash := by
      rw [hm,hs.coins,hr.utxoAt_eq,← hr.connected.applyTo_log]
      exact TxLog.revertOn_applyTo _ _ _ hr.connected.fits
    simp only [step,hu,hd,Option.some.injEq] at h
    subst h
    exact ⟨hw.wf,getBestBlock_of_hashBlock hbl hn,hn,hb,hr.stored,hsu,hs.undo⟩

/-- Whatever is connected and disconnected from genesis, the coins of the view are worth at
most the subsidies of the blocks up to the tip, and these stay within MAX_MONEY. -/
theorem no_inflation (env : ConnectEnv) (tree : BlockTree)
    (hinterval : env.params.nSubsidyHalvingInterval=5000) (hbip : env.params.BIP34Hash=0)
    (hrep : ∀ h, isBIP30Repeat (tree.index h)=false) (start : ChainState)
    (hstart : start.AtGenesis env tree) (steps : List ChainStep) (s : ChainState)
    (h : steps.foldlM (ChainState.step env tree) start=some s) :
    s.view.totalValue ≤ subsidyUpTo env.params (tree.index s.tip).nHeight ∧
      ∀ n, subsidyUpTo env.params n≤MAX_MONEY := by
  have hi : s.Inv env tree := by
    refine foldlM_invariant (I := fun t => ChainState.Inv env tree t) (fun t i t' ht hs => ?_)
      steps start s hstart.inv h
    cases i with
    | connect hash => exact ht.connect hbip hrep hstart.root hs
    | disconnect => exact ht.disconnect hs
  have hsu := hi.supply
  rw [← hi.coins] at hsu
  exact ⟨CoinsViewCache.totalValue_le hsu,subsidyUpTo_le hinterval⟩

def sampleGenesis : ChainState := ⟨(CoinsView.flat ∅ 1).newCache,1,fun _ => none⟩

/-- Mining a block, losing it and mining it again. -/
theorem no_inflation_sample : ∃ s, [ChainStep.connect 2,.disconnect,.connect 2].foldlM
        (ChainState.step permissiveEnv sampleTree) sampleGenesis=some s ∧
      s.view.totalValue ≤ subsidyUpTo permissiveEnv.params (sampleTree.index s.tip).nHeight ∧
      ∀ n, subsidyUpTo permissiveEnv.params n≤MAX_MONEY := by
  have hr : ∃ s, [ChainStep.connect 2,.disconnect,.connect 2].foldlM
      (ChainState.step permissiveEnv sampleTree) sampleGenesis=some s := ⟨_,rfl⟩
  obtain ⟨s,hs⟩ := hr
  have hst : sampleGenesis.AtGenesis permissiveEnv sampleTree :=
    ⟨⟨trivial,fun o e hl => by cases (AList.lookup_empty o).symm.trans hl⟩,fun o => rfl,rfl,rfl,
      fun _ => rfl,by decide,rfl⟩
  have hre : ∀ h, isBIP30Repeat (sampleTree.index h)=false := by
    intro h
    by_cases h2 : h=2
    · subst h2
      rfl
    · simp [sampleTree,h2,isBIP30Repeat,BlockIndex.nHeight]
  exact ⟨s,hs,no_inflation permissiveEnv sampleTree rfl rfl hre sampleGenesis hst _ s hs⟩
end Xero
