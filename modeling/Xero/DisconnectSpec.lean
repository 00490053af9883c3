import Xero.ConnectSpec

/-! DisconnectBlock reverts the transactions of its block on any coins view, and finds nothing
unexpected on the view ConnectBlock left. -/
namespace Xero
open Library CoinsViewCache List Function Option Transaction

/-- A coin that AddCoins can have stored for a block after genesis. -/
structure Coin.Stored (c : Coin) : Prop where
  unspent : c.isSpent=false
  spendable : isUnspendable c.out.scriptPubKey=false
  height : c.nHeight≠0

structure SameBase (c c' : CoinsViewCache) : Prop where
  wf : c'.WF
  below : c'.base.levels=c.base.levels

lemma SameBase.refl {c : CoinsViewCache} (hc : c.WF) : SameBase c c := ⟨hc,rfl⟩

lemma SameBase.trans {c c' c'' : CoinsViewCache} (h : SameBase c c') (h' : SameBase c' c'') :
    SameBase c c'' := ⟨h'.wf,h'.below.trans h.below⟩

lemma CoinsViewCache.Reads.sameBase {c c' : CoinsViewCache} (h : Reads c c') : SameBase c c' :=
  ⟨h.wf,(cons.inj h.levels).2⟩

def AllStored (U : PlainMap) : Prop := ∀ o c, U o=some c → c.Stored

variable {c : CoinsViewCache} {tx : Transaction} {nHeight : Nat} {U : PlainMap}

lemma Transaction.storedCoin_stored {out : TxOut} {coin : Coin} (hh : nHeight≠0)
    (hv : 0≤out.nValue) (h : tx.storedCoin nHeight out=some coin) : coin.Stored := by
  unfold storedCoin at h
  split at h
  · cases h
  · rename_i hu
    cases h
    have hn : out.nValue≠-1 := by omega
    exact ⟨by simpa [Coin.isSpent,TxOut.isNull] using hn,by simpa using hu,hh⟩

lemma Transaction.applyTo_stored (hh : nHeight≠0) (hv : ∀ out∈tx.vout, 0≤out.nValue)
    (hU : AllStored U) : AllStored (tx.applyTo nHeight U) := by
  intro o co h
  unfold applyTo at h
  cases hc : tx.creates nHeight o with
  | none =>
    rw [hc] at h
    split at h
    · cases h
    · exact hU o co h
  | some d =>
    rw [hc,some_or,some.injEq] at h
    subst h
    unfold creates at hc
    split at hc
    · obtain ⟨out,ho,hs⟩ := bind_eq_some_iff.mp hc
      exact storedCoin_stored hh (hv out (mem_of_getElem? ho)) hs
    · cases hc

lemma TxLog.Fits.stored {log : TxLog} (hf : log.Fits nHeight U) (hh : nHeight≠0)
    (hv : ∀ p∈log, ∀ out∈p.1.vout, 0≤out.nValue) (hU : AllStored U) :
    ∀ p∈log, ∀ coin∈p.2, coin.Stored := by
  induction log generalizing U with
  | nil => simp
  | cons q log ih =>
    have ht := ih hf.2 (fun p hp => hv p (mem_cons_of_mem _ hp))
      (applyTo_stored hh (hv q mem_cons_self) hU)
    refine forall_mem_cons.mpr ⟨fun coin hc => ?_,ht⟩
    obtain ⟨o,-,ho⟩ := mem_map.mp (hf.1.spent ▸ mem_map_of_mem hc)
    exact hU o coin ho

lemma TxLog.Fits.sizes {log : TxLog} (hf : log.Fits nHeight U) :
    ∀ p∈log, p.1.spends.length=p.2.length := by
  induction log generalizing U with
  | nil => simp
  | cons q log ih =>
    exact forall_mem_cons.mpr ⟨by simpa using congrArg length hf.1.spent,ih hf.2⟩

lemma disconnectOutputs_spec (tx : Transaction) (nHeight : Nat) (v : List TxOut)
    (exc fc : Bool) (i : Nat) (hc : c.WF) :
    SameBase c (disconnectOutputs tx nHeight exc c fc i v).1 ∧
    (∀ o, (disconnectOutputs tx nHeight exc c fc i v).1.coinAt o=
      if (tx.createsFrom nHeight i v o).isSome then none else c.coinAt o) ∧
    ((∀ o coin, tx.createsFrom nHeight i v o=some coin → c.coinAt o=some coin) →
      (disconnectOutputs tx nHeight exc c fc i v).2=fc) := by
  induction v generalizing c i fc with
  | nil => exact ⟨.refl hc,by simp [createsFrom_nil,disconnectOutputs],fun _ => rfl⟩
  | cons ou v ih =>
    cases hu : isUnspendable ou.scriptPubKey with
    | true =>
      have hsa : tx.createsFrom nHeight i (ou::v)=tx.createsFrom nHeight (i+1) v := by
        funext o
        by_cases ho : o=tx.outpoint i
        · subst ho
          rw [tx.createsFrom_cons_self,tx.createsFrom_succ_self,storedCoin,hu]
          rfl
        · exact tx.createsFrom_cons_ne nHeight i ou v ho
      rw [disconnectOutputs,if_pos hu,hsa]
      exact ih fc (i+1) hc
    | false =>
      have hs : tx.createsFrom nHeight i (ou::v) (tx.outpoint i)=
          some ⟨ou,tx.isCoinBase,nHeight⟩ := by
        rw [tx.createsFrom_cons_self,storedCoin,hu]
        rfl
      obtain ⟨hw,hb,-,hm,hmv,-⟩ := spendCoin_spec hc (tx.outpoint i)
      have hst : SameBase c (c.spendCoin (tx.outpoint i)).1 := ⟨hw,hb⟩
      simp only [disconnectOutputs,hu,Bool.false_eq_true,if_false]
      obtain ⟨hw',hm',hcl'⟩ := ih (fc &&
        (outputMatches tx nHeight ou (c.spendCoin (tx.outpoint i)).2 || exc)) (i+1) hw
      refine ⟨hst.trans hw',fun o => ?_,fun ha => ?_⟩
      · rw [hm' o,hm]
        by_cases ho : o=tx.outpoint i
        · subst ho
          simp [hs]
        · rw [tx.createsFrom_cons_ne nHeight i ou v ho,update_of_ne ho]
      · refine (hcl' (fun o coin ho => ?_)).trans ?_
        · have hn : o≠tx.outpoint i := by
            rintro rfl
            rw [tx.createsFrom_succ_self] at ho
            cases ho
          rw [hm,update_of_ne hn]
          exact ha o coin (by rw [tx.createsFrom_cons_ne nHeight i ou v hn]; exact ho)
        · simp [hmv _ (ha _ _ hs),outputMatches]

lemma applyTxInUndo_spec {undo : Coin} (out : OutPoint) (hc : c.WF) (hu : undo.Stored) :
    ∃ c', applyTxInUndo undo c out=.ok (c',!(c.coinAt out).isSome) ∧ SameBase c c' ∧
      c'.coinAt=update c.coinAt out (some undo) := by
  have hr : Reads c (c.haveCoin out).1 := fetchCoin_reads hc out
  have hfn := (haveCoin_spec hc out).2.2
  have ho : (!!(c.haveCoin out).2)=false → (c.haveCoin out).1.coinAt out=none := by
    intro hf
    rw [hr.coinAt,← not_isSome_iff_eq_none,← hfn]
    simpa using hf
  obtain ⟨c',ha,hw,hb,-,hm⟩ := addCoin_spec hr.wf hu.unspent ho
  rw [hu.spendable,if_neg (by simp),hr.coinAt] at hm
  refine ⟨c',?_,hr.sameBase.trans ⟨hw,by rw [hb]⟩,hm⟩
  simp only [applyTxInUndo,if_neg hu.height,bind_eq_ok,pure_eq_ok,mapError_eq_ok]
  exact ⟨((c.haveCoin out).1,undo),rfl,c',ha,by rw [hfn]⟩

variable (l : List (OutPoint×Coin))

def putCoins (M : PlainMap) : PlainMap :=
  l.foldl (fun (N : PlainMap) p => update N p.1 (some p.2)) M

lemma disconnectInputs_spec (fc : Bool) (hc : c.WF) (hl : ∀ p∈l, p.2.Stored) :
    ∃ c' flag, disconnectInputs c fc l=.ok (c',flag) ∧ SameBase c c' ∧
      c'.coinAt=putCoins l c.coinAt ∧
      ((l.map Prod.fst).Nodup → (∀ p∈l, c.coinAt p.1=none) → flag=fc) := by
  induction l generalizing c fc with
  | nil => exact ⟨c,fc,rfl,.refl hc,rfl,fun _ _ => rfl⟩
  | cons p l ih =>
    obtain ⟨_,h1,hw,hm⟩ := applyTxInUndo_spec p.1 hc (hl p mem_cons_self)
    obtain ⟨c',flag,h',hw',hm',hcl⟩ := ih (fc && !(c.coinAt p.1).isSome) hw.wf
      (fun q hq => hl q (mem_cons_of_mem _ hq))
    refine ⟨c',flag,?_,hw.trans hw',by rw [hm',hm]; rfl,fun hnd hn => ?_⟩
    · simp only [disconnectInputs,bind_eq_ok]
      exact ⟨_,h1,h'⟩
    · obtain ⟨hno,hnd'⟩ := nodup_cons.mp hnd
      rw [hcl hnd' (fun q hq => ?_),hn p mem_cons_self]
      · simp
      · have hne : q.1≠p.1 := fun he => hno (he ▸ mem_map_of_mem hq)
        rw [hm,update_of_ne hne]
        exact hn q (mem_cons_of_mem _ hq)

lemma putCoins_reverse (M : PlainMap) (o : OutPoint) :
    putCoins l.reverse M o=(l.lookup o).or (M o) := by
  rw [putCoins,foldl_reverse]
  induction l with
  | nil => simp
  | cons p l ih =>
    obtain ⟨q,_⟩ := p
    rw [foldr_cons]
    by_cases ho : o=q
    · subst ho
      simp
    · have hb : (o==q)=false := by simpa using ho
      rw [update_of_ne ho,ih,lookup_cons,hb]

/-- What disconnecting gets for a transaction of the log. -/
def undoRecord (p : Transaction×TxUndo) : Transaction×Option TxUndo :=
  (p.1,if p.1.isCoinBase then none else some p.2)

variable {pindex : BlockIndex} {undo : TxUndo}

lemma disconnectTx_spec (pindex : BlockIndex) (fc : Bool) (hc : c.WF)
    (hle : tx.spends.length=undo.length)
    (hst : ∀ coin∈undo, coin.Stored) :
    ∃ c' flag, disconnectTx pindex c fc tx (undoRecord (tx,undo)).2=.ok (c',flag) ∧
      SameBase c c' ∧
      c'.coinAt=tx.revertOn pindex.nHeight undo c.coinAt ∧
      (∀ U, tx.Fits pindex.nHeight undo U → c.coinAt=tx.applyTo pindex.nHeight U →
        flag=fc) := by
  obtain ⟨hw,hm,hcl⟩ := disconnectOutputs_spec tx pindex.nHeight tx.vout
    (tx.isCoinBase && isBIP30Unspendable pindex) fc 0 hc
  rw [tx.createsFrom_zero] at hm hcl
  have hf : ∀ U, c.coinAt=tx.applyTo pindex.nHeight U →
      ∀ o coin, tx.creates pindex.nHeight o=some coin → c.coinAt o=some coin := by
    intro U hU o coin ho
    rw [hU,applyTo,ho,some_or]
  cases hb : tx.isCoinBase with
  | true =>
    rw [undoRecord]
    simp only [hb,if_true,disconnectTx,pure_eq_ok] at hw hm hcl ⊢
    refine ⟨_,_,rfl,hw,?_,fun U _ hU => hcl (hf U hU)⟩
    funext o
    rw [hm o,revertOn,spends,hb]
    simp
  | false =>
    have hs : tx.spends=tx.vin.map TxIn.prevout := by simp [spends,hb]
    simp only [hb,Bool.false_and] at hw hm hcl
    have hd : disconnectTx pindex c fc tx (undoRecord (tx,undo)).2=
        disconnectInputs (disconnectOutputs tx pindex.nHeight false c fc 0 tx.vout).1
          (disconnectOutputs tx pindex.nHeight false c fc 0 tx.vout).2
          (tx.spends.zip undo).reverse := by
      have hl : undo.length=tx.vin.length := by rw [← hle,hs,length_map]
      simp [undoRecord,disconnectTx,hb,rejectIf,hl,hs,ok_bind]
    rw [hd]
    generalize disconnectOutputs tx pindex.nHeight false c fc 0 tx.vout=r at *
    obtain ⟨c',flag,h',hw',hm',hcl'⟩ := disconnectInputs_spec
      (tx.spends.zip undo).reverse r.2 hw.wf (fun p hp =>
          hst p.2 (of_mem_zip (mem_reverse.mp hp)).2)
    refine ⟨c',flag,h',hw.trans hw',?_,fun U hfi hU => ?_⟩
    · funext o
      rw [hm',putCoins_reverse,hm o,revertOn]
    · have hk : ((tx.spends.zip undo).reverse.map Prod.fst).Nodup := by
        rw [map_reverse,nodup_reverse,map_fst_zip hle.le]
        exact hfi.nodup
      rw [hcl' hk (fun p hp => ?_)]
      · exact hcl (hf U hU)
      · -- an input of the transaction is gone from the view, unless it is its own output
        have hi : p.1∈tx.spends := (of_mem_zip (mem_reverse.mp hp)).1
        rw [hm,hU]
        cases hcr : tx.creates pindex.nHeight p.1 with
        | some d => simp
        | none => simp [applyTo,hcr,hi]

lemma disconnectTxs_append (c : CoinsViewCache) (fc : Bool)
    (l l' : List (Transaction×Option TxUndo)) :
    disconnectTxs pindex c fc (l++l')=
      (disconnectTxs pindex c fc l >>= fun r => disconnectTxs pindex r.1 r.2 l') := by
  induction l generalizing c fc with
  | nil => rfl
  | cons p l ih =>
    simp only [cons_append,disconnectTxs,ih]
    cases disconnectTx pindex c fc p.1 p.2 <;> rfl

lemma disconnectTxs_spec (pindex : BlockIndex) (log : TxLog) (hc : c.WF)
    (hl : ∀ p∈log, p.1.spends.length=p.2.length) (hs : ∀ p∈log, ∀ coin∈p.2, coin.Stored) :
    ∃ c' flag, disconnectTxs pindex c true (log.map undoRecord).reverse=.ok (c',flag) ∧
      SameBase c c' ∧
      c'.coinAt=log.revertOn pindex.nHeight c.coinAt ∧
      (∀ U, log.Fits pindex.nHeight U → c.coinAt=log.applyTo pindex.nHeight U →
        flag) := by
  induction log with
  | nil => exact ⟨c,true,rfl,.refl hc,rfl,fun _ _ _ => rfl⟩
  | cons p log ih =>
    obtain ⟨c1,f1,h1,hw1,hm1,hcl1⟩ := ih (fun q hq => hl q (mem_cons_of_mem _ hq))
      (fun q hq => hs q (mem_cons_of_mem _ hq))
    obtain ⟨c',flag,h',hw',hm',hcl'⟩ := disconnectTx_spec pindex f1 hw1.wf
      (hl p mem_cons_self) (hs p mem_cons_self)
    refine ⟨c',flag,?_,hw1.trans hw',by rw [hm',hm1]; rfl,fun U hf hU => ?_⟩
    · rw [map_cons,reverse_cons,disconnectTxs_append,h1]
      simp only [disconnectTxs,bind_eq_ok]
      exact ⟨(c1,f1),rfl,(c',flag),h',rfl⟩
    · have hb : c1.coinAt=p.1.applyTo pindex.nHeight U := by
        rw [hm1,hU]
        exact TxLog.revertOn_applyTo log pindex.nHeight _ hf.2
      rw [hcl' U hf.1 hb]
      exact hcl1 (p.1.applyTo pindex.nHeight U) hf.2 hU

variable {undo : BlockUndo}

/-- The entries DisconnectBlock pairs up are the log of the connected block. -/
lemma zip_undoRecord {co : Transaction} {r : List Transaction}
    (hc : co.isCoinBase) (hr : ∀ tx∈r, tx.isCoinBase=false) :
    (co::r).zip (none::undo.map some)=
      ((co::r).zip ([]::undo)).map undoRecord := by
  have ht : r.zip (undo.map some)=(r.zip undo).map undoRecord := by
    rw [zip_map_right]
    refine map_congr_left (fun p hp => ?_)
    simp [undoRecord,hr p.1 (of_mem_zip hp).1,Prod.map]
  simp [undoRecord,hc,ht]

/-- How ConnectBlock leaves a block and its undo data on disk. -/
structure UndoShape (block : Block) (pindex : BlockIndex) (undo : BlockUndo) : Prop where
  hasPrev : pindex.pprev≠[]
  coinbase : ∃ coinbase rest, block.vtx=coinbase::rest ∧ coinbase.isCoinBase ∧
    (∀ tx∈rest, tx.isCoinBase=false) ∧ undo.length=rest.length
  sizes : ∀ p∈block.vtx.zip ([]::undo), p.1.spends.length=p.2.length
  stored : ∀ p∈block.vtx.zip ([]::undo), ∀ coin∈p.2, coin.Stored

lemma Connected.undoShape {params : ConsensusParams} {block : Block}
    (h : Connected params block pindex U undo) (hU : AllStored U) :
    UndoShape block pindex undo := by
  obtain ⟨co,r,hv,hc,hr,hl,-⟩ := h.vtx
  have hh : pindex.nHeight≠0 := by
    simpa [BlockIndex.nHeight] using h.hasPrev
  exact ⟨h.hasPrev,⟨co,r,hv,hc,hr,hl⟩,h.fits.sizes,
    h.fits.stored hh (fun p hp => h.nonneg p.1 (of_mem_zip hp).1) hU⟩

def Block.revertOn (block : Block) (undo : BlockUndo) (pindex : BlockIndex)
    (M : PlainMap) : PlainMap :=
  TxLog.revertOn (block.vtx.zip ([]::undo)) pindex.nHeight M

/-- DisconnectBlock on any view, given the undo data of the block. It is clean on the coins
that ConnectBlock left. -/
lemma disconnectBlock_spec {block : Block} (hc : c.WF) (hs : UndoShape block pindex undo) :
    ∃ res c', disconnectBlock block (some undo) pindex c=.ok (res,c') ∧ SameBase c c' ∧
      c'.coinAt=block.revertOn undo pindex c.coinAt ∧ c'.hashBlock=pindex.prevHash ∧
      (∀ U, TxLog.Fits (block.vtx.zip ([]::undo)) pindex.nHeight U →
        c.coinAt=block.applyTo pindex.nHeight U → res=.disconnectOk) := by
  obtain ⟨co,_,hv,hcb,hr,hl⟩ := hs.coinbase
  obtain ⟨c',f,h',hw,hm,hcl⟩ := disconnectTxs_spec pindex _ hc hs.sizes hs.stored
  obtain ⟨p,_,hp⟩ := exists_cons_of_ne_nil hs.hasPrev
  have hz : block.vtx.zip (none::undo.map some)= (block.vtx.zip ([]::undo)).map undoRecord := by
    rw [hv]
    exact zip_undoRecord hcb hr
  refine ⟨if f then .disconnectOk else .disconnectUnclean,c'.setBestBlock p,?_,
    ⟨hw.wf,hw.below⟩,hm,?_,fun U hf hU => ?_⟩
  · have hsi : undo.length+1=block.vtx.length := by rw [hv,length_cons,hl]
    simp [disconnectBlock,rejectIf,hsi,hz,h',hp,ok_bind,pure_ok]
  · simp [BlockIndex.prevHash,hp,setBestBlock]
  · have hlo : c.coinAt=TxLog.applyTo (block.vtx.zip ([]::undo)) pindex.nHeight U := by
      rw [TxLog.applyTo_eq_foldl,map_fst_zip (by simp [hv,hl])]
      exact hU
    rw [hcl U hf hlo]
    rfl

lemma accessByTxidFrom_of_none {t : Uint256} (lf n : Nat) (hc : c.WF)
    (h : ∀ k, c.coinAt ⟨t,k⟩=none) : (accessByTxidFrom c t n lf).2.isSpent := by
  induction lf generalizing c n with
  | zero => rfl
  | succ lf ih =>
    have hr : Reads c (c.accessCoin ⟨t,n⟩).1 := fetchCoin_reads hc ⟨t,n⟩
    have hl := (accessCoin_spec hc ⟨t,n⟩).2.2
    rw [h n] at hl
    have hs : (c.accessCoin ⟨t,n⟩).2.isSpent := by
      simpa [Coin.live] using hl
    simp only [accessByTxidFrom,hs,Bool.not_true,Bool.false_eq_true,if_false]
    exact ih (n+1) hr.wf (fun k => by rw [hr.coinAt]; exact h k)

/-- A coin of height 0 is taken for old undo data without metadata, and cannot be restored
when no other output of its transaction is left. -/
lemma applyTxInUndo_height_zero {coin : Coin} (out : OutPoint) (hc : c.WF)
    (hz : coin.nHeight=0) (h : ∀ k, c.coinAt ⟨out.hash,k⟩=none) :
    applyTxInUndo coin c out=.error .disconnectFailed := by
  have hr : Reads c (c.haveCoin out).1 := fetchCoin_reads hc out
  have hs := accessByTxidFrom_of_none MAX_OUTPUTS_PER_BLOCK 0 hr.wf
    (fun k => by rw [hr.coinAt]; exact h k)
  simp [applyTxInUndo,hz,restoreMetadata,accessByTxid,hs,bind,Except.bind]

lemma disconnectTx_height_zero {fc : Bool} {t : TxIn} {coin : Coin} (hc : c.WF)
    (hb : tx.isCoinBase=false)
    (hv : tx.vin=[t]) (hz : coin.nHeight=0) (h : ∀ k, c.coinAt ⟨t.prevout.hash,k⟩=none) :
    disconnectTx pindex c fc tx (some [coin])=.error .disconnectFailed := by
  obtain ⟨hw,hm,-⟩ := disconnectOutputs_spec tx pindex.nHeight tx.vout false fc 0 hc
  have hf := applyTxInUndo_height_zero t.prevout hw.wf hz (fun k => by rw [hm,h k,ite_self])
  simp [disconnectTx,hb,hv,rejectIf,disconnectInputs,hf,bind,Except.bind]

section
def permissiveEnv : ConnectEnv where
  params := ⟨1,5000,0,0,false⟩
  checkProofOfWork _ _ := true
  checkSignetBlockSolution _ := true
  blockMerkleRoot _ := (0,false)
  getLegacySigOpCount _ := 0
  fScriptChecks _ := true
  parallelScriptChecks := false
  sequenceLocks _ _ _ := true
  getTransactionSigOpCost _ _ _ := 0
  checkInputScripts _ _ _ := .ok ()

def sampleCoinbase : Transaction where
  vin := [⟨⟨0,NULL_INDEX⟩,[1,1],0,[]⟩]
  vout := [⟨10,[]⟩]
  hash := 8
def sampleSpend : Transaction where
  vin := [⟨⟨7,0⟩,[],0,[]⟩]
  vout := [⟨3,[]⟩,⟨1,[OP_RETURN]⟩]
  hash := 9

def sampleChild : Transaction where
  vin := [⟨⟨9,0⟩,[],0,[]⟩]
  vout := [⟨2,[]⟩]
  hash := 10
def sampleIndex : BlockIndex := ⟨2,[1]⟩
def sampleView (nHeight : Nat) : CoinsViewCache :=
  (CoinsView.flat ((∅ : BaseMap).insert ⟨7,0⟩ ⟨⟨5,[]⟩,false,nHeight⟩) 1).newCache

lemma sampleView_wf (n : Nat) : (sampleView n).WF :=
  ⟨trivial,fun o e hl => by cases (AList.lookup_empty o).symm.trans hl⟩

lemma sampleView_coinAt (n : Nat) (o : OutPoint) :
    (sampleView n).coinAt o=if o=⟨7,0⟩ then some ⟨⟨5,[]⟩,false,n⟩ else none := by
  have hb : (sampleView n).coinAt o=
      (((∅ : BaseMap).insert ⟨7,0⟩ ⟨⟨5,[]⟩,false,n⟩).lookup o).bind Coin.live :=
    coinAt_of_lookup_none (AList.lookup_empty o)
  rw [hb]
  by_cases ho : o=⟨7,0⟩
  · subst ho
    rfl
  · rw [AList.lookup_insert_ne ho,if_neg ho]
    rfl
end

/-- Disconnecting a block that was just connected gives back the coins and the best block,
when the coins of the view are ones that AddCoins stores after genesis. -/
theorem disconnectBlock_connectBlock (env : ConnectEnv) (block : Block) (pindex : BlockIndex)
    (view view' : CoinsViewCache) (undo : Option BlockUndo) (hc : view.WF)
    (hstored : AllStored view.coinAt) (hgen : pindex.hash≠env.params.hashGenesisBlock)
    (hbip : env.params.enforceBIP30 pindex)
    (h : env.connectBlock block pindex view=.ok (view',undo)) :
    ∃ view'', disconnectBlock block undo pindex view'=.ok (.disconnectOk,view'') ∧
      (∀ o, view''.coinAt o=view.coinAt o) ∧ view''.hashBlock=view.getBestBlock.2 ∧
      (view.getBestBlock.2≠0 → view''.getBestBlock.2=view.getBestBlock.2) := by
  have hha : pindex.hash=block.hash := by
    simp only [ConnectEnv.connectBlock,bind_eq_ok,rejectIf_eq_ok] at h
    obtain ⟨-,hh,-⟩ := h
    simpa using hh
  obtain ⟨_,rfl,-,hbe,hco,hw,hm,-⟩ := connectBlock_ok hc (hha ▸ hgen) hbip h
  obtain ⟨_,view'',hd,-,hm',hb,hcl⟩ := disconnectBlock_spec hw (hco.undoShape hstored)
  have hba : view''.coinAt=view.coinAt := by
    rw [hm',hm,← hco.applyTo_log]
    exact TxLog.revertOn_applyTo _ pindex.nHeight view.coinAt hco.fits
  obtain rfl := hcl view.coinAt hco.fits hm
  refine ⟨view'',hd,congrFun hba,hb.trans hbe,fun hn => ?_⟩
  rw [← hbe] at hn ⊢
  rw [CoinsViewCache.getBestBlock,if_neg (by rw [hb]; exact hn)]
  exact hb

/-- An output spent in its own block and an unspendable output are both taken back. -/
theorem disconnectBlock_connectBlock_sample : ∃ view' undo view'', permissiveEnv.connectBlock
        ⟨2,0,0,[sampleCoinbase,sampleSpend,sampleChild]⟩ sampleIndex (sampleView 1)=
        .ok (view',undo) ∧
      disconnectBlock ⟨2,0,0,[sampleCoinbase,sampleSpend,sampleChild]⟩ undo sampleIndex view'=
        .ok (.disconnectOk,view'') ∧ ∀ o, view''.coinAt o=(sampleView 1).coinAt o := by
  have hc : ∃ r, permissiveEnv.connectBlock ⟨2,0,0,[sampleCoinbase,sampleSpend,sampleChild]⟩
      sampleIndex (sampleView 1)=.ok r := ⟨_,rfl⟩
  obtain ⟨⟨view',undo⟩,h⟩ := hc
  have hs : AllStored (sampleView 1).coinAt := by
    intro o _ ho
    rw [sampleView_coinAt] at ho
    split at ho
    · cases ho
      exact ⟨rfl,rfl,by decide⟩
    · cases ho
  obtain ⟨view'',hd,hm,-⟩ := disconnectBlock_connectBlock permissiveEnv _ sampleIndex
    (sampleView 1) view' undo (sampleView_wf 1) hs (by decide) (by decide) h
  exact ⟨view',undo,view'',h,hd,hm⟩

/-- With a coin of height 0 in the view, ConnectBlock accepts the block that spends it and
DisconnectBlock cannot take the block back. -/
theorem disconnectBlock_fails_at_height_zero :
    ∃ view' undo, (sampleView 0).WF ∧ permissiveEnv.params.enforceBIP30 sampleIndex ∧
      sampleIndex.nHeight=1 ∧
      permissiveEnv.connectBlock ⟨2,0,0,[sampleCoinbase,sampleSpend]⟩ sampleIndex (sampleView 0)=
        .ok (view',undo) ∧
      disconnectBlock ⟨2,0,0,[sampleCoinbase,sampleSpend]⟩ undo sampleIndex view'=
        .error .disconnectFailed := by
  have hc : ∃ v, permissiveEnv.connectBlock ⟨2,0,0,[sampleCoinbase,sampleSpend]⟩ sampleIndex
      (sampleView 0)=.ok (v,some [[⟨⟨5,[]⟩,false,0⟩]]) := ⟨_,rfl⟩
  obtain ⟨view',h⟩ := hc
  refine ⟨view',_,sampleView_wf 0,by decide,rfl,h,?_⟩
  obtain ⟨_,hu,-,-,-,hw,hm,-⟩ := connectBlock_ok (sampleView_wf 0) (by decide) (by decide) h
  cases hu
  have hg : ∀ k, view'.coinAt ⟨7,k⟩=none := by
    intro k
    rw [hm]
    by_cases hk : k=0 <;> simp [Block.applyTo,Transaction.applyTo,
      Transaction.creates,Transaction.spends,sampleSpend,sampleCoinbase,Transaction.isCoinBase,
      sampleView_coinAt,OutPoint.isNull,hk]
  have hf : disconnectTx sampleIndex view' true sampleSpend (some [⟨⟨5,[]⟩,false,0⟩])=
      .error .disconnectFailed := disconnectTx_height_zero hw rfl rfl rfl hg
  simp [disconnectBlock,disconnectTxs,rejectIf,hf,bind,Except.bind]
end Xero
