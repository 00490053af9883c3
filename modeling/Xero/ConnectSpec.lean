import Xero.CoinsEffect

/-! A block that ConnectBlock accepts moves the shown coins as its transactions say, and
its undo data records what they found. -/
namespace Xero
open Library List Bool TxIn Transaction ConnectEnv AList Prod
namespace CoinsViewCache
/-- Nothing below the top level is unspent where the top has no entry. The BIP30 lookups
establish this for the outputs of a block, and AddCoin relies on it. -/
def Settled (c : CoinsViewCache) (o : OutPoint) : Prop :=
  c.cacheCoins.lookup o=none → c.base.coinAt o=none

/-- `c'` is `c` after lookups. -/
structure Reads (c c' : CoinsViewCache) : Prop where
  wf : c'.WF
  levels : c'.levels=c.levels
  settled : ∀ o, c.Settled o → c'.Settled o

variable {c c' c'' : CoinsViewCache} {o p : OutPoint}

lemma Reads.refl (hc : c.WF) : Reads c c := ⟨hc,rfl,fun _ h => h⟩

lemma Reads.trans (h : Reads c c') (h' : Reads c' c'') : Reads c c'' :=
  ⟨h'.wf,h'.levels.trans h.levels,fun o ho => h'.settled o (h.settled o ho)⟩

lemma Reads.coinAt (h : Reads c c') : c'.coinAt=c.coinAt := coinAt_eq_of_levels h.levels

lemma fetchCoin_lookup_none (h : (c.fetchCoin p).1.cacheCoins.lookup o=none) :
    c.cacheCoins.lookup o=none := by
  cases hl : c.cacheCoins.lookup p with
  | some e => simpa [fetchCoin,hl] using h
  | none =>
    simp only [fetchCoin,hl] at h
    cases ha : (c.base.getCoin p).2 with
    | none => simpa [ha,fillCache] using h
    | some t =>
      rw [ha,fillCache] at h
      by_cases ho : o=p
      · subst ho
        simp at h
      · simpa [lookup_insert_ne ho] using h

lemma base_coinAt_of_levels (h : c'.levels=c.levels) : c'.base.coinAt=c.base.coinAt :=
  CoinsView.coinAt_eq_of_levels (cons.inj h).2

lemma fetchCoin_reads (hc : c.WF) (p : OutPoint) : Reads c (c.fetchCoin p).1 := by
  obtain ⟨hw,hle,-,-⟩ := fetchCoin_spec hc p
  refine ⟨hw,hle,fun o ho hl => ?_⟩
  rw [base_coinAt_of_levels hle]
  exact ho (fetchCoin_lookup_none hl)

lemma settled_of_none (h : c.coinAt o=none) : c.Settled o := base_coinAt_of_none h

lemma spendCoin_settled (hc : c.WF) (ho : c.Settled o) : (c.spendCoin p).1.Settled o := by
  have hr := fetchCoin_reads hc p
  have hlo := (fetchCoin_spec hc p).2.2.2
  cases hf : (c.fetchCoin p).2 with
  | none =>
    simp only [spendCoin,hf]
    exact hr.settled o ho
  | some e =>
    rw [hf] at hlo
    cases hfr : e.fresh with
    | true =>
      simp only [spendCoin,hf,hfr,if_true]
      intro hl
      by_cases hop : o=p
      · subst hop
        exact (hr.wf.2 o e hlo).fresh hfr
      · rw [lookup_erase_ne hop] at hl
        exact hr.settled o ho hl
    | false =>
      simp only [spendCoin,hf,hfr,false_eq_true,if_false]
      intro hl
      by_cases hop : o=p
      · subst hop
        simp at hl
      · rw [lookup_insert_ne hop] at hl
        exact hr.settled o ho hl

lemma addCoin_settled {coin : Coin} {ow : Bool} (h : c.addCoin p coin ow=.ok c')
    (ho : c.Settled o) : c'.Settled o := by
  unfold addCoin at h
  split at h
  · cases h
  split at h
  · cases h
    exact ho
  dsimp only at h
  split at h
  · cases h
  cases h
  intro hl
  by_cases hop : o=p
  · subst hop
    simp at hl
  · rw [lookup_insert_ne hop] at hl
    exact ho hl

lemma haveAll_spec (hc : c.WF) (vin : List TxIn) : Reads c (c.haveAll vin).1 ∧
    ((c.haveAll vin).2 → ∀ txin∈vin, (c.coinAt txin.prevout).isSome) := by
  induction vin generalizing c with
  | nil => exact ⟨.refl hc,by simp⟩
  | cons txin vin ih =>
    have hr : Reads c (c.haveCoin txin.prevout).1 := fetchCoin_reads hc txin.prevout
    have hfn := (haveCoin_spec hc txin.prevout).2.2
    obtain ⟨hre,ha⟩ := ih hr.wf
    cases hf : (c.haveCoin txin.prevout).2 with
    | false =>
      rw [haveAll,hf]
      exact ⟨hr,by simp⟩
    | true =>
      rw [haveAll,hf]
      refine ⟨hr.trans hre,fun h t ht => ?_⟩
      obtain rfl | ht := mem_cons.mp ht
      · rw [← hfn,hf]
      · rw [← hr.coinAt]
        exact ha h t ht

lemma haveInputs_reads (hc : c.WF) (tx : Transaction) : Reads c (c.haveInputs tx).1 := by
  unfold haveInputs
  split
  · exact .refl hc
  · exact (haveAll_spec hc tx.vin).1

lemma haveAny_spec (hc : c.WF) (prevouts : List OutPoint) :
    Reads c (c.haveAny prevouts).1 ∧ ((c.haveAny prevouts).2=false →
    ∀ o∈prevouts, c.coinAt o=none) := by
  induction prevouts generalizing c with
  | nil => exact ⟨.refl hc,by simp⟩
  | cons p prevouts ih =>
    have hr : Reads c (c.haveCoin p).1 := fetchCoin_reads hc p
    have hfn := (haveCoin_spec hc p).2.2
    obtain ⟨hre,ha⟩ := ih hr.wf
    cases hf : (c.haveCoin p).2 with
    | true =>
      rw [haveAny,hf]
      exact ⟨hr,by simp⟩
    | false =>
      rw [haveAny,hf]
      refine ⟨hr.trans hre,fun h o ho => ?_⟩
      obtain rfl | ho := mem_cons.mp ho
      · rw [hf] at hfn
        exact Option.not_isSome_iff_eq_none.mp (by simp [← hfn])
      · rw [← hr.coinAt]
        exact ha h o ho

lemma accessCoins_reads (hc : c.WF) (vin : List TxIn) : Reads c (c.accessCoins vin).1 := by
  induction vin generalizing c with
  | nil => exact .refl hc
  | cons t vin ih =>
    have hr : Reads c (c.accessCoin t.prevout).1 := fetchCoin_reads hc t.prevout
    exact hr.trans (ih hr.wf)
end CoinsViewCache

lemma CoinsView.getBestBlock_spec {v : CoinsView} (hv : v.WF) :
    v.getBestBlock.1.WF ∧ v.getBestBlock.1.levels=v.levels := by
  induction v with
  | flat coins be => exact ⟨hv,rfl⟩
  | cache m h b ih =>
    obtain ⟨hw,hl⟩ := ih hv.1
    have hs : b.getBestBlock.1.coinAt=b.coinAt := coinAt_eq_of_levels hl
    unfold getBestBlock
    split
    · refine ⟨CoinsView.WF.rebase (h := h) hv hw hs,?_⟩
      exact congrArg₂ cons (coinAt_rebase (h := h) hs) hl
    · exact ⟨hv,rfl⟩

lemma CoinsViewCache.getBestBlock_reads {c : CoinsViewCache} (hc : c.WF) :
    Reads c c.getBestBlock.1 := by
  obtain ⟨hw,hle⟩ := CoinsView.getBestBlock_spec hc.1
  have hs : c.base.getBestBlock.1.coinAt=c.base.coinAt := CoinsView.coinAt_eq_of_levels hle
  unfold getBestBlock
  split
  · refine ⟨CoinsView.WF.rebase (h := c.hashBlock) hc hw hs,?_,fun o ho hl => ?_⟩
    · exact congrArg₂ cons (coinAt_rebase (h := c.hashBlock) hs) hle
    · exact (congrFun hs o).trans (ho hl)
  · exact .refl hc

def valueOf (vout : List TxOut) : Int := (vout.map TxOut.nValue).sum

variable {u : Unit} {vout : List TxOut}

lemma checkOutputValues_ok {nvo : Int}
    (h : checkOutputValues nvo vout=.ok u) : ∀ out∈vout, 0≤out.nValue := by
  induction vout generalizing nvo with
  | nil => simp
  | cons out vout ih =>
    simp only [checkOutputValues,bind_eq_ok,rejectIf_eq_ok,decide_eq_false_iff_not] at h
    obtain ⟨-,_,-,-,-,-,hr⟩ := h
    exact forall_mem_cons.mpr ⟨by omega,ih hr⟩

variable {vin : List TxIn}

lemma checkDuplicateInputs_ok {seen : List OutPoint} (h : checkDuplicateInputs seen vin=.ok u) :
    (vin.map prevout).Nodup ∧ ∀ o∈vin.map prevout, o∉seen := by
  induction vin generalizing seen with
  | nil => simp
  | cons t vin ih =>
    simp only [checkDuplicateInputs,bind_eq_ok,rejectIf_eq_ok] at h
    obtain ⟨-,hse,hr⟩ := h
    obtain ⟨hnd,hn⟩ := ih hr
    have hou : t.prevout∉seen := by simpa using hse
    refine ⟨nodup_cons.mpr ⟨fun hm => hn _ hm mem_cons_self,hnd⟩,?_⟩
    exact forall_mem_cons.mpr ⟨hou,fun o ho hs => hn o ho (mem_cons_of_mem _ hs)⟩

lemma checkTransaction_ok {tx : Transaction} (h : checkTransaction tx=.ok u) :
    (tx.vin.map prevout).Nodup ∧ ∀ out∈tx.vout, 0≤out.nValue := by
  simp only [checkTransaction,bind_eq_ok,rejectIf_eq_ok] at h
  obtain ⟨-,-,-,-,-,-,_,hv,_,hd,-⟩ := h
  exact ⟨(checkDuplicateInputs_ok hd).1,checkOutputValues_ok hv⟩

lemma checkTransactions_ok {vtx : List Transaction}
    (h : checkTransactions vtx=.ok u) : ∀ tx∈vtx, checkTransaction tx=.ok () := by
  induction vtx with
  | nil => simp
  | cons tx vtx ih =>
    simp only [checkTransactions,bind_eq_ok,mapError_eq_ok] at h
    obtain ⟨_,ht,hr⟩ := h
    exact forall_mem_cons.mpr ⟨ht,ih hr⟩

lemma getValueOutFrom_eq {nvo v : Int} (h : getValueOutFrom nvo vout=some v) :
    v=nvo+valueOf vout := by
  induction vout generalizing nvo with
  | nil =>
    cases h
    simp [valueOf]
  | cons ou vout ih =>
    simp only [getValueOutFrom] at h
    split at h
    · rw [ih h,valueOf,valueOf,map_cons,sum_cons]
      omega
    · cases h

lemma valueOutOrThrow_ok {tx : Transaction} {v : Int} (h : valueOutOrThrow tx=.ok v) :
    v=valueOf tx.vout := by
  unfold valueOutOrThrow at h
  split at h
  · rename_i w hw
    cases h
    simpa using getValueOutFrom_eq hw
  · cases h

def valueOfCoins (coins : List Coin) : Int := (coins.map (fun c => c.out.nValue)).sum

open CoinsViewCache
variable {c c' : CoinsViewCache} {tx : Transaction} {nHeight : Nat}

lemma checkInputCoins_ok {nvi v : Int} (hc : c.WF)
    (h : checkInputCoins nHeight c nvi vin=.ok (c',v)) :
    Reads c c' ∧ ∃ coins : List Coin,
      (vin.map prevout).map c.coinAt=coins.map some ∧ v=nvi+valueOfCoins coins := by
  induction vin generalizing c nvi with
  | nil =>
    cases h
    exact ⟨.refl hc,[],rfl,by simp [valueOfCoins]⟩
  | cons t vin ih =>
    simp only [checkInputCoins,bind_eq_ok,rejectIf_eq_ok] at h
    obtain ⟨-,hs,-,-,-,-,hre⟩ := h
    have hr : Reads c (c.accessCoin t.prevout).1 := fetchCoin_reads hc t.prevout
    have hco := (accessCoin_spec hc t.prevout).2.2
    rw [Coin.live_of_unspent hs] at hco
    obtain ⟨hrd,coins,hci,hv⟩ := ih hr.wf hre
    rw [hr.coinAt] at hci
    refine ⟨hr.trans hrd,(c.accessCoin t.prevout).2::coins,?_,?_⟩
    · rw [map_cons,map_cons,map_cons,← hco,hci]
    · rw [hv,valueOfCoins,valueOfCoins,map_cons,sum_cons]
      omega

lemma checkTxInputs_ok {fee : Int} (hc : c.WF) (h : checkTxInputs tx c nHeight=.ok (c',fee)) :
    Reads c c' ∧ ∃ coins : List Coin,
      (tx.vin.map prevout).map c.coinAt=coins.map some ∧
      fee=valueOfCoins coins-valueOf tx.vout := by
  simp only [checkTxInputs,bind_eq_ok,rejectIf_eq_ok,pure_eq_ok] at h
  obtain ⟨-,-,⟨_,v⟩,hi,_,ho,-,-,-,-,hr⟩ := h
  have hh := haveInputs_reads hc tx
  obtain ⟨hrd,coins,hco,_⟩ := checkInputCoins_ok hh.wf hi
  cases hr
  rw [hh.coinAt] at hco
  refine ⟨hh.trans hrd,coins,hco,?_⟩
  rw [valueOutOrThrow_ok ho]
  omega

variable {coins : List Coin}

lemma spendInputs_ok {un : List Coin} (hc : c.WF) (hnd : (vin.map prevout).Nodup)
    (hco : (vin.map prevout).map c.coinAt=coins.map some) (h : spendInputs c vin=.ok (c',un)) :
    un=coins ∧ c'.WF ∧ (∀ o, c.Settled o → c'.Settled o) ∧
      c'.coinAt=fun o => if o∈vin.map prevout then none else c.coinAt o := by
  induction vin generalizing c coins un with
  | nil =>
    cases h
    cases coins with
    | nil => exact ⟨rfl,hc,fun _ h => h,by simp⟩
    | cons a coins => cases hco
  | cons t vin ih =>
    cases coins with
    | nil => cases hco
    | cons co coins =>
      simp only [map_cons,cons.injEq] at hco
      obtain ⟨hn,hnd'⟩ := nodup_cons.mp hnd
      obtain ⟨hw,-,-,hm,hmv,-⟩ := spendCoin_spec hc t.prevout
      simp only [spendInputs,hmv co hco.1,bind_eq_ok,pure_eq_ok] at h
      obtain ⟨_,hr,hrs⟩ := h
      cases hrs
      have hs : (vin.map prevout).map (c.spendCoin t.prevout).1.coinAt= coins.map some := by
        rw [← hco.2,hm]
        refine map_congr_left (fun o ho => Function.update_of_ne ?_ _ _)
        rintro rfl
        exact hn ho
      obtain ⟨hu,hw',hse,hm'⟩ := ih hw hnd' hs hr
      refine ⟨by rw [hu],hw',fun o ho => hse o (spendCoin_settled hc ho),?_⟩
      funext o
      rw [hm',hm]
      by_cases ho : o=t.prevout
      · subst ho
        simp
      · simp [ho]

def Transaction.createsFrom (tx : Transaction) (nHeight : Nat) (i : Nat) (vout : List TxOut) :
    PlainMap := fun o =>
  if o.hash=tx.hash ∧ i≤o.n then (vout[o.n-i]?).bind (tx.storedCoin nHeight) else none

lemma Transaction.createsFrom_zero (tx : Transaction) (nHeight : Nat) :
    tx.createsFrom nHeight 0 tx.vout=tx.creates nHeight := by
  funext o
  simp [createsFrom,creates]

lemma Transaction.createsFrom_nil (tx : Transaction) (nHeight i : Nat) (o : OutPoint) :
    tx.createsFrom nHeight i [] o=none := by
  simp [createsFrom]

lemma Transaction.createsFrom_cons_self (tx : Transaction) (nHeight i : Nat) (out : TxOut)
    (vout : List TxOut) :
    tx.createsFrom nHeight i (out::vout) (tx.outpoint i)=tx.storedCoin nHeight out := by
  simp [createsFrom,outpoint]

lemma Transaction.createsFrom_succ_self (tx : Transaction) (nHeight i : Nat)
    (vout : List TxOut) : tx.createsFrom nHeight (i+1) vout (tx.outpoint i)=none := by
  simp [createsFrom,outpoint]

lemma Transaction.createsFrom_cons_ne (tx : Transaction) (nHeight i : Nat) (out : TxOut)
    (vout : List TxOut) {o : OutPoint} (ho : o≠tx.outpoint i) :
    tx.createsFrom nHeight i (out::vout) o=tx.createsFrom nHeight (i+1) vout o := by
  by_cases hh : o.hash=tx.hash
  · have hn : o.n≠i := by
      rintro rfl
      exact ho (by rw [outpoint,← hh])
    by_cases hi : i≤o.n
    · obtain ⟨k,_⟩ : ∃ k, o.n=i+1+k := ⟨o.n-(i+1),by omega⟩
      have h1 : o.n-i=k+1 := by omega
      have h2 : o.n-(i+1)=k := by omega
      simp only [createsFrom,hh,h1,h2,getElem?_cons_succ]
      rw [if_pos ⟨trivial,hi⟩,if_pos ⟨trivial,by omega⟩]
    · rw [createsFrom,createsFrom,if_neg (by omega),if_neg (by omega)]
  · simp [createsFrom,hh]

lemma addCoinsFrom_ok {i : Nat} (hc : c.WF) (hs : ∀ n < i+vout.length, c.Settled (tx.outpoint n))
    (h : addCoinsFrom tx nHeight false c i vout=.ok c') :
    c'.WF ∧ (∀ o, c.Settled o → c'.Settled o) ∧
      (c'.coinAt=fun o => (tx.createsFrom nHeight i vout o).or (c.coinAt o)) ∧
      (tx.isCoinBase=false → ∀ o, (tx.createsFrom nHeight i vout o).isSome → c.coinAt o=none) := by
  induction vout generalizing c i with
  | nil =>
    cases h
    exact ⟨hc,fun _ h => h,by simp [createsFrom_nil],by simp [createsFrom_nil]⟩
  | cons ou vout ih =>
    simp only [addCoinsFrom,false_eq_true,if_false,bind_eq_ok] at h
    obtain ⟨a,ha,hr⟩ := h
    obtain ⟨hw,-,-,-,hm,hno⟩ := addCoin_ok hc ha (fun _ => hs i (by simp))
    have hs1 : ∀ n < i+1+vout.length, a.Settled (tx.outpoint n) := fun n hn =>
      addCoin_settled ha (hs n (by rw [length_cons]; omega))
    obtain ⟨hw',hs',hm',hno'⟩ := ih hw hs1 hr
    have hst : ∀ o, o≠tx.outpoint i → a.coinAt o=c.coinAt o := by
      intro o ho
      rw [hm]
      split
      · rfl
      · exact Function.update_of_ne ho _ _
    refine ⟨hw',fun o ho => hs' o (addCoin_settled ha ho),?_,fun hcb o hso => ?_⟩
    · funext o
      simp only [hm']
      by_cases ho : o=tx.outpoint i
      · subst ho
        rw [tx.createsFrom_succ_self,tx.createsFrom_cons_self,hm]
        cases hu : isUnspendable ou.scriptPubKey <;> simp [storedCoin,hu]
      · rw [tx.createsFrom_cons_ne nHeight i ou vout ho,hst o ho]
    · by_cases ho : o=tx.outpoint i
      · subst ho
        rw [tx.createsFrom_cons_self] at hso
        refine hno hcb ?_
        cases hu : isUnspendable ou.scriptPubKey with
        | true => simp [storedCoin,hu] at hso
        | false => rfl
      · rw [tx.createsFrom_cons_ne nHeight i ou vout ho] at hso
        rw [← hst o ho]
        exact hno' hcb o hso

lemma Transaction.mem_outpoints {n : Nat} : tx.outpoint n∈tx.outpoints ↔ n<tx.vout.length := by
  simp [outpoints,outpoint]

lemma Transaction.mem_outpoints_of_creates {o : OutPoint}
    (h : (tx.creates nHeight o).isSome) : o∈tx.outpoints := by
  unfold creates at h
  split at h
  · rename_i hh
    have ho : o=tx.outpoint o.n := by rw [outpoint,← hh]
    rw [ho,mem_outpoints]
    by_contra hn
    rw [getElem?_eq_none (by omega)] at h
    cases h
  · cases h

lemma Transaction.nodup_spends (h : (tx.vin.map prevout).Nodup) : tx.spends.Nodup := by
  unfold spends
  split
  · exact nodup_nil
  · exact h

lemma updateCoins_ok {undo coins : TxUndo} (hc : c.WF) (hs : ∀ o∈tx.outpoints, c.Settled o)
    (hnd : (tx.vin.map prevout).Nodup) (hco : tx.spends.map c.coinAt=coins.map some)
    (hcb : tx.isCoinBase → ∀ o∈tx.outpoints, c.coinAt o=none)
    (h : updateCoins tx c nHeight=.ok (c',undo)) :
    undo=coins ∧ tx.Fits nHeight undo c.coinAt ∧ c'.WF ∧ (∀ o, c.Settled o → c'.Settled o) ∧
      c'.coinAt=tx.applyTo nHeight c.coinAt := by
  simp only [updateCoins,bind_eq_ok,mapError_eq_ok,pure_eq_ok,addCoins] at h
  obtain ⟨s,hsp,_,ha,hr⟩ := h
  cases hr
  -- both kinds of transactions first take their inputs out
  have hi : s.2=coins ∧ s.1.WF ∧ (∀ o, c.Settled o → s.1.Settled o) ∧
      s.1.coinAt=fun o => if o∈tx.spends then none else c.coinAt o := by
    cases hb : tx.isCoinBase with
    | true =>
      simp only [hb,if_true,pure_eq_ok] at hsp
      subst hsp
      rw [spends,hb] at hco
      cases coins with
      | nil => exact ⟨rfl,hc,fun _ h => h,by simp [spends,hb]⟩
      | cons a coins => cases hco
    | false =>
      simp only [hb,false_eq_true,if_false] at hsp
      simp only [spends,hb,false_eq_true,if_false] at hco ⊢
      exact spendInputs_ok hc hnd hco hsp
  obtain ⟨hu,hw,hs',hm⟩ := hi
  obtain ⟨hw',hs'',hm',hno⟩ := addCoinsFrom_ok hw
    (fun n hn => hs' _ (hs _ (mem_outpoints.mpr (by omega)))) ha
  rw [tx.createsFrom_zero] at hm' hno
  refine ⟨hu,⟨hu ▸ hco,tx.nodup_spends hnd,fun o ho hou => ?_⟩,hw',fun o ho => hs'' o (hs' o ho),?_⟩
  · cases hb : tx.isCoinBase with
    | true => exact hcb hb o (mem_outpoints_of_creates ho)
    | false =>
      simpa [hm,hou] using hno hb o ho
  · rw [hm',hm]
    rfl

def Transaction.fee (tx : Transaction) (undo : TxUndo) : Int :=
  if tx.isCoinBase then 0 else valueOfCoins undo-valueOf tx.vout

variable {env : ConnectEnv} {pindex : BlockIndex} {st st' : ConnectState} {i : Nat}

lemma connectInputs_ok (hc : st.view.WF) (h : env.connectInputs pindex st tx=.ok (st',coins)) :
    Reads st.view st'.view ∧ st'.vtxundo=st.vtxundo ∧ ∃ spent : List Coin,
      (tx.vin.map prevout).map st.view.coinAt=spent.map some ∧
      st'.nFees=st.nFees+(valueOfCoins spent-valueOf tx.vout) := by
  simp only [connectInputs,bind_eq_ok,mapError_eq_ok,rejectIf_eq_ok,pure_eq_ok] at h
  obtain ⟨⟨_,_⟩,hi,-,-,-,-,hre⟩ := h
  obtain ⟨hr,spent,hs,hf⟩ := checkTxInputs_ok hc hi
  cases hre
  exact ⟨hr.trans (accessCoins_reads hr.wf tx.vin),rfl,spent,hs,by rw [← hf]⟩

lemma connectScripts_ok (h : env.connectScripts pindex st tx coins=.ok st') :
    st'.view=st.view ∧ st'.vtxundo=st.vtxundo ∧ st'.nFees=st.nFees := by
  unfold connectScripts at h
  split at h
  · cases h
    exact ⟨rfl,rfl,rfl⟩
  split at h
  · cases h
    exact ⟨rfl,rfl,rfl⟩
  split at h
  · cases h
    exact ⟨rfl,rfl,rfl⟩
  · cases h

lemma connectTx_ok (hc : st.view.WF) (hse : ∀ o∈tx.outpoints, st.view.Settled o)
    (hn : (tx.vin.map prevout).Nodup) (hcb : tx.isCoinBase →
    ∀ o∈tx.outpoints, st.view.coinAt o=none)
    (h : env.connectTx pindex i st tx=.ok st') :
    ∃ undo : TxUndo, tx.Fits pindex.nHeight undo st.view.coinAt ∧ st'.view.WF ∧
      (∀ o, st.view.Settled o → st'.view.Settled o) ∧
      st'.view.coinAt=tx.applyTo pindex.nHeight st.view.coinAt ∧
      st'.nFees=st.nFees+tx.fee undo ∧
      st'.vtxundo=if i=0 then st.vtxundo else st.vtxundo++[undo] := by
  simp only [connectTx,bind_eq_ok,rejectIf_eq_ok,pure_eq_ok] at h
  obtain ⟨⟨_,_⟩,hi,-,-,s1,hs,⟨_,undo⟩,hup,hrs⟩ := h
  -- up to UpdateCoins the body only reads the view and adds the fee
  have hre : Reads st.view s1.view ∧ s1.vtxundo=st.vtxundo ∧ ∃ s,
      tx.spends.map st.view.coinAt=s.map some ∧ s1.nFees=st.nFees+tx.fee s := by
    cases hb : tx.isCoinBase with
    | true =>
      simp only [hb,if_true,pure_eq_ok,Prod.mk.injEq] at hi hs
      obtain ⟨rfl,-⟩ := hi
      subst hs
      exact ⟨.refl hc,rfl,[],by simp [spends,hb],by simp [fee,hb]⟩
    | false =>
      simp only [hb,false_eq_true,if_false] at hi hs
      obtain ⟨hr,hun,s,hsp,hfe⟩ := connectInputs_ok hc hi
      obtain ⟨hv,hu,hf⟩ := connectScripts_ok hs
      rw [hv,hu,hf]
      exact ⟨hr,hun,s,by simpa [spends,hb] using hsp,by simpa [fee,hb] using hfe⟩
  obtain ⟨hr,hvt,s,hsp,hfe⟩ := hre
  rw [← hr.coinAt] at hsp
  obtain ⟨hun,hfi,hw,hse',hm⟩ := updateCoins_ok hr.wf (fun o ho => hr.settled o (hse o ho)) hn hsp
    (fun hb o ho => by rw [hr.coinAt]; exact hcb hb o ho) hup
  rw [hr.coinAt] at hfi hm
  subst hrs
  exact ⟨undo,hfi,hw,fun o ho => hse' o (hr.settled o ho),hm,by rw [hun,← hfe],by rw [← hvt]⟩

namespace TxLog
def fees (log : TxLog) : Int := (log.map (fun p => p.1.fee p.2)).sum

lemma fees_cons (tx : Transaction) (undo : TxUndo) (log : TxLog) :
    fees ((tx,undo)::log)=tx.fee undo+log.fees := by
  simp [fees]
end TxLog

lemma connectTxs_ok {vtx : List Transaction} (hi : i≠0) (hc : st.view.WF)
    (hs : ∀ tx∈vtx, ∀ o∈tx.outpoints, st.view.Settled o) (hn : ∀ tx∈vtx, (tx.vin.map prevout).Nodup)
    (hcb : ∀ tx∈vtx, tx.isCoinBase=false) (h : env.connectTxs pindex i st vtx=.ok st') :
    ∃ log : TxLog, log.map fst=vtx ∧ log.Fits pindex.nHeight st.view.coinAt ∧
      st'.view.WF ∧ st'.view.coinAt=log.applyTo pindex.nHeight st.view.coinAt ∧
      st'.nFees=st.nFees+log.fees ∧ st'.vtxundo=st.vtxundo++log.map snd := by
  induction vtx generalizing i st with
  | nil =>
    cases h
    exact ⟨[],rfl,trivial,hc,rfl,by simp [TxLog.fees],by simp⟩
  | cons tx vtx ih =>
    simp only [connectTxs,bind_eq_ok] at h
    obtain ⟨_,htx,hr⟩ := h
    have hh : tx∈tx::vtx := mem_cons_self
    obtain ⟨un,hft,hw,hs',hm,hf,hu⟩ := connectTx_ok hc (hs tx hh) (hn tx hh)
        (by simp [hcb tx hh]) htx
    obtain ⟨log,hl,hfi,hw',hm',hf',hu'⟩ := ih (Nat.succ_ne_zero i) hw
      (fun t ht o ho => hs' o (hs t (mem_cons_of_mem _ ht) o ho))
      (fun t ht => hn t (mem_cons_of_mem _ ht)) (fun t ht => hcb t (mem_cons_of_mem _ ht)) hr
    rw [hm] at hfi hm'
    refine ⟨(tx,un)::log,by rw [map_cons,hl],⟨hft,hfi⟩,hw',hm',?_,?_⟩
    · rw [hf',hf,TxLog.fees_cons]
      omega
    · rw [hu',hu,if_neg hi,map_cons,append_assoc]
      rfl

/-- What ConnectBlock established about a block it accepted on the coins `U`. The coinbase
comes first, and its undo record is empty and not written. -/
structure Connected (params : ConsensusParams) (block : Block) (pindex : BlockIndex)
    (U : PlainMap) (undo : BlockUndo) : Prop where
  hasPrev : pindex.pprev≠[]
  vtx : ∃ coinbase rest, block.vtx=coinbase::rest ∧ coinbase.isCoinBase ∧
    (∀ tx∈rest, tx.isCoinBase=false) ∧ undo.length=rest.length ∧
    valueOf coinbase.vout≤TxLog.fees (rest.zip undo)+getBlockSubsidy pindex.nHeight params
  fits : TxLog.Fits (block.vtx.zip ([]::undo)) pindex.nHeight U
  nonneg : ∀ tx∈block.vtx, ∀ out∈tx.vout, 0≤out.nValue

def Block.applyTo (block : Block) (nHeight : Nat) (U : PlainMap) : PlainMap :=
  block.vtx.foldl (fun M tx => tx.applyTo nHeight M) U

lemma TxLog.applyTo_eq_foldl (log : TxLog) (U : PlainMap) :
    log.applyTo nHeight U=(log.map fst).foldl (fun M tx => tx.applyTo nHeight M) U := by
  rw [foldl_map]
  rfl

lemma Connected.applyTo_log {params : ConsensusParams} {b : Block} {undo : BlockUndo}
    {U : PlainMap} (h : Connected params b pindex U undo) (M : PlainMap) :
    TxLog.applyTo (b.vtx.zip ([]::undo)) nHeight M=b.applyTo nHeight M := by
  obtain ⟨_,_,hv,-,-,hl,-⟩ := h.vtx
  rw [TxLog.applyTo_eq_foldl,map_fst_zip (by simp [hv,hl]),Block.applyTo]

lemma zip_unzip_log (log : TxLog) : (log.map fst).zip (log.map snd)=log := by
  induction log with
  | nil => rfl
  | cons p log ih => simp [ih]

lemma Transaction.Fits.undo_of_coinBase {undo : TxUndo} {U : PlainMap}
    (h : tx.Fits nHeight undo U) (hb : tx.isCoinBase) : undo=[] := by
  have hs := h.spent
  rw [spends,hb] at hs
  cases undo with
  | nil => rfl
  | cons a undo => cases hs

lemma checkBlock_ok {b : Block} (h : env.checkBlock b=.ok u) :
    ∃ coinbase rest, b.vtx=coinbase::rest ∧ coinbase.isCoinBase ∧
      (∀ tx∈rest, tx.isCoinBase=false) ∧ ∀ tx∈b.vtx, checkTransaction tx=.ok () := by
  simp only [checkBlock,bind_eq_ok,rejectIf_eq_ok] at h
  obtain ⟨-,-,-,-,-,-,-,-,-,he,-,hf,-,hr,_,ht,-⟩ := h
  cases hv : b.vtx with
  | nil => simp [hv] at he
  | cons coinbase rest =>
    simp only [hv,head?_cons,Option.any_some,not_eq_false',tail_cons,any_eq_false] at hf hr
    exact ⟨coinbase,rest,rfl,hf,fun tx htx => by simpa using hr tx htx,hv ▸ checkTransactions_ok ht⟩

variable {blk : Block} {vi vi' : CoinsViewCache}

lemma connectTransactions_ok {undo : BlockUndo} (hc : vi.WF) (hce : env.checkBlock blk=.ok ())
    (hb : env.params.enforceBIP30 pindex)
    (h : env.connectTransactions blk pindex vi=.ok (vi',undo)) :
    Connected env.params blk pindex vi.coinAt undo ∧ vi'.WF ∧
      vi'.coinAt=blk.applyTo pindex.nHeight vi.coinAt ∧ vi'.hashBlock=pindex.hash := by
  obtain ⟨coinbase,rest,hvt,hcb,hre,hch⟩ := checkBlock_ok hce
  simp only [connectTransactions,hb,if_true,bind_eq_ok,rejectIf_eq_ok,pure_eq_ok] at h
  obtain ⟨-,hp,-,hol,_,hl,v,hv,-,hrw,-,-,hr⟩ := h
  obtain ⟨hrd,hn⟩ := haveAny_spec hc (blk.vtx.flatMap outpoints)
  have hf : ∀ tx∈blk.vtx, ∀ o∈tx.outpoints, vi.coinAt o=none := fun tx htx o ho =>
    hn hol o (mem_flatMap.mpr ⟨tx,htx,ho⟩)
  have hs : ∀ tx∈blk.vtx, ∀ o∈tx.outpoints,
      (vi.haveAny (blk.vtx.flatMap outpoints)).1.Settled o := fun tx htx o ho =>
    hrd.settled o (settled_of_none (hf tx htx o ho))
  have hnd : ∀ tx∈blk.vtx, (tx.vin.map prevout).Nodup := fun tx htx =>
    (checkTransaction_ok (hch tx htx)).1
  generalize (vi.haveAny (blk.vtx.flatMap outpoints)).1=old at *
  rw [hvt] at hs hnd hf hv hl
  simp only [connectTxs,bind_eq_ok] at hl
  obtain ⟨_,htx,hl⟩ := hl
  have hh : coinbase∈coinbase::rest := mem_cons_self
  -- the coinbase finds the coins as the BIP30 check left them
  obtain ⟨_,hfi,hw,hs1,hm,hfee,hun⟩ := connectTx_ok hrd.wf (hs coinbase hh) (hnd coinbase hh)
    (fun _ o ho => by rw [hrd.coinAt]; exact hf coinbase hh o ho) htx
  obtain rfl := hfi.undo_of_coinBase hcb
  obtain ⟨log,hlo,hft,hw',hm',hfe,hu⟩ := connectTxs_ok (by simp) hw
    (fun t ht o ho => hs1 o (hs t (mem_cons_of_mem _ ht) o ho))
    (fun t ht => hnd t (mem_cons_of_mem _ ht)) hre hl
  simp only [hun,if_true,nil_append] at hu
  have hz : rest.zip undo=log := by
    cases hr
    rw [hu,← hlo,zip_unzip_log]
  have hle : undo.length=rest.length := by
    cases hr
    rw [hu,← hlo,length_map,length_map]
  have ha : blk.vtx.zip ([]::undo)=(coinbase,[])::log := by
    rw [hvt,zip_cons_cons,hz]
  rw [hm,hrd.coinAt] at hft hm'
  rw [hrd.coinAt] at hfi
  refine ⟨⟨by simpa using hp,⟨coinbase,rest,hvt,hcb,hre,hle,?_⟩,?_,fun tx htx =>
    (checkTransaction_ok (hch tx htx)).2⟩,?_,?_,?_⟩
  · have hv := valueOutOrThrow_ok hv
    have hze : coinbase.fee []=0 := by simp [fee,hcb]
    rw [hfe,hfee] at hrw
    rw [hz]
    simp only [decide_eq_false_iff_not] at hrw
    omega
  · rw [ha]
    exact ⟨hfi,hft⟩
  · cases hr
    exact hw'
  · have hfs : blk.vtx=((coinbase,[])::log : TxLog).map fst := by
      rw [hvt,map_cons,hlo]
    rw [Block.applyTo,hfs,← TxLog.applyTo_eq_foldl]
    cases hr
    exact hm'
  · cases hr
    rfl

lemma connectBlock_ok {un : Option BlockUndo} (hc : vi.WF)
    (hg : blk.hash≠env.params.hashGenesisBlock)
    (hbi : env.params.enforceBIP30 pindex) (h : env.connectBlock blk pindex vi=.ok (vi',un)) :
    ∃ blockUndo, un=some blockUndo ∧ pindex.hash=blk.hash ∧
      pindex.prevHash=vi.getBestBlock.2 ∧
      Connected env.params blk pindex vi.coinAt blockUndo ∧ vi'.WF ∧
      vi'.coinAt=blk.applyTo pindex.nHeight vi.coinAt ∧ vi'.hashBlock=pindex.hash := by
  simp only [connectBlock,bind_eq_ok,rejectIf_eq_ok,mapError_eq_ok,if_neg hg,pure_eq_ok] at h
  obtain ⟨-,hha,_,hch,-,hb,⟨_,blockUndo⟩,hr,hre⟩ := h
  cases hre
  have hrd := getBestBlock_reads hc
  obtain ⟨hco,hw,hm,hh⟩ := connectTransactions_ok hrd.wf hch hbi hr
  rw [hrd.coinAt] at hco hm
  exact ⟨blockUndo,rfl,by simpa using hha,by simpa using hb,hco,hw,hm,hh⟩
end Xero
