import Xero.BlockTree
import Xero.CoinsDb

/-! ReplayBlocks takes a half flushed coins database to the new tip: it rolls the old branch back to
the fork and the new one forward, both right on any mixture of the coins of the two tips. -/
namespace Xero
open Library CoinsViewCache List Option Transaction

/-- What the node finds after a restart: the block index, and what ReadBlockFromDisk and
UndoReadFromDisk return. -/
structure BlockStore where
  tree : BlockTree
  known : Uint256 → Bool
  readBlock : Uint256 → Option Block
  readUndo : Uint256 → Option BlockUndo

inductive ReplayError where
  | unknownState
  | unknownBlock
  | readBlockFailed
  | rollbackFailed
  | assertion
  | coins (e : CoinsError)
  deriving DecidableEq, Repr

/-- An entry of the index with its ancestors, from the newest to genesis. -/
def BlockTree.branch (tree : BlockTree) (h : Uint256) : List Uint256 := h::(tree.index h).pprev

def meet : List Uint256 → List Uint256 → List Uint256
  | a::as, b::bs => if a=b then a::as else meet as bs
  | _, _ => []
def lastCommonAncestor (pa pb : List Uint256) : List Uint256 :=
  meet (pa.drop (pa.length-pb.length)) (pb.drop (pb.length-pa.length))

/- RollforwardBlock spends without looking at what was there. -/
def spendPrevouts (inputs : CoinsViewCache) (vin : List TxIn) : CoinsViewCache :=
  vin.foldl (fun c txin => (c.spendCoin txin.prevout).1) inputs

/-- Every addition may be an overwrite. -/
def rollforwardTx (nHeight : Nat) (inputs : CoinsViewCache) (tx : Transaction) :
    Except CoinsError CoinsViewCache :=
  addCoins (if tx.isCoinBase then inputs else spendPrevouts inputs tx.vin) tx nHeight true

namespace BlockStore
variable (store : BlockStore)

def rollforwardBlock (h : Uint256) (inputs : CoinsViewCache) : Except ReplayError CoinsViewCache :=
  match store.readBlock h with
  | none => .error .readBlockFailed
  | some block => (block.vtx.foldlM (rollforwardTx (store.tree.index h).nHeight) inputs).mapError
      .coins

def rollbackBlock (h : Uint256) (cache : CoinsViewCache) : Except ReplayError CoinsViewCache :=
  match store.readBlock h with
  | none => .error .readBlockFailed
  | some block =>
    match disconnectBlock block (store.readUndo h) (store.tree.index h) cache with
    | .ok (_,cache') => .ok cache'
    | .error .disconnectFailed => .error .rollbackFailed
    | .error (.coins e) => .error (.coins e)
    | .error .assertion => .error .assertion

/-- The loop along the old branch; DISCONNECT_UNCLEAN is accepted, and genesis is never
disconnected. -/
def rollback (fork : List Uint256) (cache : CoinsViewCache) :
    List Uint256 → Except ReplayError CoinsViewCache
  | [] => if fork=[] then .ok cache else .error .assertion
  | h::older =>
    if h::older=fork then .ok cache
    else do
      let cache' ← (if older=[] then pure cache else store.rollbackBlock h cache)
      rollback fork cache' older

def rollforward (branch : List Uint256) (cache : CoinsViewCache) :
    List Nat → Except ReplayError CoinsViewCache
  | [] => .ok cache
  | nHeight::rest =>
    match branch.reverse[nHeight]? with
    | none => .error .assertion
    | some h => do
      let cache' ← store.rollforwardBlock h cache
      rollforward branch cache' rest

/-- The fork point; null when the old tip is, which means that it was the first flush. -/
def replayFork (new old : Uint256) : Except ReplayError (List Uint256) :=
  if old=0 then .ok []
  else do
    rejectIf (!store.known old) .unknownBlock
    let fork := lastCommonAncestor (store.tree.branch old) (store.tree.branch new)
    rejectIf fork.isEmpty .assertion
    pure fork

/-- ReplayBlocks up to its Flush. `none` when the database is consistent already. -/
def replayCache (db : CoinsDb) : Except ReplayError (Option CoinsViewCache) :=
  match db.getHeadBlocks with
  | [] => .ok none
  | [new,old] => do
    rejectIf (!store.known new) .unknownBlock
    let fork ← store.replayFork new old
    let oldBranch := if old=0 then [] else store.tree.branch old
    let rolled ← store.rollback fork db.toView.newCache oldBranch
    let nForkHeight := fork.length-1
    let cache ← store.rollforward (store.tree.branch new) rolled
      (range' (nForkHeight+1) ((store.tree.index new).nHeight-nForkHeight))
    pure (some (cache.setBestBlock new))
  | _ => .error .unknownState

/-- ReplayBlocks, when the flush at its end gets as far as `k` batches, or all. -/
def replayBlocks (full : List DbWrite → Bool) (k : Option Nat) (db : CoinsDb) :
    Except ReplayError CoinsDb := do
  match ← store.replayCache db with
  | none => pure db
  | some cache => do
    let batches ← (db.batchWrite full cache.cacheCoins cache.hashBlock).mapError .coins
    pure (db.crashAfter batches (k.getD batches.length))
end BlockStore
section
variable {tree : BlockTree} {h h' : Uint256} {a b : List Uint256}

def IsBranch (tree : BlockTree) (l : List Uint256) : Prop :=
  ∀ h older, l=h::older → (tree.index h).pprev=older

lemma isBranch_branch (tree : BlockTree) (h : Uint256) : IsBranch tree (tree.branch h) := by
  intro k _ hk
  cases hk
  rfl

lemma IsBranch.tail (hb : IsBranch tree (h::a)) : IsBranch tree a := by
  rintro p o rfl
  exact tree.index_prev h p o (hb h _ rfl)

lemma IsBranch.drop (hb : IsBranch tree a) (n : Nat) : IsBranch tree (a.drop n) := by
  induction n generalizing a with
  | zero => exact hb
  | succ n ih =>
    cases a with
    | nil => exact hb
    | cons h a => exact ih hb.tail

lemma IsBranch.eq_of_head (ha : IsBranch tree (h::a)) (hb : IsBranch tree (h::b)) : a=b :=
  (ha h a rfl).symm.trans (hb h b rfl)

lemma meet_spec (ha : IsBranch tree a) (hb : IsBranch tree b) (hl : a.length=b.length)
    (hr : a.getLast?=b.getLast?) (hn : a≠[]) :
    meet a b≠[] ∧ (∃ as, a=as++meet a b) ∧ ∃ bs, b=bs++meet a b := by
  induction a generalizing b with
  | nil => exact absurd rfl hn
  | cons x xs ih =>
    cases b with
    | nil => cases hl
    | cons y ys =>
      by_cases hx : x=y
      · subst hx
        obtain rfl := ha.eq_of_head hb
        simp only [meet,if_true]
        exact ⟨by simp,⟨[],rfl⟩,⟨[],rfl⟩⟩
      · have hl' : xs.length=ys.length := by simpa using hl
        have hxs : xs≠[] := by
          rintro rfl
          obtain rfl := eq_nil_of_length_eq_zero hl'.symm
          exact hx (by simpa using hr)
        have hy : ys≠[] := by
          rintro rfl
          exact hxs (eq_nil_of_length_eq_zero hl')
        have hr' : xs.getLast?=ys.getLast? := by
          rwa [getLast?_cons_of_ne_nil hxs,getLast?_cons_of_ne_nil hy] at hr
        obtain ⟨hm,⟨as,has⟩,⟨bs,hbs⟩⟩ := ih ha.tail hb.tail hl' hr' hxs
        simp only [meet,if_neg hx]
        exact ⟨hm,⟨x::as,by rw [cons_append,← has]⟩,⟨y::bs,by rw [cons_append,← hbs]⟩⟩

lemma lastCommonAncestor_spec (ha : IsBranch tree a) (hb : IsBranch tree b) (hna : a≠[])
    (hnb : b≠[]) (hr : a.getLast?=b.getLast?) :
    lastCommonAncestor a b≠[] ∧ (∃ as, a=as++lastCommonAncestor a b) ∧
      ∃ bs, b=bs++lastCommonAncestor a b := by
  have hp := length_pos_iff.mpr hna
  have hpb := length_pos_iff.mpr hnb
  have hln : (a.drop (a.length-b.length)).length=(b.drop (b.length-a.length)).length := by
    rw [length_drop,length_drop]
    omega
  have hne : a.drop (a.length-b.length)≠[] := by
    rw [← length_pos_iff,length_drop]
    omega
  have hneb : b.drop (b.length-a.length)≠[] := by
    rw [← length_pos_iff,length_drop]
    omega
  have hl : ∀ (l : List Uint256) n, l.drop n≠[] → (l.drop n).getLast?=l.getLast? := by
    intro l n hn
    rw [getLast?_drop,if_neg]
    intro hle
    exact hn (drop_eq_nil_of_le hle)
  obtain ⟨hm,⟨as,has⟩,⟨bs,hbs⟩⟩ := meet_spec (ha.drop _) (hb.drop _) hln
    (by rw [hl a _ hne,hl b _ hneb,hr]) hne
  refine ⟨hm,⟨a.take (a.length-b.length)++as,?_⟩,⟨b.take (b.length-a.length)++bs,?_⟩⟩
  · rw [lastCommonAncestor,append_assoc,← has,take_append_drop]
  · rw [lastCommonAncestor,append_assoc,← hbs,take_append_drop]
end
section
variable {c : CoinsViewCache} {tx : Transaction} {nH : Nat}

lemma spendPrevouts_spec (vin : List TxIn) (hc : c.WF) : SameBase c (spendPrevouts c vin) ∧
    (spendPrevouts c vin).coinAt=fun o => if o∈vin.map TxIn.prevout then none else c.coinAt o := by
  induction vin generalizing c with
  | nil => exact ⟨.refl hc,by simp [spendPrevouts]⟩
  | cons t vin ih =>
    obtain ⟨hw,hb,-,hm,-,-⟩ := spendCoin_spec hc t.prevout
    obtain ⟨hs,hr⟩ := ih hw
    refine ⟨SameBase.trans ⟨hw,hb⟩ hs,hr.trans ?_⟩
    funext o
    rw [hm]
    by_cases ho : o=t.prevout
    · subst ho
      simp
    · simp [ho]

lemma addCoinsFrom_check (tx : Transaction) (nHeight i : Nat) {v : List TxOut} (hc : c.WF)
    (hv : ∀ out∈v, 0≤out.nValue) :
    ∃ c', addCoinsFrom tx nHeight true c i v=.ok c' ∧ SameBase c c' ∧
      c'.coinAt=fun o => (tx.createsFrom nHeight i v o).or (c.coinAt o) := by
  induction v generalizing c i with
  | nil => exact ⟨c,rfl,.refl hc,by simp [Transaction.createsFrom_nil]⟩
  | cons out v ih =>
    have hr : Reads c (c.haveCoin (tx.outpoint i)).1 := fetchCoin_reads hc (tx.outpoint i)
    have hfn := (haveCoin_spec hc (tx.outpoint i)).2.2
    have hun : Coin.isSpent ⟨out,tx.isCoinBase,nHeight⟩=false := by
      have hnn := hv out mem_cons_self
      have hn : out.nValue≠-1 := by omega
      simpa [Coin.isSpent,TxOut.isNull] using hn
    have how : (c.haveCoin (tx.outpoint i)).2=false →
        (c.haveCoin (tx.outpoint i)).1.coinAt (tx.outpoint i)=none := by
      intro hf
      rw [hr.coinAt,← not_isSome_iff_eq_none,← hfn,hf]
      simp
    obtain ⟨c1,ha,hw,hb,-,hm⟩ := addCoin_spec hr.wf hun how
    obtain ⟨c',hre,hs,hm'⟩ := ih (i+1) hw (fun t ht => hv t (mem_cons_of_mem _ ht))
    refine ⟨c',?_,hr.sameBase.trans (SameBase.trans ⟨hw,by rw [hb]⟩ hs),?_⟩
    · simp only [addCoinsFrom,if_true,bind_eq_ok]
      exact ⟨c1,ha,hre⟩
    · funext o
      simp only [hm',hm,hr.coinAt]
      by_cases ho : o=tx.outpoint i
      · subst ho
        rw [tx.createsFrom_succ_self,tx.createsFrom_cons_self]
        cases hu : isUnspendable out.scriptPubKey <;> simp [storedCoin,hu]
      · rw [tx.createsFrom_cons_ne nHeight i out v ho]
        split
        · rfl
        · rw [Function.update_of_ne ho]

lemma rollforwardTx_spec (nHeight : Nat) (hc : c.WF) (hv : ∀ out∈tx.vout, 0≤out.nValue) :
    ∃ c', rollforwardTx nHeight c tx=.ok c' ∧ SameBase c c' ∧
      c'.coinAt=tx.applyTo nHeight c.coinAt := by
  cases hb : tx.isCoinBase with
  | true =>
    obtain ⟨c',ha,hs,hm⟩ := addCoinsFrom_check tx nHeight 0 hc hv
    refine ⟨c',by simpa [rollforwardTx,hb,addCoins] using ha,hs,?_⟩
    rw [hm,tx.createsFrom_zero]
    funext o
    simp [Transaction.applyTo,Transaction.spends,hb]
  | false =>
    obtain ⟨hsp,hg⟩ := spendPrevouts_spec tx.vin hc
    obtain ⟨c',ha,hs,hm⟩ := addCoinsFrom_check tx nHeight 0 hsp.wf hv
    refine ⟨c',by simpa [rollforwardTx,hb,addCoins] using ha,hsp.trans hs,?_⟩
    rw [hm,tx.createsFrom_zero,hg]
    funext o
    simp [Transaction.applyTo,Transaction.spends,hb]

lemma foldlM_rollforwardTx_spec (nHeight : Nat) (vtx : List Transaction) (hc : c.WF)
    (hv : ∀ tx∈vtx, ∀ out∈tx.vout, 0≤out.nValue) :
    ∃ c', vtx.foldlM (rollforwardTx nHeight) c=.ok c' ∧ SameBase c c' ∧
      c'.coinAt=vtx.foldl (fun M tx => tx.applyTo nHeight M) c.coinAt := by
  induction vtx generalizing c with
  | nil => exact ⟨c,rfl,.refl hc,rfl⟩
  | cons tx vtx ih =>
    obtain ⟨c1,h1,hs,hm⟩ := rollforwardTx_spec nHeight hc (hv tx mem_cons_self)
    obtain ⟨c',h',hs',hm'⟩ := ih hs.wf (fun t ht => hv t (mem_cons_of_mem _ ht))
    refine ⟨c',?_,hs.trans hs',by rw [hm',hm]; rfl⟩
    rw [foldlM_cons,bind_eq_ok]
    exact ⟨c1,h1,h'⟩
end
section
variable {params : ConsensusParams} {store : BlockStore} {c : CoinsViewCache} {h : Uint256}

/-- The block and its undo data can be read, as ConnectBlock left them. -/
def BlockStore.Kept (params : ConsensusParams) (store : BlockStore) (h : Uint256) : Prop :=
  store.readBlock h=some (store.tree.block h) ∧
    ∃ u, store.readUndo h=some u ∧ BlockTree.Recorded params store.tree h u

variable {tr : BlockTree}

lemma IsBranch.utxoAt_prevHash {p : Uint256} {o : List Uint256} (hb : IsBranch tr (h::p::o)) :
    tr.utxoAt (tr.index h).prevHash=tr.utxoOf (p::o) := by
  have hp := hb h _ rfl
  rw [BlockTree.prevHash_of_prev hp,BlockTree.utxoAt,tr.index_prev h p o hp]

lemma IsBranch.utxoAt_head {o : List Uint256}
    (hb : IsBranch tr (h::o)) : tr.utxoAt h=tr.utxoOf (h::o) := by
  rw [BlockTree.utxoAt,hb h o rfl]

lemma rollbackBlock_spec (hk : store.Kept params h) (hc : c.WF) :
    ∃ c' T f, store.rollbackBlock h c=.ok c' ∧ SameBase c c' ∧ c'.coinAt=f c.coinAt ∧
      Overwrites T (store.tree.utxoAt (store.tree.index h).prevHash) f ∧
      ∀ o, o∉T → store.tree.utxoAt h o=store.tree.utxoAt (store.tree.index h).prevHash o := by
  obtain ⟨hre,u,hu,hr⟩ := hk
  obtain ⟨_,c',hd,hs,hm,-,-⟩ := disconnectBlock_spec hc (hr.connected.undoShape hr.stored)
  exact ⟨c',_,_,by simp [BlockStore.rollbackBlock,hre,hu,hd],hs,hm,
    TxLog.revertOn_overwrites _ _ _ hr.connected.fits,fun o ho => hr.utxoAt_kept ho⟩

lemma rollforwardBlock_spec (hk : store.Kept params h) (hc : c.WF) :
    ∃ c' T f, store.rollforwardBlock h c=.ok c' ∧ SameBase c c' ∧ c'.coinAt=f c.coinAt ∧
      Overwrites T (store.tree.utxoAt h) f ∧
      ∀ o, o∉T → store.tree.utxoAt (store.tree.index h).prevHash o=store.tree.utxoAt h o := by
  obtain ⟨hre,u,-,hr⟩ := hk
  obtain ⟨c',hf,hs,hm⟩ := foldlM_rollforwardTx_spec (store.tree.index h).nHeight
    (store.tree.block h).vtx hc hr.connected.nonneg
  refine ⟨c',_,_,by simp [BlockStore.rollforwardBlock,hre,hf],hs,?_,
    hr.applyTo_overwrites,fun o ho => (hr.utxoAt_kept ho).symm⟩
  rw [hm]
  exact (hr.connected.applyTo_log c.coinAt).symm

/-- Rolling back to the fork sets whatever the old branch touched to the coins at the fork. -/
lemma rollback_spec (as fork : List Uint256) (hf : fork≠[])
    (hb : IsBranch store.tree (as++fork)) (hke : ∀ k∈as, store.Kept params k) (hc : c.WF) :
    ∃ c' T f, store.rollback fork c (as++fork)=.ok c' ∧ SameBase c c' ∧
      c'.coinAt=f c.coinAt ∧ Overwrites T (store.tree.utxoOf fork) f ∧
      ∀ o, o∉T → store.tree.utxoOf (as++fork) o=store.tree.utxoOf fork o := by
  induction as generalizing c with
  | nil =>
    refine ⟨c,∅,id,?_,.refl hc,rfl,.refl _,fun _ _ => rfl⟩
    obtain ⟨f,ol,rfl⟩ := exists_cons_of_ne_nil hf
    simp [BlockStore.rollback]
  | cons h as ih =>
    obtain ⟨p,ol,hp⟩ := exists_cons_of_ne_nil (append_ne_nil_of_right_ne_nil as hf)
    obtain ⟨c1,T,f,h1,hs,hm,hov,hou⟩ := rollbackBlock_spec (hke h mem_cons_self) hc
    obtain ⟨c',T',_,h',hs',hm',hov',hou'⟩ := ih hb.tail
      (fun k hk => hke k (mem_cons_of_mem _ hk)) hs.wf
    rw [cons_append] at hb ⊢
    rw [hb.utxoAt_head] at hou
    rw [hp] at hb
    rw [hb.utxoAt_prevHash,← hp] at hov hou
    refine ⟨c',T ∪ T',_,?_,hs.trans hs',by rw [hm',hm],hov.comp hov' hou',?_⟩
    · have hl : h::(as++fork)≠fork := fun he => by
        have := congrArg length he
        simp at this
        omega
      have hn : as++fork≠[] := append_ne_nil_of_right_ne_nil as hf
      simp only [BlockStore.rollback,if_neg hl,if_neg hn,bind_eq_ok]
      exact ⟨c1,h1,h'⟩
    · intro o ho
      rw [hou o (fun hT => ho (.inl hT)),hou' o (fun hT => ho (.inr hT))]

lemma rollforward_eq (d t : List Uint256) (c : CoinsViewCache) :
    store.rollforward (d++t).reverse c (range' d.length t.length)=
      t.foldlM (fun c h => store.rollforwardBlock h c) c := by
  induction t generalizing d c with
  | nil => rfl
  | cons h t ih =>
    have hg : (d++h::t).reverse.reverse[d.length]?=some h := by simp
    simp only [length_cons,range'_succ,BlockStore.rollforward,hg,foldlM_cons]
    refine congrArg _ (funext (fun c' => ?_))
    simpa using ih (d++[h]) c'

lemma foldlM_rollforwardBlock_spec (bs fo : List Uint256) (hf : fo≠[])
    (hb : IsBranch store.tree (bs.reverse++fo)) (hke : ∀ k∈bs, store.Kept params k) (hc : c.WF) :
    ∃ c' T f, bs.foldlM (fun c h => store.rollforwardBlock h c) c=.ok c' ∧ SameBase c c' ∧
      c'.coinAt=f c.coinAt ∧ Overwrites T (store.tree.utxoOf (bs.reverse++fo)) f ∧
      ∀ o, o∉T → store.tree.utxoOf fo o=store.tree.utxoOf (bs.reverse++fo) o := by
  induction bs generalizing c fo with
  | nil => exact ⟨c,∅,id,rfl,.refl hc,rfl,.refl _,fun _ _ => rfl⟩
  | cons h bs ih =>
    obtain ⟨p,ol,rfl⟩ := exists_cons_of_ne_nil hf
    rw [reverse_cons,append_assoc,singleton_append] at hb ⊢
    have hb' : IsBranch store.tree (h::p::ol) := by
      have := hb.drop bs.reverse.length
      rwa [drop_left] at this
    obtain ⟨c1,T,f,h1,hs,hm,hov,hou⟩ := rollforwardBlock_spec (hke h mem_cons_self) hc
    obtain ⟨c',T',_,h',hs',hm',hov',hou'⟩ := ih (h::p::ol) (by simp) hb
      (fun k hk => hke k (mem_cons_of_mem _ hk)) hs.wf
    rw [hb'.utxoAt_head] at hov hou
    rw [hb'.utxoAt_prevHash] at hou
    refine ⟨c',T ∪ T',_,?_,hs.trans hs',by rw [hm',hm],hov.comp hov' hou',?_⟩
    · rw [foldlM_cons,bind_eq_ok]
      exact ⟨c1,h1,h'⟩
    · intro o ho
      rw [hou o (fun hT => ho (.inl hT)),hou' o (fun hT => ho (.inr hT))]

/-- A tip whose branch goes down to genesis, with all its blocks and undo data on disk. -/
structure BlockStore.OnDisk (params : ConsensusParams) (store : BlockStore)
    (h : Uint256) : Prop where
  known : store.known h
  nonnull : h≠0
  root : (store.tree.branch h).getLast?=some params.hashGenesisBlock
  kept : ∀ k∈store.tree.branch h, (store.tree.index k).pprev≠[] → store.Kept params k

lemma IsBranch.pprev_ne_nil {as f : List Uint256} (hf : f≠[])
    (hb : IsBranch tr (as++f)) : ∀ k∈as, (tr.index k).pprev≠[] := by
  induction as with
  | nil => simp
  | cons h as ih =>
    refine forall_mem_cons.mpr ⟨?_,ih hb.tail⟩
    rw [hb h _ rfl]
    exact append_ne_nil_of_right_ne_nil as hf

variable {old new : Uint256} {db : CoinsDb}

lemma OnDisk.kept_above {as f : List Uint256} (hd : store.OnDisk params h) (hf : f≠[])
    (he : store.tree.branch h=as++f) : ∀ k∈as, store.Kept params k := by
  intro k hk
  have hb := isBranch_branch store.tree h
  rw [he] at hb
  exact hd.kept k (by rw [he]; exact mem_append_left _ hk) (hb.pprev_ne_nil hf k hk)

/-- Whatever mixture of the two coin sets the database holds, ReplayBlocks builds the new one. -/
lemma replayCache_spec (hol : store.OnDisk params old) (hn : store.OnDisk params new)
    (hd : MidFlush db old new (store.tree.utxoAt old) (store.tree.utxoAt new)) :
    ∃ c, store.replayCache db=.ok (some c) ∧ c.WF ∧ c.base.coinAt=db.coinAt ∧
      c.coinAt=store.tree.utxoAt new ∧ c.hashBlock=new := by
  obtain ⟨hf,⟨as,has⟩,⟨bs,hbs⟩⟩ := lastCommonAncestor_spec (isBranch_branch store.tree old)
    (isBranch_branch store.tree new) (by simp [BlockTree.branch]) (by simp [BlockTree.branch])
    (hol.root.trans hn.root.symm)
  generalize hF : lastCommonAncestor (store.tree.branch old) (store.tree.branch new)=fork at *
  have hw : db.toView.newCache.WF :=
    ⟨trivial,fun o e hl => by cases (AList.lookup_empty o).symm.trans hl⟩
  have hc : db.toView.newCache.coinAt=db.coinAt := by
    funext o
    exact coinAt_of_lookup_none (AList.lookup_empty o)
  -- back to the fork
  obtain ⟨c1,T,f,h1,hs1,hm1,hov1,hou1⟩ := rollback_spec as fork hf
    (has ▸ isBranch_branch store.tree old) (OnDisk.kept_above hol hf has) hw
  -- and forward to the new tip
  obtain ⟨c2,_,f',h2,hs2,hm₂,hov2,hou2⟩ := foldlM_rollforwardBlock_spec bs.reverse fork
    hf (by rw [reverse_reverse,← hbs]; exact isBranch_branch store.tree new)
    (fun k hk => OnDisk.kept_above hn hf hbs k (mem_reverse.mp hk)) hs1.wf
  rw [reverse_reverse] at hov2 hou2
  have hh : store.rollforward (store.tree.branch new) c1
      (range' (fork.length-1+1) ((store.tree.index new).nHeight-(fork.length-1)))=.ok c2 := by
    have hp := length_pos_iff.mpr hf
    have hle : (store.tree.index new).nHeight+1=bs.length+fork.length := by
      rw [← length_append,← hbs,BlockTree.branch,length_cons,BlockIndex.nHeight]
    have hs : fork.length-1+1=fork.reverse.length := by
      rw [length_reverse]
      omega
    have hcn : (store.tree.index new).nHeight-(fork.length-1)=bs.reverse.length := by
      rw [length_reverse]
      omega
    have hb : store.tree.branch new=(fork.reverse++bs.reverse).reverse := by
      rw [reverse_append,reverse_reverse,reverse_reverse,hbs]
    rw [hs,hcn,hb,rollforward_eq]
    exact h2
  refine ⟨c2.setBestBlock new,?_,hs2.wf,?_,?_,rfl⟩
  · have hhe : db.getHeadBlocks=[new,old] := by rw [CoinsDb.getHeadBlocks,hd.heads]; rfl
    have hne : fork.isEmpty=false := by simpa using hf
    simp only [BlockStore.replayCache,hhe,BlockStore.replayFork,if_neg hol.nonnull,hF,
      bind_eq_ok,rejectIf_eq_ok,pure_eq_ok]
    exact ⟨(),by simp [hn.known],fork,⟨(),by simp [hol.known],(),hne,rfl⟩,c1,has ▸ h1,c2,hh,rfl⟩
  · exact CoinsView.coinAt_eq_of_levels (hs1.trans hs2).below
  · have ha := hov1.comp hov2 hou2
    have hr : c2.coinAt=f' (f db.coinAt) := by rw [hm₂,hm1,hc]
    have hba : store.tree.utxoOf (bs++fork)=store.tree.utxoAt new := by
      rw [← hbs]
      rfl
    have hbr : store.tree.utxoOf (as++fork)=store.tree.utxoAt old := by
      rw [← has]
      rfl
    rw [hba] at ha hou2
    rw [hbr] at hou1
    refine hr.trans (ha.eq_of_agree (fun o ho => ?_))
    obtain hu | hv := hd.mixed o
    · rw [hu,hou1 o (fun hT => ho (.inl hT)),hou2 o (fun hT => ho (.inr hT))]
    · exact hv

lemma MidFlush.trans {U V : PlainMap} {db' : CoinsDb} (h : MidFlush db old new U V)
    (h' : MidFlush db' old new db.coinAt V) : MidFlush db' old new U V := by
  refine ⟨h'.best,h'.heads,fun o => ?_⟩
  obtain hk | hv := h'.mixed o
  · rw [hk]
    exact h.mixed o
  · exact .inr hv

/-- A replay from the middle of a flush leaves the database there, or done; one that is not
cut short leaves it done. -/
lemma replayBlocks_of_midFlush (ho : store.OnDisk params old) (hne : store.OnDisk params new)
    (f : List DbWrite → Bool) (k : Option Nat)
    (hd : MidFlush db old new (store.tree.utxoAt old) (store.tree.utxoAt new)) :
    ∃ db', store.replayBlocks f k db=.ok db' ∧
      (MidFlush db' old new (store.tree.utxoAt old) (store.tree.utxoAt new) ∧ k≠none ∨
        ConsistentDb db' new (store.tree.utxoAt new)) := by
  obtain ⟨c,hc,hw,hb,hco,hh⟩ := replayCache_spec ho hne hd
  have hba : db.batchWrite f c.cacheCoins c.hashBlock=
      .ok (flushBatches f c.cacheCoins c.hashBlock old) := by
    simp [CoinsDb.batchWrite,CoinsDb.getBestBlock,CoinsDb.getHeadBlocks,hd.best,hd.heads,
      hh,hne.nonnull,rejectIf,ok_bind,pure_ok]
  have hr : store.replayBlocks f k db=.ok
      (db.crashAfter (flushBatches f c.cacheCoins c.hashBlock old)
      (k.getD (flushBatches f c.cacheCoins c.hashBlock old).length)) := by
    simp [BlockStore.replayBlocks,hc,hba,ok_bind,pure_ok]
  refine ⟨_,hr,?_⟩
  have hp : (flushBatches f c.cacheCoins c.hashBlock old).length≠0 := by
    simpa [flushBatches] using splitBatches_ne_nil f entryWrites _ _ _
  have hst := crashAfter_flushBatches f old hw hb
    (k.getD (flushBatches f c.cacheCoins c.hashBlock old).length)
  rw [hco,hh] at hst
  rw [hh] at hp ⊢
  obtain ⟨hk,hs⟩ | ⟨hl,hm⟩ | hcn := hst
  · left
    rw [hs]
    refine ⟨hd,fun hn => ?_⟩
    rw [hn] at hk
    exact hp hk
  · left
    refine ⟨hd.trans hm,fun hn => ?_⟩
    rw [hn] at hl
    exact absurd hl (lt_irrefl _)
  · exact .inr hcn

lemma replayBlocks_of_consistent {U : PlainMap} (f : List DbWrite → Bool) (k : Option Nat)
    (hd : ConsistentDb db new U) : store.replayBlocks f k db=.ok db := by
  simp [BlockStore.replayBlocks,BlockStore.replayCache,CoinsDb.getHeadBlocks,hd.heads,
      ok_bind,pure_ok]

lemma replayBlocks_keeps (ho : store.OnDisk params old) (hn : store.OnDisk params new)
    (f : List DbWrite → Bool) (k : Option Nat)
    (hd : MidFlush db old new (store.tree.utxoAt old) (store.tree.utxoAt new) ∨
      ConsistentDb db new (store.tree.utxoAt new)) :
    ∃ db', store.replayBlocks f k db=.ok db' ∧
      (MidFlush db' old new (store.tree.utxoAt old) (store.tree.utxoAt new) ∨
        ConsistentDb db' new (store.tree.utxoAt new)) := by
  obtain hm | hc := hd
  · obtain ⟨db',h',⟨hm',-⟩ | hc'⟩ := replayBlocks_of_midFlush ho hn f k hm
    · exact ⟨db',h',.inl hm'⟩
    · exact ⟨db',h',.inr hc'⟩
  · exact ⟨db,replayBlocks_of_consistent f k hc,.inr hc⟩

/-- The coins cache that is about to be flushed from the old tip to the new one. -/
structure FlushSetting (params : ConsensusParams) (store : BlockStore) (old new : Uint256)
    (db : CoinsDb) (c : CoinsViewCache) : Prop where
  oldOnDisk : store.OnDisk params old
  newOnDisk : store.OnDisk params new
  flushed : ConsistentDb db old (store.tree.utxoAt old)
  wf : c.WF
  overDb : c.base.coinAt=db.coinAt
  coins : c.coinAt=store.tree.utxoAt new
  hashBlock : c.hashBlock=new

/-- A flush cut short after any of its batches but the very start, and then any number of
replays cut short anywhere, end with the first replay that completes at the new tip. -/
theorem replayBlocks_recovers (params : ConsensusParams) (store : BlockStore) (old new : Uint256)
    (db : CoinsDb) (c : CoinsViewCache) (hset : FlushSetting params store old new db c)
    (full : List DbWrite → Bool) (k : Nat) (hk : k≠0)
    (crashes : List ((List DbWrite → Bool)×Nat)) (full' : List DbWrite → Bool) :
    ∃ batches db1 db2, db.batchWrite full c.cacheCoins c.hashBlock=.ok batches ∧
      crashes.foldlM (fun d p => store.replayBlocks p.1 (some p.2) d) (db.crashAfter batches k)=
        .ok db1 ∧
      store.replayBlocks full' none db1=.ok db2 ∧
      ConsistentDb db2 new (store.tree.utxoAt new) := by
  have ho := hset.oldOnDisk
  have hn := hset.newOnDisk
  have hb : db.batchWrite full c.cacheCoins c.hashBlock=
      .ok (flushBatches full c.cacheCoins c.hashBlock old) := by
    have hnu : (c.hashBlock==0)=false := by simpa [hset.hashBlock] using hn.nonnull
    have hbe : db.getBestBlock=old := by rw [CoinsDb.getBestBlock,hset.flushed.best]; rfl
    have hnt : (old==0)=false := by simpa using ho.nonnull
    simp [CoinsDb.batchWrite,hnu,hbe,hnt,rejectIf,ok_bind,pure_ok]
  have hst : MidFlush (db.crashAfter (flushBatches full c.cacheCoins c.hashBlock old) k)
        old new (store.tree.utxoAt old) (store.tree.utxoAt new) ∨
      ConsistentDb (db.crashAfter (flushBatches full c.cacheCoins c.hashBlock old) k)
        new (store.tree.utxoAt new) := by
    have hs := crashAfter_flushBatches full old hset.wf hset.overDb k
    rw [hset.hashBlock,hset.coins,hset.flushed.coins] at hs
    rw [hset.hashBlock]
    obtain ⟨hz,-⟩ | ⟨-,hm⟩ | hc := hs
    · exact absurd hz hk
    · exact .inl hm
    · exact .inr hc
  obtain ⟨db1,hr,hs⟩ := foldlM_succeeds
    (I := fun d => MidFlush d old new (store.tree.utxoAt old) (store.tree.utxoAt new) ∨
      ConsistentDb d new (store.tree.utxoAt new))
    crashes (fun d (p : (List DbWrite → Bool)×Nat) _ hd =>
      replayBlocks_keeps ho hn p.1 (some p.2) hd)
    (db.crashAfter (flushBatches full c.cacheCoins c.hashBlock old) k) hst
  obtain hm | hc := hs
  · obtain ⟨db2,hf,⟨-,hno⟩ | hc⟩ := replayBlocks_of_midFlush ho hn full' none hm
    · exact absurd rfl hno
    · exact ⟨_,db1,db2,hb,hr,hf,hc⟩
  · exact ⟨_,db1,db1,hb,hr,replayBlocks_of_consistent full' none hc,hc⟩
end
section
def sampleStore : BlockStore where
  tree := sampleTree
  known h := h==1 || h==2
  readBlock h := some (sampleTree.block h)
  readUndo h := if h=2 then some [] else none

def sampleDb : CoinsDb := ⟨∅,some 1,none⟩
def sampleCache : CoinsViewCache where
  cacheCoins := (∅ : CoinsMap).insert ⟨8,0⟩ ⟨⟨⟨10,[]⟩,true,1⟩,true,true⟩
  hashBlock := 2
  base := sampleDb.toView

lemma sample_recorded : BlockTree.Recorded permissiveEnv.params sampleTree 2 [] := by
  have hr : ∀ o, sampleTree.utxoAt 1 o=none := fun o => rfl
  have hc : ∃ v, permissiveEnv.connectBlock (sampleTree.block 2) (sampleTree.index 2)
      sampleDb.toView.newCache=.ok (v,some []) := ⟨_,rfl⟩
  obtain ⟨v,hc⟩ := hc
  have hw : sampleDb.toView.newCache.WF :=
    ⟨trivial,fun o e hl => by cases (AList.lookup_empty o).symm.trans hl⟩
  obtain ⟨_,hu,-,-,hco,-⟩ := connectBlock_ok hw (by decide) (by decide) hc
  cases hu
  exact ⟨hco,fun o co ho => by cases (hr o).symm.trans ho⟩

lemma sample_setting : FlushSetting permissiveEnv.params sampleStore 1 2 sampleDb sampleCache := by
  have hc : sampleCache.coinAt=sampleTree.utxoAt 2 := by
    funext o
    by_cases ho : o=⟨8,0⟩
    · subst ho
      rfl
    · have hl : sampleCache.cacheCoins.lookup o=none := by
        rw [sampleCache,AList.lookup_insert_ne ho]
        rfl
      have hca : sampleCache.coinAt o=none := coinAt_of_lookup_none hl
      have hno : sampleCoinbase.creates 1 o=none := by
        rw [← not_isSome_iff_eq_none]
        intro hs
        have hm := mem_outpoints_of_creates hs
        exact ho (by simpa [outpoints,outpoint,sampleCoinbase] using hm)
      have hb : sampleTree.utxoAt 2 o=sampleCoinbase.applyTo 1 (fun _ => none) o := rfl
      rw [hca,hb,Transaction.applyTo,hno,none_or,ite_self]
  refine ⟨⟨rfl,by decide,rfl,?_⟩,⟨rfl,by decide,rfl,?_⟩,⟨rfl,rfl,rfl⟩,?_,rfl,hc,rfl⟩
  · intro k hk hne
    obtain rfl : k=1 := by simpa [BlockTree.branch,sampleStore,sampleTree] using hk
    exact absurd rfl hne
  · intro k hk hne
    have hk' : k=2 ∨ k=1 := by simpa [BlockTree.branch,sampleStore,sampleTree,sampleIndex] using hk
    obtain rfl | rfl := hk'
    · exact ⟨rfl,[],rfl,sample_recorded⟩
    · exact absurd rfl hne
  · refine ⟨trivial,fun o e hl => ?_⟩
    by_cases ho : o=⟨8,0⟩
    · subst ho
      have he : sampleCache.cacheCoins.lookup ⟨8,0⟩=some ⟨⟨⟨10,[]⟩,true,1⟩,true,true⟩ :=
        AList.lookup_insert _
      cases he.symm.trans hl
      exact ⟨by simp,fun _ => rfl⟩
    · have hn : sampleCache.cacheCoins.lookup o=none := by
        rw [sampleCache,AList.lookup_insert_ne ho]
        rfl
      cases hn.symm.trans hl
end

theorem replayBlocks_recovers_sample :
    ∃ batches db1 db2, sampleDb.batchWrite (fun _ => true) sampleCache.cacheCoins 2=.ok batches ∧
      [((fun _ : List DbWrite => true),1)].foldlM
        (fun d p => sampleStore.replayBlocks p.1 (some p.2) d) (sampleDb.crashAfter batches 1)=
        .ok db1 ∧
      sampleStore.replayBlocks (fun _ => false) none db1=.ok db2 ∧
      ConsistentDb db2 2 (sampleStore.tree.utxoAt 2) :=
  replayBlocks_recovers permissiveEnv.params sampleStore 1 2 sampleDb sampleCache sample_setting
    (fun _ => true) 1 (by decide) [((fun _ => true),1)] (fun _ => false)

/-- A crash before the first batch leaves the old coins, and there is nothing to replay. -/
theorem replayBlocks_keeps_old_without_batch :
    FlushSetting permissiveEnv.params sampleStore 1 2 sampleDb sampleCache ∧
      ∃ batches db2, sampleDb.batchWrite (fun _ => true) sampleCache.cacheCoins 2=.ok batches ∧
        sampleStore.replayBlocks (fun _ => true) none (sampleDb.crashAfter batches 0)=.ok db2 ∧
        ¬ ConsistentDb db2 2 (sampleStore.tree.utxoAt 2) := by
  refine ⟨sample_setting,_,sampleDb,rfl,rfl,fun hd => ?_⟩
  have hb := hd.best
  simp [sampleDb] at hb
end Xero
