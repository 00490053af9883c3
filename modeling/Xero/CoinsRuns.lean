import Xero.Library.Simulation
import Xero.CoinsStack

/-! Flush and Sync push a level into its base, and any run on a stack of caches of any depth moves
the shown maps as it moves plain maps. -/
namespace Xero
open List Function AList
variable {o : OutPoint} {e : CacheEntry}
variable (l : List (Sigma (fun _ : OutPoint => CacheEntry)))

/-- Entries shown over a parent map. -/
def overlay (parent : PlainMap) : PlainMap :=
  fun o => match l.dlookup o with
    | some e => e.unspentCoin
    | none => parent o

lemma coinAt_eq_overlay (m : CoinsMap) (h : Uint256) (b : CoinsView) :
    (CoinsView.cache m h b).coinAt=overlay m.entries b.coinAt := by
  funext o
  rfl

lemma writeBaseEntry_spec (coins : BaseMap) (b : Uint256)
    (he : EntryOk e ((CoinsView.flat coins b).coinAt o)) :
    (CoinsView.flat (writeBaseEntry coins ⟨o,e⟩) b).coinAt =
      update (CoinsView.flat coins b).coinAt o e.unspentCoin := by
  cases hd : e.dirty with
  | false =>
    simp only [writeBaseEntry,hd,Bool.not_false,if_true]
    exact (update_eq_self_iff.mpr (he.clean hd)).symm
  | true =>
    funext o'
    by_cases ho : o'=o
    · subst o'
      cases hs : e.coin.isSpent <;>
        simp [writeBaseEntry,hd,hs,CoinsView.coinAt,CacheEntry.unspentCoin,Coin.live]
    · cases hs : e.coin.isSpent <;> simp [writeBaseEntry,hd,hs,CoinsView.coinAt,lookup_insert_ne ho,
          lookup_erase_ne ho,update_of_ne ho]

/-- Writing an entry into a parent cache: the logic_error branch contradicts FRESH, and
a FRESH entry of the parent may be dropped because the grandparent shows nothing. -/
lemma batchWriteEntry_spec {m : CoinsMap} {h : Uint256} {b : CoinsView}
    (hv : (CoinsView.cache m h b).WF) (he : EntryOk e ((CoinsView.cache m h b).coinAt o)) :
    ∃ m', batchWriteEntry m ⟨o,e⟩=.ok m' ∧ (CoinsView.cache m' h b).WF ∧
      (CoinsView.cache m' h b).coinAt =
        update (CoinsView.cache m h b).coinAt o e.unspentCoin := by
  cases hd : e.dirty with
  | false =>
    exact ⟨m,by simp [batchWriteEntry,hd],hv,(update_eq_self_iff.mpr (he.clean hd)).symm⟩
  | true =>
    cases hl : m.lookup o with
    | none =>
      have hb : (CoinsView.cache m h b).coinAt o=b.coinAt o := coinAt_of_lookup_none hl
      cases hsk : e.fresh && e.coin.isSpent with
      | true =>
        rw [Bool.and_eq_true] at hsk
        refine ⟨m,by simp [batchWriteEntry,hd,hl,hsk],hv,?_⟩
        have hsa : e.unspentCoin=(CoinsView.cache m h b).coinAt o := by
          rw [he.fresh hsk.1]
          exact Coin.live_of_spent hsk.2
        exact (update_eq_self_iff.mpr hsa).symm
      | false =>
        refine ⟨m.insert o ⟨e.coin,true,e.fresh⟩,by simp [batchWriteEntry,hd,hl,hsk],?_,
          coinAt_insert m h b o _⟩
        exact hv.insert ⟨by simp,fun hf => hb ▸ he.fresh hf⟩
    | some us =>
      have hu := hv.2 o us hl
      have hsh : (CoinsView.cache m h b).coinAt o=us.unspentCoin := coinAt_of_lookup_some hl
      have hm : (e.fresh && !us.coin.isSpent)=false := by
        cases hf : e.fresh with
        | false => rfl
        | true =>
          have hn := hsh.symm.trans (he.fresh hf)
          cases hs : us.coin.isSpent with
          | true => rfl
          | false => simp [CacheEntry.unspentCoin,Coin.live,hs] at hn
      cases hdo : us.fresh && e.coin.isSpent with
      | true =>
        refine ⟨m.erase o,by simp [batchWriteEntry,hd,hl,hm,hdo],hv.erase o,?_⟩
        rw [Bool.and_eq_true] at hdo
        have hn : e.unspentCoin=none := Coin.live_of_spent hdo.2
        rw [coinAt_erase,hu.fresh hdo.1,hn]
      | false =>
        refine ⟨m.insert o ⟨e.coin,true,us.fresh⟩,
          by simp [batchWriteEntry,hd,hl,hm,hdo],?_,coinAt_insert m h b o _⟩
        exact hv.insert ⟨by simp,hu.fresh⟩

lemma CoinsView.writeEntry_spec {v : CoinsView} (hv : v.WF) (he : EntryOk e (v.coinAt o)) :
    ∃ v', v.writeEntry ⟨o,e⟩=.ok v' ∧ v'.WF ∧ v'.levels.tail=v.levels.tail ∧
      v'.coinAt=update v.coinAt o e.unspentCoin := by
  cases v with
  | flat co be =>
    exact ⟨_,rfl,trivial,rfl,writeBaseEntry_spec co be he⟩
  | cache m h b =>
    obtain ⟨m',hm,hw,hc⟩ := batchWriteEntry_spec hv he
    exact ⟨.cache m' h b,by simp [writeEntry,hm,Except.map],hw,rfl,hc⟩

/-- The loop of BatchWrite. The keys of a map are distinct, so what a FRESH entry relies
on is still true when its turn comes. -/
lemma foldlM_writeEntry_spec (hl : l.NodupKeys) {v : CoinsView} (hv : v.WF)
    (he : ∀ o e, l.dlookup o=some e → EntryOk e (v.coinAt o)) :
    ∃ v', l.foldlM CoinsView.writeEntry v=.ok v' ∧ v'.WF ∧ v'.levels.tail=v.levels.tail ∧
      v'.coinAt=overlay l v.coinAt := by
  induction l generalizing v with
  | nil => exact ⟨v,rfl,hv,rfl,rfl⟩
  | cons it l ih =>
    obtain ⟨k,e⟩ := it
    obtain ⟨hk,hl'⟩ := nodupKeys_cons.mp hl
    obtain ⟨v1,h1,hw1,ht1,hc1⟩ := CoinsView.writeEntry_spec hv (he k e (by simp))
    have hne : ∀ o e', l.dlookup o=some e' → o≠k := by
      rintro o e' ho rfl
      exact hk (dlookup_isSome.mp (by simp [ho]))
    have he1 : ∀ o e', l.dlookup o=some e' → EntryOk e' (v1.coinAt o) := by
      intro o e' ho
      rw [hc1,update_of_ne (hne o e' ho)]
      exact he o e' (by rw [dlookup_cons_ne _ _ (hne o e' ho)]; exact ho)
    obtain ⟨v',h',hw',ht',hc'⟩ := ih hl' hw1 he1
    refine ⟨v',by simp [foldlM_cons,h1,h',bind,Except.bind],hw',ht'.trans ht1,?_⟩
    rw [hc',hc1]
    funext o
    by_cases ho : o=k
    · subst o
      have hn : l.dlookup k=none := dlookup_eq_none.mpr hk
      simp [overlay,hn]
    · have hc : dlookup o (⟨k,e⟩::l)=l.dlookup o := dlookup_cons_ne _ _ ho
      simp [overlay,hc,update_of_ne ho]

lemma CoinsView.setBestBlock_spec (v : CoinsView) (h : Uint256) :
    ((v.setBestBlock h).WF ↔ v.WF) ∧ (v.setBestBlock h).levels=v.levels := by
  cases v with
  | flat co be => exact ⟨Iff.rfl,rfl⟩
  | cache m hb b => exact ⟨Iff.rfl,rfl⟩

variable {c : CoinsViewCache}

/-- After BatchWrite the base shows what the written map shows over it. -/
lemma batchWrite_spec (hc : c.WF) (er : Bool) : ∃ v', c.base.batchWrite c.cacheCoins c.hashBlock er=
        .ok (v',if er then ∅ else c.cacheCoins) ∧
      v'.WF ∧ v'.levels=c.coinAt::c.base.levels.tail := by
  obtain ⟨v',h',hw,ht,hco⟩ := foldlM_writeEntry_spec c.cacheCoins.entries
    c.cacheCoins.nodupKeys hc.1 (fun o e ho => hc.2 o e ho)
  obtain ⟨hwf,hl⟩ := v'.setBestBlock_spec c.hashBlock
  refine ⟨v'.setBestBlock c.hashBlock,?_,hwf.mpr hw,?_⟩
  · simp [CoinsView.batchWrite,h',bind,Except.bind,pure,Except.pure]
  · obtain ⟨_,hb⟩ := v'.levels_eq_cons
    rw [hl,hb,hco]
    rw [hb] at ht
    exact congrArg₂ cons (coinAt_eq_overlay c.cacheCoins c.hashBlock c.base).symm ht

lemma foldl_syncEntry_lookup (hl : l.NodupKeys) (m : CoinsMap) (o : OutPoint) :
    (l.foldl syncEntry m).lookup o=(match l.dlookup o with
      | some e => if e.coin.isSpent then none else some ⟨e.coin,false,false⟩
      | none => m.lookup o) := by
  induction l generalizing m with
  | nil => rfl
  | cons it l ih =>
    obtain ⟨k,e⟩ := it
    obtain ⟨hk,hl'⟩ := nodupKeys_cons.mp hl
    rw [foldl_cons,ih hl']
    by_cases ho : o=k
    · subst o
      have hn : l.dlookup k=none := dlookup_eq_none.mpr hk
      cases hs : e.coin.isSpent <;> simp [hn,syncEntry,hs]
    · rw [dlookup_cons_ne _ _ ho]
      cases hs : e.coin.isSpent <;> simp [syncEntry,hs,lookup_insert_ne ho,lookup_erase_ne ho]

namespace CoinsViewCache
lemma flush_spec (hc : c.WF) :
    ∃ c', c.flush=.ok c' ∧ c'.WF ∧ c'.cacheCoins=∅ ∧ c'.hashBlock=c.hashBlock ∧
      c'.levels=c.coinAt::c.coinAt::c.base.levels.tail := by
  obtain ⟨v',h',hw,hl⟩ := batchWrite_spec hc true
  refine ⟨⟨∅,c.hashBlock,v'⟩,?_,⟨hw,by simp⟩,rfl,rfl,?_⟩
  · simp [flush,h',bind,Except.bind,pure,Except.pure]
  · obtain ⟨_,hb⟩ := v'.levels_eq_cons
    have hs : CoinsViewCache.coinAt ⟨∅,c.hashBlock,v'⟩=v'.coinAt := by
      funext o
      exact coinAt_of_lookup_none (lookup_empty o)
    rw [levels_eq,hs]
    rw [hb] at hl
    rw [hb,hl,(cons.inj hl).1]

lemma sync_spec (hc : c.WF) : ∃ c', c.sync=.ok c' ∧ c'.WF ∧ c'.hashBlock=c.hashBlock ∧
      c'.levels=c.coinAt::c.coinAt::c.base.levels.tail := by
  obtain ⟨v',h',hw,hle⟩ := batchWrite_spec hc false
  obtain ⟨_,hb⟩ := v'.levels_eq_cons
  rw [hb] at hle
  have hv : v'.coinAt=c.coinAt := (cons.inj hle).1
  have hlo := foldl_syncEntry_lookup c.cacheCoins.entries c.cacheCoins.nodupKeys c.cacheCoins
  have hsh : ∀ o e, c.cacheCoins.entries.dlookup o=some e → c.coinAt o=e.unspentCoin :=
    fun o e he => coinAt_of_lookup_some he
  refine ⟨⟨c.cacheCoins.entries.foldl syncEntry c.cacheCoins,c.hashBlock,v'⟩,?_,⟨hw,?_⟩,rfl,?_⟩
  · simp [sync,h',bind,Except.bind,pure,Except.pure]
  · intro o e he
    rw [hlo o] at he
    cases hd : c.cacheCoins.entries.dlookup o with
    | none =>
      rw [hd] at he
      cases hd.symm.trans he
    | some e0 =>
      rw [hd] at he
      cases hs : e0.coin.isSpent with
      | true => simp [hs] at he
      | false =>
        simp only [hs,Bool.false_eq_true,if_false,Option.some.injEq] at he
        subst e
        exact ⟨fun _ => by rw [hv,hsh o e0 hd]; rfl,by simp⟩
  · have ht : CoinsViewCache.coinAt
        ⟨c.cacheCoins.entries.foldl syncEntry c.cacheCoins,c.hashBlock,v'⟩=c.coinAt := by
      funext o
      simp only [CoinsViewCache.coinAt,toView,CoinsView.coinAt,hlo o]
      cases hd : c.cacheCoins.entries.dlookup o with
      | none =>
        have hl : c.cacheCoins.lookup o=none := hd
        simp only [hl]
        exact (congrFun hv o).trans (coinAt_of_lookup_none hl)
      | some e0 =>
        have hl : c.cacheCoins.lookup o=some e0 := hd
        cases hs : e0.coin.isSpent <;> simp [hl,hv,hs,hsh o e0 hd,CacheEntry.unspentCoin,Coin.live]
    rw [levels_eq,ht,hb]
    exact congrArg₂ (fun x y => c.coinAt::x::y) hv (cons.inj hle).2
end CoinsViewCache

/-- What the user of a stack of caches can do with its top. -/
inductive CacheOp where
  | addCoin (o : OutPoint) (coin : Coin) (possibleOverwrite : Bool)
  | spendCoin (o : OutPoint)
  | getCoin (o : OutPoint)
  | haveCoin (o : OutPoint)
  | accessCoin (o : OutPoint)
  | uncache (o : OutPoint)
  | push
  | flush
  | sync
  | discard

/-- Discarding keeps the last cache over the flat map. -/
def CacheOp.apply (c : CoinsViewCache) : CacheOp → Except CoinsError CoinsViewCache
  | .addCoin o coin ow => c.addCoin o coin ow
  | .spendCoin o => .ok (c.spendCoin o).1
  | .getCoin o => .ok (c.getCoin o).1
  | .haveCoin o => .ok (c.haveCoin o).1
  | .accessCoin o => .ok (c.accessCoin o).1
  | .uncache o => .ok (c.uncache o)
  | .push => .ok c.toView.newCache
  | .flush => c.flush
  | .sync => c.sync
  | .discard =>
    match c.base with
    | .flat _ _ => .ok c
    | .cache m h b => .ok ⟨m,h,b⟩

/-- The same operation on plain maps, the map of the top first and the flat map last. -/
def CacheOp.applyPlain (s : List PlainMap) : CacheOp → List PlainMap
  | .addCoin o coin _ =>
    s.modifyHead (fun top => if isUnspendable coin.out.scriptPubKey then top
      else update top o (some coin))
  | .spendCoin o => s.modifyHead (fun top => update top o none)
  | .getCoin _ | .haveCoin _ | .accessCoin _ | .uncache _ => s
  | .push => s.take 1++s
  | .flush | .sync => s.take 1++s.take 1++s.drop 2
  | .discard => if s.length≤2 then s else s.tail

/-- What callers guarantee: only unspent coins are added, and `possible_overwrite` is passed where
the top shows a coin. -/
def CacheOp.CallerOk (s : List PlainMap) : CacheOp → Prop
  | .addCoin o coin ow => coin.isSpent=false ∧ ∀ top∈s.head?, (top o).isSome → ow
  | _ => True

lemma CoinsView.levels_length_pos (v : CoinsView) : 0<v.levels.length := by
  obtain ⟨_,h⟩ := v.levels_eq_cons
  simp [h]

lemma CacheOp.apply_simulates (c : CoinsViewCache) (s : List PlainMap) (op : CacheOp)
    (h : c.WF ∧ c.levels=s) (ho : op.CallerOk s) :
    ∃ c', op.apply c=.ok c' ∧ c'.WF ∧ c'.levels=op.applyPlain s := by
  obtain ⟨hc,rfl⟩ := h
  cases op with
  | addCoin o ci ow =>
    have how : ow=false → c.coinAt o=none := by
      intro hf
      have hs := ho.2 c.coinAt (by simp [c.levels_eq])
      cases ht : c.coinAt o with
      | none => rfl
      | some d =>
        rw [hs (by simp [ht])] at hf
        cases hf
    obtain ⟨c',ha,hw,hba,-,hm⟩ := CoinsViewCache.addCoin_spec hc ho.1 how
    exact ⟨c',ha,hw,by rw [c'.levels_eq,hba,hm]; rfl⟩
  | spendCoin o =>
    obtain ⟨hw,hba,-,hm,-,-⟩ := CoinsViewCache.spendCoin_spec hc o
    exact ⟨_,rfl,hw,by rw [CoinsViewCache.levels_eq,hba,hm]; rfl⟩
  | getCoin o =>
    obtain ⟨hw,hl,-⟩ := CoinsViewCache.getCoin_spec hc o
    exact ⟨_,rfl,hw,hl⟩
  | haveCoin o =>
    obtain ⟨hw,hl,-⟩ := CoinsViewCache.haveCoin_spec hc o
    exact ⟨_,rfl,hw,hl⟩
  | accessCoin o =>
    obtain ⟨hw,hl,-⟩ := CoinsViewCache.accessCoin_spec hc o
    exact ⟨_,rfl,hw,hl⟩
  | uncache o =>
    obtain ⟨hw,hl⟩ := CoinsViewCache.uncache_spec hc o
    exact ⟨_,rfl,hw,hl⟩
  | push =>
    refine ⟨_,rfl,⟨hc,by simp [CoinsView.newCache]⟩,?_⟩
    rfl
  | flush =>
    obtain ⟨c',hf,hw,-,-,hl⟩ := CoinsViewCache.flush_spec hc
    exact ⟨c',hf,hw,by rw [hl,c.levels_eq]; simp [applyPlain]⟩
  | sync =>
    obtain ⟨c',hf,hw,-,hl⟩ := CoinsViewCache.sync_spec hc
    exact ⟨c',hf,hw,by rw [hl,c.levels_eq]; simp [applyPlain]⟩
  | discard =>
    cases hb : c.base with
    | flat co be =>
      exact ⟨c,by simp [apply,hb],hc,by simp [applyPlain,c.levels_eq,hb,CoinsView.levels]⟩
    | cache m h b =>
      have hba : (CoinsView.cache m h b).WF := hb ▸ hc.1
      refine ⟨⟨m,h,b⟩,by simp [apply,hb],hba,?_⟩
      have hp := b.levels_length_pos
      have hlo : ¬ (c.levels.length≤2) := by
        simp only [c.levels_eq,hb,CoinsView.levels,length_cons]
        omega
      rw [applyPlain,if_neg hlo,c.levels_eq,hb]
      rfl

/-- Any run of a stack of caches over a flat map: no operation throws, every level shows
the map that the same run gives on plain maps, reads answer from the top one, and
Flush and Sync make the parent show the map of the child. -/
theorem cacheStack_refines (coins : BaseMap) (best : Uint256) (ops : List CacheOp)
    (hops : Library.AllowedRun (fun s op => CacheOp.CallerOk s op) CacheOp.applyPlain
      (CoinsView.flat coins best).newCache.levels ops) :
    ∃ c, ops.foldlM CacheOp.apply (CoinsView.flat coins best).newCache=.ok c ∧
      c.levels=ops.foldl CacheOp.applyPlain (CoinsView.flat coins best).newCache.levels ∧
      (∀ o, (c.getCoin o).2=c.coinAt o ∧ (c.haveCoin o).2=(c.coinAt o).isSome ∧
        (c.accessCoin o).2.live=c.coinAt o) ∧
      (∃ c', c.flush=.ok c' ∧ c'.coinAt=c.coinAt ∧ c'.base.coinAt=c.coinAt) ∧
      (∃ c', c.sync=.ok c' ∧ c'.coinAt=c.coinAt ∧ c'.base.coinAt=c.coinAt) := by
  obtain ⟨c,hr,hc,hl⟩ := Library.foldlM_simulates
    (R := fun c s => c.WF ∧ c.levels=s) CacheOp.apply_simulates ops
    (CoinsView.flat coins best).newCache _ ⟨⟨trivial,by simp [CoinsView.newCache]⟩,rfl⟩ hops
  have hp : ∀ c' : CoinsViewCache, c'.levels=c.coinAt::c.coinAt::c.base.levels.tail →
      c'.coinAt=c.coinAt ∧ c'.base.coinAt=c.coinAt := by
    intro c' h'
    obtain ⟨_,hb⟩ := c'.base.levels_eq_cons
    rw [c'.levels_eq,hb] at h'
    exact ⟨(cons.inj h').1,(cons.inj (cons.inj h').2).1⟩
  obtain ⟨cf,hf,-,-,-,hlf⟩ := CoinsViewCache.flush_spec hc
  obtain ⟨cs,hs,-,-,hls⟩ := CoinsViewCache.sync_spec hc
  exact ⟨c,hr,hl,fun o => ⟨(CoinsViewCache.getCoin_spec hc o).2.2,
    (CoinsViewCache.haveCoin_spec hc o).2.2,(CoinsViewCache.accessCoin_spec hc o).2.2⟩,
    ⟨cf,hf,hp cf hlf⟩,⟨cs,hs,hp cs hls⟩⟩

def flushedSpendRun : List CacheOp :=
  [.push,.addCoin ⟨1,0⟩ ⟨⟨5,[]⟩,false,7⟩ false,.flush,.discard,.spendCoin ⟨1,0⟩,
    .addCoin ⟨1,0⟩ ⟨⟨6,[]⟩,true,8⟩ false,.sync]

/-- A coin added in a child and flushed can be spent and replaced one level down. -/
theorem cacheStack_refines_flushed_spend :
    ∃ c, flushedSpendRun.foldlM CacheOp.apply (CoinsView.flat ∅ 0).newCache=.ok c ∧
      c.coinAt ⟨1,0⟩=some ⟨⟨6,[]⟩,true,8⟩ := by
  have hn : ∀ o, (CoinsView.flat ∅ 0).newCache.coinAt o=none := fun o => by
    simp [CoinsViewCache.coinAt,CoinsViewCache.toView,CoinsView.newCache,CoinsView.coinAt]
  obtain ⟨c,hr,hl,-⟩ := cacheStack_refines ∅ 0 flushedSpendRun
    ⟨trivial,⟨rfl,by simp [CacheOp.applyPlain,CoinsViewCache.levels_eq,hn]⟩,trivial,trivial,
      trivial,⟨rfl,by simp [CacheOp.applyPlain,CoinsViewCache.levels_eq,CoinsView.newCache,
        CoinsView.levels]⟩,trivial,trivial⟩
  refine ⟨c,hr,?_⟩
  simp only [flushedSpendRun,foldl_cons,foldl_nil,CacheOp.applyPlain,
    CoinsViewCache.levels_eq,CoinsView.newCache,CoinsView.levels] at hl
  have ht := (cons.inj hl).1
  simp [ht,isUnspendable]
end Xero
