import Xero.CoinsCache

/-! What a stack of coins caches shows, and what the DIRTY and FRESH flags promise about the level
below. Each operation moves the shown map as it moves a plain map, and keeps the promises. -/
namespace Xero
open Function Option Bool CoinsView Coin CacheEntry AList
variable {o : OutPoint} {coin : Coin} {ow : Bool}

abbrev PlainMap := OutPoint → Option Coin

/-- The unspent coin a view shows at an outpoint. A spent coin in the flat map, like a
spent entry of a cache, shows nothing. -/
def CoinsView.coinAt : CoinsView → PlainMap
  | .flat coins _, o => (coins.lookup o).bind Coin.live
  | .cache m _ b, o =>
    match m.lookup o with
    | some e => e.unspentCoin
    | none => b.coinAt o

def CoinsView.levels : CoinsView → List PlainMap
  | .flat coins best => [(CoinsView.flat coins best).coinAt]
  | .cache m h b => (CoinsView.cache m h b).coinAt::b.levels

/-- A clean entry repeats the coin of the parent, a FRESH one has none below it. -/
structure EntryOk (e : CacheEntry) (parent : Option Coin) : Prop where
  clean : e.dirty=false → e.unspentCoin=parent
  fresh : e.fresh → parent=none

def CoinsView.WF : CoinsView → Prop
  | .flat _ _ => True
  | .cache m _ b => b.WF ∧ ∀ o e, m.lookup o=some e → EntryOk e (b.coinAt o)

lemma CoinsView.levels_eq_cons (v : CoinsView) : ∃ below, v.levels=v.coinAt::below := by
  cases v with
  | flat co be => exact ⟨[],rfl⟩
  | cache m h b => exact ⟨b.levels,rfl⟩

lemma CoinsView.coinAt_eq_of_levels {v w : CoinsView} (h : v.levels=w.levels) :
    v.coinAt=w.coinAt := by
  obtain ⟨_,hv⟩ := v.levels_eq_cons
  obtain ⟨_,hw⟩ := w.levels_eq_cons
  rw [hv,hw] at h
  exact (List.cons.inj h).1

section
variable (m : CoinsMap) (h : Uint256) (b : CoinsView)

lemma coinAt_insert (o : OutPoint) (e : CacheEntry) : (cache (m.insert o e) h b).coinAt =
      update (cache m h b).coinAt o e.unspentCoin := by
  funext o'
  by_cases ho : o'=o
  · subst o'
    simp [coinAt,lookup_insert]
  · simp [coinAt,lookup_insert_ne ho,update_of_ne ho]

lemma coinAt_erase (o : OutPoint) : (cache (m.erase o) h b).coinAt =
      update (cache m h b).coinAt o (b.coinAt o) := by
  funext o'
  by_cases ho : o'=o
  · subst o'
    simp [coinAt,lookup_erase]
  · simp [coinAt,lookup_erase_ne ho,update_of_ne ho]

variable {m h b}

lemma CoinsView.WF.insert (hv : (cache m h b).WF) {e : CacheEntry}
    (he : EntryOk e (b.coinAt o)) : (cache (m.insert o e) h b).WF := by
  refine ⟨hv.1,fun o' e' hl => ?_⟩
  by_cases ho : o'=o
  · subst o'
    rw [lookup_insert] at hl
    cases hl
    exact he
  · rw [lookup_insert_ne ho] at hl
    exact hv.2 o' e' hl

lemma CoinsView.WF.erase (hv : (cache m h b).WF) (o : OutPoint) : (cache (m.erase o) h b).WF := by
  refine ⟨hv.1,fun o' e' hl => ?_⟩
  by_cases ho : o'=o
  · subst o'
    rw [lookup_erase] at hl
    cases hl
  · rw [lookup_erase_ne ho] at hl
    exact hv.2 o' e' hl

lemma CoinsView.WF.rebase {b' : CoinsView} (hv : (cache m h b).WF)
    (hb : b'.WF) (hc : b'.coinAt=b.coinAt) : (cache m h b').WF :=
  ⟨hb,fun o e hl => by rw [hc]; exact hv.2 o e hl⟩

lemma coinAt_rebase {b' : CoinsView} (hc : b'.coinAt=b.coinAt) :
    (cache m h b').coinAt=(cache m h b).coinAt := by
  funext o
  simp only [coinAt,hc]

lemma coinAt_of_lookup_none (hl : m.lookup o=none) : (cache m h b).coinAt o=b.coinAt o := by
  simp [coinAt,hl]

lemma coinAt_of_lookup_some {e : CacheEntry} (hl : m.lookup o=some e) :
    (cache m h b).coinAt o=e.unspentCoin := by
  simp [coinAt,hl]
end

lemma fillCache_spec {m : CoinsMap} {h : Uint256} {b : CoinsView} (hv : (cache m h b).WF)
    (hl : m.lookup o=none)
    {ans : Option Coin} (ha : ans.bind live=b.coinAt o) : (cache (fillCache m o ans).1 h b).WF ∧
    (cache (fillCache m o ans).1 h b).coinAt=(cache m h b).coinAt ∧
    (fillCache m o ans).2.bind unspentCoin=b.coinAt o ∧
    (fillCache m o ans).1.lookup o=(fillCache m o ans).2 := by
  cases ans with
  | none => exact ⟨hv,rfl,ha,hl⟩
  | some t =>
    have he : unspentCoin ⟨t,false,t.isSpent⟩=b.coinAt o := ha
    refine ⟨hv.insert ⟨fun _ => he,fun hf => ?_⟩,?_,he,lookup_insert m⟩
    · rw [← ha]
      exact live_of_spent hf
    · rw [fillCache,coinAt_insert,he,← coinAt_of_lookup_none (h := h) hl,update_eq_self]

lemma CoinsView.getCoin_spec {v : CoinsView} (hv : v.WF) (o : OutPoint) :
    (v.getCoin o).1.WF ∧ (v.getCoin o).1.levels=v.levels ∧
    (v.getCoin o).2.bind live=v.coinAt o := by
  induction v with
  | flat co be => exact ⟨hv,rfl,rfl⟩
  | cache m h b ih =>
    have hli : ∀ e : Option CacheEntry, (e.bind unspentCoin).bind live= e.bind unspentCoin := by
      intro e
      cases e with
      | none => rfl
      | some e => cases hs : e.coin.isSpent <;> simp [unspentCoin,live,hs]
    cases hl : m.lookup o with
    | some e =>
      simp only [getCoin,hl]
      exact ⟨hv,trivial,(hli (some e)).trans (coinAt_of_lookup_some hl).symm⟩
    | none =>
      obtain ⟨hw,hle,hr⟩ := ih hv.1
      have hsa : (b.getCoin o).1.coinAt=b.coinAt := coinAt_eq_of_levels hle
      obtain ⟨fw,fc,fr,-⟩ := fillCache_spec hv hl hr
      simp only [getCoin,hl]
      refine ⟨fw.rebase hw hsa,?_,?_⟩
      · simp only [levels,hle,coinAt_rebase hsa,fc]
      · exact (hli _).trans (fr.trans (coinAt_of_lookup_none hl).symm)

namespace CoinsViewCache
def coinAt (c : CoinsViewCache) : PlainMap := c.toView.coinAt
def WF (c : CoinsViewCache) : Prop := c.toView.WF
def levels (c : CoinsViewCache) : List PlainMap := c.toView.levels

lemma levels_eq (c : CoinsViewCache) : c.levels=c.coinAt::c.base.levels := rfl

variable {c : CoinsViewCache}

lemma coinAt_eq_of_levels {d : CoinsViewCache} (h : c.levels=d.levels) : c.coinAt=d.coinAt :=
  CoinsView.coinAt_eq_of_levels h

lemma fetchCoin_spec (hc : c.WF) (o : OutPoint) :
    (c.fetchCoin o).1.WF ∧ (c.fetchCoin o).1.levels=c.levels ∧
    (c.fetchCoin o).2.bind unspentCoin=c.coinAt o ∧
    (c.fetchCoin o).1.cacheCoins.lookup o=(c.fetchCoin o).2 := by
  cases hl : c.cacheCoins.lookup o with
  | some e =>
    simp only [fetchCoin,hl]
    exact ⟨hc,trivial,(coinAt_of_lookup_some hl).symm,trivial⟩
  | none =>
    obtain ⟨hw,hle,hr⟩ := c.base.getCoin_spec hc.1 o
    have hs : (c.base.getCoin o).1.coinAt=c.base.coinAt := CoinsView.coinAt_eq_of_levels hle
    obtain ⟨fw,fc,fr,fl⟩ := fillCache_spec hc hl hr
    simp only [fetchCoin,hl]
    refine ⟨fw.rebase hw hs,?_,fr.trans (coinAt_of_lookup_none hl).symm,fl⟩
    simp only [levels,toView,CoinsView.levels,hle,coinAt_rebase hs]
    exact congrArg (· :: c.base.levels) fc

@[simp] lemma fetchCoin_hashBlock (c : CoinsViewCache) (o : OutPoint) :
    (c.fetchCoin o).1.hashBlock=c.hashBlock := by
  unfold fetchCoin
  split <;> rfl

lemma getCoin_spec (hc : c.WF) (o : OutPoint) :
    (c.getCoin o).1.WF ∧ (c.getCoin o).1.levels=c.levels ∧ (c.getCoin o).2=c.coinAt o := by
  obtain ⟨hw,hl,hr,-⟩ := fetchCoin_spec hc o
  exact ⟨hw,hl,hr⟩

lemma haveCoin_spec (hc : c.WF) (o : OutPoint) : (c.haveCoin o).1.WF ∧
    (c.haveCoin o).1.levels=c.levels ∧
    (c.haveCoin o).2=(c.coinAt o).isSome := by
  obtain ⟨hw,hl,hr,-⟩ := fetchCoin_spec hc o
  refine ⟨hw,hl,?_⟩
  rw [← hr]
  cases hf : (c.fetchCoin o).2 with
  | none => simp [haveCoin,hf]
  | some e => cases hs : e.coin.isSpent <;> simp [haveCoin,hf,unspentCoin,live,hs]

lemma accessCoin_spec (hc : c.WF) (o : OutPoint) :
    (c.accessCoin o).1.WF ∧ (c.accessCoin o).1.levels=c.levels ∧
    (c.accessCoin o).2.live=c.coinAt o := by
  obtain ⟨hw,hl,hr,-⟩ := fetchCoin_spec hc o
  refine ⟨hw,hl,?_⟩
  rw [← hr]
  cases hf : (c.fetchCoin o).2 with
  | none => simp [accessCoin,hf,live]
  | some e => simp [accessCoin,hf,unspentCoin,live]

/-- A successful AddCoin stores the coin. Where the caller passes no overwrite and the
cache holds no entry, FRESH relies on the base showing nothing. -/
lemma addCoin_ok {c' : CoinsViewCache} (hc : c.WF) (h : c.addCoin o coin ow=.ok c')
    (hb : ow=false → c.cacheCoins.lookup o=none → c.base.coinAt o=none) :
    c'.WF ∧ c'.base=c.base ∧ c'.hashBlock=c.hashBlock ∧ coin.isSpent=false ∧
    c'.coinAt=(if isUnspendable coin.out.scriptPubKey then c.coinAt
      else update c.coinAt o (some coin)) ∧
    (ow=false → isUnspendable coin.out.scriptPubKey=false → c.coinAt o=none) := by
  cases hs : coin.isSpent with
  | true => simp [addCoin,hs] at h
  | false =>
    cases hu : isUnspendable coin.out.scriptPubKey with
    | true =>
      simp only [addCoin,hs,hu,false_eq_true,if_false,if_true,Except.ok.injEq] at h
      subst c'
      exact ⟨hc,rfl,rfl,rfl,by simp,by simp⟩
    | false =>
      simp only [addCoin,hs,hu,false_eq_true,if_false] at h
      split at h
      · cases h
      · rename_i ht
        have hi : ow=false → ((c.cacheCoins.lookup o).getD ⟨empty,false,false⟩).coin.isSpent := by
          intro ho
          simpa [ho] using ht
        cases h
        refine ⟨hc.insert ⟨by simp,fun hf => ?_⟩,rfl,rfl,rfl,?_,fun ho _ => ?_⟩
        · -- FRESH comes from the old entry, or from a clean spent or absent one
          cases hl : c.cacheCoins.lookup o with
          | none => simp [hl] at hf; exact hb hf hl
          | some e =>
            have he := hc.2 o e hl
            simp only [hl,getD_some,or_eq_true,and_eq_true,not_eq_true'] at hf hi
            obtain hf | ⟨ho,hd⟩ := hf
            · exact he.fresh hf
            · rw [← he.clean hd]
              exact live_of_spent (hi ho)
        · exact (coinAt_insert _ _ _ o _).trans (congrArg _ (live_of_unspent hs))
        · cases hl : c.cacheCoins.lookup o with
          | none => exact (coinAt_of_lookup_none hl).trans (hb ho hl)
          | some e =>
            have hsp := hi ho
            rw [hl] at hsp
            exact (coinAt_of_lookup_some hl).trans (live_of_spent hsp)

lemma addCoin_progress (hs : coin.isSpent=false) (ho : ow=false → c.coinAt o=none) :
    ∃ c', c.addCoin o coin ow=.ok c' := by
  cases hu : isUnspendable coin.out.scriptPubKey with
  | true => exact ⟨c,by simp [addCoin,hs,hu]⟩
  | false =>
    simp only [addCoin,hs,hu,false_eq_true,if_false]
    split
    · rename_i ht
      simp only [and_eq_true,not_eq_true'] at ht
      have hn := ho ht.1
      cases hl : c.cacheCoins.lookup o with
      | none => simp [hl] at ht
      | some e =>
        rw [hl,getD_some] at ht
        have hsh : c.coinAt o=e.unspentCoin := coinAt_of_lookup_some hl
        simp [hsh,unspentCoin,live,ht.2] at hn
    · exact ⟨_,rfl⟩

lemma base_coinAt_of_none (hn : c.coinAt o=none)
    (hl : c.cacheCoins.lookup o=none) : c.base.coinAt o=none :=
  (coinAt_of_lookup_none hl).symm.trans hn

lemma addCoin_spec (hc : c.WF) (hs : coin.isSpent=false) (ho : ow=false → c.coinAt o=none) :
    ∃ c', c.addCoin o coin ow=.ok c' ∧ c'.WF ∧ c'.base=c.base ∧ c'.hashBlock=c.hashBlock ∧
      c'.coinAt=(if isUnspendable coin.out.scriptPubKey then c.coinAt
        else update c.coinAt o (some coin)) := by
  obtain ⟨c',h⟩ := addCoin_progress hs ho
  obtain ⟨hw,hb,hh,-,hm,-⟩ := addCoin_ok hc h (fun hf => base_coinAt_of_none (ho hf))
  exact ⟨c',h,hw,hb,hh,hm⟩

lemma spendCoin_spec (hc : c.WF) (o : OutPoint) :
    (c.spendCoin o).1.WF ∧ (c.spendCoin o).1.base.levels=c.base.levels ∧
    (c.spendCoin o).1.hashBlock=c.hashBlock ∧ (c.spendCoin o).1.coinAt=update c.coinAt o none ∧
    (∀ coin, c.coinAt o=some coin → (c.spendCoin o).2=some coin) ∧
    (∀ coin, c.coinAt o=none → (c.spendCoin o).2=some coin → coin.isSpent) := by
  obtain ⟨hw,hle,hr,hl⟩ := fetchCoin_spec hc o
  have hm : (c.fetchCoin o).1.coinAt=c.coinAt := coinAt_eq_of_levels hle
  have hb : (c.fetchCoin o).1.base.levels=c.base.levels := (List.cons.inj hle).2
  cases hf : (c.fetchCoin o).2 with
  | none =>
    rw [hf] at hr
    simp only [spendCoin,hf]
    refine ⟨hw,hb,fetchCoin_hashBlock c o,?_,?_,?_⟩
    · rw [hm]
      exact (update_eq_self_iff.mpr hr).symm
    · simp [← hr]
    · simp
  | some e =>
    rw [hf] at hr hl
    have hmv : ∀ coin, c.coinAt o=some coin → some e.coin=some coin := by
      intro coin hco
      exact congrArg some (live_eq_some (hr.trans hco)).2
    have hs : ∀ coin, c.coinAt o=none → some e.coin=some coin → coin.isSpent := by
      intro coin hco he
      cases he
      rw [hco] at hr
      simpa [unspentCoin,live] using hr
    cases hfr : e.fresh with
    | true =>
      simp only [spendCoin,hf,hfr,if_true]
      refine ⟨hw.erase o,hb,fetchCoin_hashBlock c o,?_,hmv,hs⟩
      have hbl := (hw.2 o e hl).fresh hfr
      refine (coinAt_erase _ _ _ o).trans ?_
      rw [hbl]
      exact congrArg (fun f => update f o none) hm
    | false =>
      simp only [spendCoin,hf,hfr,false_eq_true,if_false]
      refine ⟨hw.insert ⟨by simp,by simp⟩,hb,fetchCoin_hashBlock c o,?_,hmv,hs⟩
      refine (coinAt_insert _ _ _ o _).trans ?_
      exact congrArg (fun f => update f o none) hm

lemma uncache_spec (hc : c.WF) (o : OutPoint) : (c.uncache o).WF ∧
    (c.uncache o).levels=c.levels := by
  unfold uncache
  cases hl : c.cacheCoins.lookup o with
  | none => exact ⟨hc,rfl⟩
  | some e =>
    dsimp only
    split
    · rename_i hf
      simp only [and_eq_true,not_eq_true'] at hf
      refine ⟨hc.erase o,?_⟩
      have hs : c.coinAt o=c.base.coinAt o :=
        (coinAt_of_lookup_some hl).trans ((hc.2 o e hl).clean hf.1)
      have hm : (cache (c.cacheCoins.erase o) c.hashBlock c.base).coinAt=c.coinAt :=
        (coinAt_erase _ _ _ o).trans (update_eq_self_iff.mpr hs.symm)
      exact congrArg (· :: c.base.levels) hm
    · exact ⟨hc,rfl⟩
end CoinsViewCache
end Xero
