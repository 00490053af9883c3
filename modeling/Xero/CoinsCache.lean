import Xero.Primitives

/-! The coins views: a flat base map below any number of write-back caches. A lookup may fill the
caches it passes, so reads return the new view. -/
namespace Xero
structure CacheEntry where
  coin : Coin
  dirty : Bool := false
  fresh : Bool := false
  deriving DecidableEq, Repr

abbrev CoinsMap := AList (fun _ : OutPoint => CacheEntry)
abbrev BaseMap := AList (fun _ : OutPoint => Coin)

inductive CoinsView where
  | flat (coins : BaseMap) (best : Uint256)
  | cache (cacheCoins : CoinsMap) (hashBlock : Uint256) (base : CoinsView)

structure CoinsViewCache where
  cacheCoins : CoinsMap
  hashBlock : Uint256
  base : CoinsView

def CoinsViewCache.toView (c : CoinsViewCache) : CoinsView :=
  .cache c.cacheCoins c.hashBlock c.base
def CoinsView.newCache (v : CoinsView) : CoinsViewCache := ⟨∅,0,v⟩

/- The two logic_error messages of the file, the one of Flush, and a failed assert. -/
inductive CoinsError where
  | assertion
  | overwriteUnspent
  | freshMisapplied
  | notAllErased
  deriving DecidableEq, Repr

/- One level of FetchCoin: what the level does with the answer of its base. -/
def fillCache (m : CoinsMap) (o : OutPoint) : Option Coin → CoinsMap×Option CacheEntry
  | none => (m,none)
  | some tmp =>
    -- The parent only has an empty entry for this outpoint: our version is fresh.
    let entry : CacheEntry := ⟨tmp,false,tmp.isSpent⟩
    (m.insert o entry,some entry)

def CacheEntry.unspentCoin (e : CacheEntry) : Option Coin := e.coin.live

def CoinsView.getCoin : CoinsView → OutPoint → CoinsView×Option Coin
  | .flat coins best, o => (.flat coins best,coins.lookup o)
  | .cache m h b, o =>
    match m.lookup o with
    | some e => (.cache m h b,e.unspentCoin)
    | none =>
      let r := b.getCoin o
      let f := fillCache m o r.2
      (.cache f.1 h r.1,f.2.bind CacheEntry.unspentCoin)

def CoinsView.getBestBlock : CoinsView → CoinsView×Uint256
  | .flat coins best => (.flat coins best,best)
  | .cache m h b =>
    if h=0 then
      let r := b.getBestBlock
      (.cache m r.2 r.1,r.2)
    else (.cache m h b,h)

namespace CoinsViewCache
def fetchCoin (c : CoinsViewCache) (o : OutPoint) : CoinsViewCache×Option CacheEntry :=
  match c.cacheCoins.lookup o with
  | some e => (c,some e)
  | none =>
    let r := c.base.getCoin o
    let f := fillCache c.cacheCoins o r.2
    ({c with cacheCoins := f.1, base := r.1},f.2)

def getCoin (c : CoinsViewCache) (o : OutPoint) : CoinsViewCache×Option Coin :=
  let r := c.fetchCoin o
  (r.1,r.2.bind CacheEntry.unspentCoin)
def haveCoin (c : CoinsViewCache) (o : OutPoint) : CoinsViewCache×Bool :=
  let r := c.fetchCoin o
  (r.1,r.2.any (fun e => !e.coin.isSpent))
def accessCoin (c : CoinsViewCache) (o : OutPoint) : CoinsViewCache×Coin :=
  let r := c.fetchCoin o
  (r.1,(r.2.map CacheEntry.coin).getD Coin.empty)

def getBestBlock (c : CoinsViewCache) : CoinsViewCache×Uint256 :=
  if c.hashBlock=0 then
    let r := c.base.getBestBlock
    ({c with hashBlock := r.2, base := r.1},r.2)
  else (c,c.hashBlock)
def setBestBlock (c : CoinsViewCache) (hashBlockIn : Uint256) : CoinsViewCache :=
  {c with hashBlock := hashBlockIn}

def addCoin (c : CoinsViewCache) (o : OutPoint) (coin : Coin) (possibleOverwrite : Bool) :
    Except CoinsError CoinsViewCache :=
  if coin.isSpent then .error .assertion
  else if isUnspendable coin.out.scriptPubKey then .ok c
  else
    let it := (c.cacheCoins.lookup o).getD ⟨Coin.empty,false,false⟩
    if !possibleOverwrite && !it.coin.isSpent then .error .overwriteUnspent
    else
      -- A spent DIRTY entry has spentness still to flush, so it cannot become FRESH.
      let fresh := !possibleOverwrite && !it.dirty
      .ok {c with cacheCoins := c.cacheCoins.insert o ⟨coin,true,it.fresh || fresh⟩}

/-- The returned coin is the one moved out; `none` is the return value false. -/
def spendCoin (c : CoinsViewCache) (o : OutPoint) : CoinsViewCache×Option Coin :=
  let r := c.fetchCoin o
  match r.2 with
  | none => (r.1,none)
  | some e =>
    if e.fresh then ({r.1 with cacheCoins := r.1.cacheCoins.erase o},some e.coin)
    else ({r.1 with cacheCoins := r.1.cacheCoins.insert o ⟨Coin.empty,true,false⟩},some e.coin)

def uncache (c : CoinsViewCache) (o : OutPoint) : CoinsViewCache :=
  match c.cacheCoins.lookup o with
  | some e => if !e.dirty && !e.fresh then {c with cacheCoins := c.cacheCoins.erase o} else c
  | none => c

/-- HaveCoin on every input in turn, stopping at the first that is missing. -/
def haveAll (c : CoinsViewCache) : List TxIn → CoinsViewCache×Bool
  | [] => (c,true)
  | txin::vin =>
    let r := c.haveCoin txin.prevout
    if r.2 then r.1.haveAll vin else (r.1,false)

def haveInputs (c : CoinsViewCache) (tx : Transaction) : CoinsViewCache×Bool :=
  if tx.isCoinBase then (c,true) else c.haveAll tx.vin
end CoinsViewCache

/- One entry of the child map, written into the map of a parent cache. -/
def batchWriteEntry (m : CoinsMap) (it : Sigma (fun _ : OutPoint => CacheEntry)) :
    Except CoinsError CoinsMap :=
  if !it.2.dirty then .ok m
  else match m.lookup it.1 with
    | none =>
      if it.2.fresh && it.2.coin.isSpent then .ok m
      else .ok (m.insert it.1 ⟨it.2.coin,true,it.2.fresh⟩)
    | some us =>
      if it.2.fresh && !us.coin.isSpent then .error .freshMisapplied
      else if us.fresh && it.2.coin.isSpent then .ok (m.erase it.1)
      else .ok (m.insert it.1 ⟨it.2.coin,true,us.fresh⟩)

def writeBaseEntry (m : BaseMap) (it : Sigma (fun _ : OutPoint => CacheEntry)) : BaseMap :=
  if !it.2.dirty then m
  else if it.2.coin.isSpent then m.erase it.1 else m.insert it.1 it.2.coin

def CoinsView.writeEntry (v : CoinsView) (it : Sigma (fun _ : OutPoint => CacheEntry)) :
    Except CoinsError CoinsView :=
  match v with
  | .flat coins best => .ok (.flat (writeBaseEntry coins it) best)
  | .cache m h b => (batchWriteEntry m it).map (fun m' => .cache m' h b)
def CoinsView.setBestBlock (hashBlockIn : Uint256) : CoinsView → CoinsView
  | .flat coins _ => .flat coins hashBlockIn
  | .cache m _ b => .cache m hashBlockIn b

/-- Returns the new base and what is left of `mapCoins`. -/
def CoinsView.batchWrite (v : CoinsView) (mapCoins : CoinsMap) (hashBlockIn : Uint256)
    (erase : Bool) : Except CoinsError (CoinsView×CoinsMap) := do
  let v' ← mapCoins.entries.foldlM CoinsView.writeEntry v
  pure (v'.setBestBlock hashBlockIn,if erase then ∅ else mapCoins)

/- The loop at the end of Sync: spent entries go, the flags of the others are cleared. -/
def syncEntry (m : CoinsMap) (it : Sigma (fun _ : OutPoint => CacheEntry)) : CoinsMap :=
  if it.2.coin.isSpent then m.erase it.1 else m.insert it.1 ⟨it.2.coin,false,false⟩

namespace CoinsViewCache
def flush (c : CoinsViewCache) : Except CoinsError CoinsViewCache := do
  let r ← c.base.batchWrite c.cacheCoins c.hashBlock true
  if r.2.entries.isEmpty then pure ⟨r.2,c.hashBlock,r.1⟩ else throw .notAllErased

def sync (c : CoinsViewCache) : Except CoinsError CoinsViewCache := do
  let r ← c.base.batchWrite c.cacheCoins c.hashBlock false
  pure ⟨r.2.entries.foldl syncEntry r.2,c.hashBlock,r.1⟩
end CoinsViewCache
end Xero
