import Xero.CoinsRuns
import Xero.Library.Checks
import Xero.Library.Batches

/-! The coins database, and the flush into it in several atomic batches. A crash between
two batches leaves, at each outpoint, the old coin or the new one. -/
namespace Xero
open Library List

/-- The coins, DB_BEST_BLOCK and DB_HEAD_BLOCKS. -/
structure CoinsDb where
  coins : BaseMap
  best : Option Uint256
  heads : Option (List Uint256)

inductive DbWrite where
  | writeCoin (o : OutPoint) (coin : Coin)
  | eraseCoin (o : OutPoint)
  | writeBest (hash : Uint256)
  | eraseBest
  | writeHeads (hashes : List Uint256)
  | eraseHeads
  deriving DecidableEq, Repr

namespace CoinsDb
variable (db : CoinsDb)

def getBestBlock : Uint256 := db.best.getD 0
def getHeadBlocks : List Uint256 := db.heads.getD []

def applyWrite : DbWrite → CoinsDb
  | .writeCoin o coin => {db with coins := db.coins.insert o coin}
  | .eraseCoin o => {db with coins := db.coins.erase o}
  | .writeBest hash => {db with best := some hash}
  | .eraseBest => {db with best := none}
  | .writeHeads hashes => {db with heads := some hashes}
  | .eraseHeads => {db with heads := none}

/-- WriteBatch: all writes of a batch reach the disk, or none. -/
def writeBatch (batch : List DbWrite) : CoinsDb := batch.foldl applyWrite db

def toView : CoinsView := .flat db.coins db.getBestBlock
def coinAt : PlainMap := db.toView.coinAt
end CoinsDb

/- What BatchWrite adds to the batch for one entry of the map. -/
def entryWrites (it : Sigma (fun _ : OutPoint => CacheEntry)) : List DbWrite :=
  if !it.2.dirty then []
  else if it.2.coin.isSpent then [.eraseCoin it.1] else [.writeCoin it.1 it.2.coin]

/- From the first batch, which marks the transition, to the last, which ends it. -/
def flushBatches (full : List DbWrite → Bool) (mapCoins : CoinsMap) (hashBlock oldTip : Uint256) :
    List (List DbWrite) :=
  splitBatches full entryWrites [.eraseHeads,.writeBest hashBlock]
    [.eraseBest,.writeHeads [hashBlock,oldTip]] mapCoins.entries

/-- The batches of CCoinsViewDB::BatchWrite, in the order of writing. `full` stands for the
comparison of SizeEstimate with batch_write_bytes. -/
def CoinsDb.batchWrite (full : List DbWrite → Bool) (db : CoinsDb) (mapCoins : CoinsMap)
    (hashBlock : Uint256) : Except CoinsError (List (List DbWrite)) := do
  rejectIf (hashBlock==0) .assertion
  -- a null best block may mean that we are in the middle of replaying
  let replaying := db.getBestBlock==0 && db.getHeadBlocks.length==2
  rejectIf (replaying && db.getHeadBlocks.head? != some hashBlock) .assertion
  let oldTip := if replaying then db.getHeadBlocks.getD 1 0 else db.getBestBlock
  pure (flushBatches full mapCoins hashBlock oldTip)

/-- The database after a crash that lets the first `k` batches through. -/
def CoinsDb.crashAfter (db : CoinsDb) (batches : List (List DbWrite)) (k : Nat) : CoinsDb :=
  (batches.take k).foldl writeBatch db

namespace CoinsDb
variable (db : CoinsDb)

lemma crashAfter_eq (b : List (List DbWrite)) (k : Nat) :
    db.crashAfter b k=(b.take k).flatten.foldl applyWrite db := by
  rw [foldl_flatten]
  rfl

lemma foldl_entryWrites (es : List (Sigma (fun _ : OutPoint => CacheEntry))) :
    (es.flatMap entryWrites).foldl applyWrite db=
      {db with coins := es.foldl writeBaseEntry db.coins} := by
  induction es generalizing db with
  | nil => rfl
  | cons it es ih =>
    have ho : (entryWrites it).foldl applyWrite db=
        {db with coins := writeBaseEntry db.coins it} := by
      cases hd : it.2.dirty <;> cases hs : it.2.coin.isSpent <;>
        simp [entryWrites,writeBaseEntry,hd,hs,applyWrite]
    rw [flatMap_cons,foldl_append,ho,ih]
    rfl
end CoinsDb
section
variable (es : List (Sigma (fun _ : OutPoint => CacheEntry))) (co : BaseMap) (be : Uint256)
include es co be

lemma foldl_writeBaseEntry_mixed (o : OutPoint) :
    (CoinsView.flat (es.foldl writeBaseEntry co) be).coinAt o=
      (CoinsView.flat co be).coinAt o ∨
    ∃ e, ⟨o,e⟩∈es ∧
      (CoinsView.flat (es.foldl writeBaseEntry co) be).coinAt o=e.unspentCoin := by
  induction es generalizing co with
  | nil => exact .inl rfl
  | cons it es ih =>
    obtain ⟨k,e⟩ := it
    rw [foldl_cons]
    obtain hk | ⟨e',hm,he'⟩ := ih (writeBaseEntry co ⟨k,e⟩)
    · rw [hk]
      cases hd : e.dirty with
      | false => exact .inl (by simp [writeBaseEntry,hd])
      | true =>
        by_cases ho : o=k
        · subst ho
          refine .inr ⟨e,mem_cons_self,?_⟩
          cases hs : e.coin.isSpent <;>
            simp [writeBaseEntry,hd,hs,CoinsView.coinAt,CacheEntry.unspentCoin,Coin.live]
        · left
          cases hs : e.coin.isSpent <;>
            simp [writeBaseEntry,hd,hs,CoinsView.coinAt,AList.lookup_insert_ne ho,
              AList.lookup_erase_ne ho]
    · exact .inr ⟨e',mem_cons_of_mem _ hm,he'⟩

lemma foldlM_writeEntry_flat : es.foldlM CoinsView.writeEntry (.flat co be)=
      .ok (.flat (es.foldl writeBaseEntry co) be) := by
  induction es generalizing co with
  | nil => rfl
  | cons it es ih =>
    exact ih (writeBaseEntry co it)
end

/-- In the middle of a flush from `old` to `new`. -/
structure MidFlush (db : CoinsDb) (old new : Uint256) (U V : PlainMap) : Prop where
  best : db.best=none
  heads : db.heads=some [new,old]
  mixed : ∀ o, db.coinAt o=U o ∨ db.coinAt o=V o

structure ConsistentDb (db : CoinsDb) (tip : Uint256) (U : PlainMap) : Prop where
  best : db.best=some tip
  heads : db.heads=none
  coins : db.coinAt=U

variable {db : CoinsDb} {c : CoinsViewCache}

/-- The state after `k` of the batches that flush the cache `c` into the database. -/
lemma crashAfter_flushBatches (f : List DbWrite → Bool) (old : Uint256) (hc : c.WF)
    (hb : c.base.coinAt=db.coinAt) (k : Nat) :
    (k=0 ∧ db.crashAfter (flushBatches f c.cacheCoins c.hashBlock old) k=db) ∨
    (k<(flushBatches f c.cacheCoins c.hashBlock old).length ∧
      MidFlush (db.crashAfter (flushBatches f c.cacheCoins c.hashBlock old) k)
        old c.hashBlock db.coinAt c.coinAt) ∨
    ConsistentDb (db.crashAfter (flushBatches f c.cacheCoins c.hashBlock old) k)
      c.hashBlock c.coinAt := by
  by_cases hk : k=0
  · left
    subst hk
    exact ⟨rfl,rfl⟩
  right
  have hm : ∀ o e, ⟨o,e⟩∈c.cacheCoins.entries → c.coinAt o=e.unspentCoin := fun o e he =>
    coinAt_of_lookup_some (AList.mem_lookup_iff.mpr he)
  by_cases hl : k<(flushBatches f c.cacheCoins c.hashBlock old).length
  · left
    obtain ⟨es,hp,hf⟩ := flatten_take_splitBatches f entryWrites _ _ _ k hk hl
    rw [CoinsDb.crashAfter_eq,flushBatches,hf,foldl_append,CoinsDb.foldl_entryWrites]
    refine ⟨hl,rfl,rfl,fun o => ?_⟩
    obtain hke | ⟨e,he,heq⟩ := foldl_writeBaseEntry_mixed es db.coins 0 o
    · exact .inl hke
    · right
      rw [hm o e (hp.subset he)]
      exact heq
  · right
    rw [CoinsDb.crashAfter_eq,take_of_length_le (by omega),flushBatches,flatten_splitBatches,
      foldl_append,foldl_append,CoinsDb.foldl_entryWrites]
    refine ⟨rfl,rfl,?_⟩
    have hen : ∀ o e, c.cacheCoins.entries.dlookup o=some e →
        EntryOk e ((CoinsView.flat db.coins db.getBestBlock).coinAt o) := by
      intro o e ho
      have he : EntryOk e (c.base.coinAt o) := hc.2 o e ho
      rwa [hb] at he
    have hf : (CoinsView.flat db.coins db.getBestBlock).WF := trivial
    obtain ⟨v,hv,-,-,hco⟩ := foldlM_writeEntry_spec c.cacheCoins.entries
        c.cacheCoins.nodupKeys hf hen
    rw [foldlM_writeEntry_flat] at hv
    cases hv
    refine hco.trans ?_
    rw [← CoinsDb.toView,← CoinsDb.coinAt,← hb]
    exact (coinAt_eq_overlay c.cacheCoins c.hashBlock c.base).symm
end Xero
