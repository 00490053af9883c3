import Xero.TxSerialize
import Xero.CoinSerialize
import Xero.Sha256

/-! Statistics of the UTXO set: the coins of a cursor are collected by transaction, counted and
hashed. -/
namespace Xero.CoinStats
open Library

def getBogoSize (script_pub_key : Bytes) : Nat := 32+4+4+8+2+script_pub_key.length
def txOutSer (outpoint : OutPoint) (coin : Coin) : Bytes :=
  outpoint.serialize++serWritedata 4 (coin.nHeight*2+coin.fCoinBase.toNat)++coin.out.serialize

/- The fields of CCoinsStats that are computed from the coins. -/
structure CoinsStats where
  nHeight : Int := 0
  hashBlock : Uint256 := 0
  nTransactions : Nat := 0
  nTransactionOutputs : Nat := 0
  nBogoSize : Nat := 0
  hashSerialized : Bytes := List.replicate 32 0
  nDiskSize : Nat := 0
  total_amount : Option Int := some 0
  coins_count : Nat := 0
  deriving DecidableEq, Repr

def CoinsStats.addCoin (stats : CoinsStats) : CoinsStats :=
  {stats with coins_count := stats.coins_count+1}

/-- The outputs of one transaction, in the order of a map by their index. -/
abbrev Outputs := List (Nat×Coin)

/- An assertion that fails, and a value that cannot be read. -/
inductive StatsError
  | asserts
  | unableToRead
  deriving DecidableEq, Repr

def setOutput (n : Nat) (coin : Coin) : Outputs → Outputs
  | [] => [(n,coin)]
  | (m,c)::outputs =>
    if n < m then (n,coin)::(m,c)::outputs
    else if n=m then (n,coin)::outputs
    else (m,c)::setOutput n coin outputs
def checkedAdd (i j : Int) : Option Int :=
  if 2^63 ≤ i+j ∨ i+j< -2^63 then none else some (i+j)

def countOutput (stats : CoinsStats) (output : Nat×Coin) : CoinsStats :=
  {stats with
    nTransactionOutputs := stats.nTransactionOutputs+1,
    total_amount := stats.total_amount.bind fun total => checkedAdd total output.2.out.nValue,
    nBogoSize := stats.nBogoSize+getBogoSize output.2.out.scriptPubKey}
def applyStats (stats : CoinsStats) (outputs : Outputs) : Except StatsError CoinsStats := do
  rejectIf outputs.isEmpty .asserts
  pure (outputs.foldl countOutput {stats with nTransactions := stats.nTransactions+1})

/-- What is done with a hash object in one of the modes. -/
structure HashMode (H : Type) where
  start : H
  prepareHash : H → CoinsStats → H
  applyHash : H → Uint256 → Outputs → H
  finalizeHash : H → CoinsStats → CoinsStats

structure Scan (H : Type) where
  stats : CoinsStats
  hash_obj : H
  prevkey : Uint256 := 0
  outputs : Outputs := []

section
variable {H : Type} (mode : HashMode H)

def Scan.apply (s : Scan H) : Except StatsError (Scan H) := do
  let stats ← applyStats s.stats s.outputs
  pure {s with stats, hash_obj := mode.applyHash s.hash_obj s.prevkey s.outputs, outputs := []}

def Scan.visit (s : Scan H) (key : OutPoint) (coin : Coin) : Except StatsError (Scan H) := do
  let s ← if !s.outputs.isEmpty && decide (key.hash≠s.prevkey) then s.apply mode else pure s
  pure {s with
    prevkey := key.hash,
    outputs := setOutput key.n coin s.outputs,
    stats := s.stats.addCoin}

/- The cursor gives nothing where a key or a value cannot be read. -/
def scanFrom (s : Scan H) : List (Option (OutPoint×Coin)) → Except StatsError (Scan H)
  | [] => .ok s
  | none::_ => .error .unableToRead
  | some (key,coin)::entries => do
    let s ← s.visit mode key coin
    scanFrom s entries

def Scan.finish (s : Scan H) : Except StatsError (Scan H) :=
  if s.outputs.isEmpty then pure s else s.apply mode
def scanCursor (stats : CoinsStats) (cursor : List (Option (OutPoint×Coin))) :
    Except StatsError (Scan H) :=
  scanFrom mode {stats, hash_obj := mode.prepareHash mode.start stats} cursor >>= Scan.finish mode

/-- ComputeUTXOStats, on what the cursor of the view returns. -/
def computeUTXOStats (stats : CoinsStats) (cursor : List (Option (OutPoint×Coin)))
    (estimateSize : Nat) : Except StatsError CoinsStats := do
  let s ← scanCursor mode stats cursor
  let stats := mode.finalizeHash s.hash_obj s.stats
  pure {stats with nDiskSize := estimateSize}
end

/- VARINT_MODE with NONNEGATIVE_SIGNED: a negative number is written as its lowest seven bits. -/
def writeVarIntSigned (v : Int) : Bytes :=
  if v<0 then [UInt8.ofNat (v%128).toNat] else writeVarInt v.toNat

/- The condition of the operator ?: is the whole sum in front of it. -/
def heightCode (coin : Coin) : Nat :=
  if coin.nHeight*2+coin.fCoinBase.toNat≠0 then 1 else 0

def applyHashFrom (hash : Uint256) (begin : Bool) (ss : Bytes) : Outputs → Bytes
  | [] => ss
  | (n,coin)::outputs =>
    let ss := if begin then ss++serWritedata 32 hash++writeVarInt (heightCode coin) else ss
    let ss := ss++writeVarInt ((n+1)%2^32)++serializeBytes coin.out.scriptPubKey++
      writeVarIntSigned coin.out.nValue
    let ss := if outputs.isEmpty then ss++writeVarInt 0 else ss
    applyHashFrom hash false ss outputs

/-- HASH_SERIALIZED. The hash object is the data that has been written to it. -/
def serialized (transform : Compression) : HashMode Bytes where
  start := []
  prepareHash ss stats := ss++serWritedata 32 stats.hashBlock
  applyHash ss hash outputs := applyHashFrom hash true ss outputs
  finalizeHash ss stats := {stats with hashSerialized := hash256 transform ss}

/-- The transactions of the coins of a cursor, with their outputs. -/
def groupsFrom (prevkey : Uint256) (outputs : Outputs) : List (OutPoint×Coin) →
    List (Uint256×Outputs)
  | [] => if outputs.isEmpty then [] else [(prevkey,outputs)]
  | (key,coin)::coins =>
    if !outputs.isEmpty && decide (key.hash≠prevkey) then
      (prevkey,outputs)::groupsFrom key.hash (setOutput key.n coin []) coins
    else groupsFrom key.hash (setOutput key.n coin outputs) coins

def groups (coins : List (OutPoint×Coin)) : List (Uint256×Outputs) := groupsFrom 0 [] coins

section
variable {H : Type} {mo : HashMode H}

def countGroup (stats : CoinsStats) (group : Uint256×Outputs) : CoinsStats :=
  group.2.foldl countOutput {stats with nTransactions := stats.nTransactions+1}

lemma applyStats_eq {s : CoinsStats} {o : Outputs} (h : o≠[]) (hash : Uint256) :
    applyStats s o=.ok (countGroup s (hash,o)) := by
  have hs : o.isEmpty=false := by simpa using h
  simp only [applyStats,hs,rejectIf,if_neg Bool.false_ne_true,ok_bind,pure_ok,countGroup]

lemma countOutputs_addCoin (outputs : Outputs) (s : CoinsStats) :
    outputs.foldl countOutput s.addCoin=(outputs.foldl countOutput s).addCoin := by
  induction outputs generalizing s with
  | nil => rfl
  | cons o outputs ih => exact ih (countOutput s o)

lemma countGroups_addCoin (gs : List (Uint256×Outputs)) (s : CoinsStats) :
    gs.foldl countGroup s.addCoin=(gs.foldl countGroup s).addCoin := by
  induction gs generalizing s with
  | nil => rfl
  | cons g gs ih =>
    have hg : countGroup s.addCoin g=(countGroup s g).addCoin :=
      countOutputs_addCoin g.2 {s with nTransactions := s.nTransactions+1}
    rw [List.foldl_cons,hg,ih]
    rfl

lemma scanFrom_groups (co : List (OutPoint×Coin)) (s : Scan H) :
    ∃ s', (scanFrom mo s (co.map some) >>= Scan.finish mo)=.ok s' ∧
      s'.hash_obj=(groupsFrom s.prevkey s.outputs co).foldl
        (fun hash_obj g => mo.applyHash hash_obj g.1 g.2) s.hash_obj ∧
      s'.stats=CoinsStats.addCoin^[co.length]
        ((groupsFrom s.prevkey s.outputs co).foldl countGroup s.stats) := by
  induction co generalizing s with
  | nil =>
    show ∃ s', Scan.finish mo s=.ok s' ∧ _
    unfold Scan.finish
    by_cases he : s.outputs.isEmpty
    · rw [if_pos he,groupsFrom,if_pos he]
      exact ⟨s,rfl,rfl,rfl⟩
    · have hne : s.outputs≠[] := by simpa using he
      rw [if_neg he,groupsFrom,if_neg he,Scan.apply,applyStats_eq hne s.prevkey]
      exact ⟨_,rfl,rfl,rfl⟩
  | cons e co ih =>
    obtain ⟨k,c⟩ := e
    rw [List.map_cons,scanFrom,groupsFrom,Scan.visit]
    by_cases hn : (!s.outputs.isEmpty && decide (k.hash≠s.prevkey))
    · have hne : s.outputs≠[] := by
        intro hni
        simp [hni] at hn
      rw [if_pos hn,if_pos hn,Scan.apply,applyStats_eq hne s.prevkey]
      obtain ⟨s',hs,hh,hst⟩ := ih {
        stats := (countGroup s.stats (s.prevkey,s.outputs)).addCoin,
        hash_obj := mo.applyHash s.hash_obj s.prevkey s.outputs,
        prevkey := k.hash, outputs := setOutput k.n c []}
      refine ⟨s',hs,hh,?_⟩
      rw [hst,countGroups_addCoin]
      rfl
    · rw [if_neg hn,if_neg hn]
      obtain ⟨s',hs,hh,hst⟩ := ih {s with
        stats := s.stats.addCoin,
        prevkey := k.hash, outputs := setOutput k.n c s.outputs}
      refine ⟨s',hs,hh,?_⟩
      rw [hst,countGroups_addCoin]
      rfl

lemma scanCursor_groups (mode : HashMode H) (stats : CoinsStats) (coins : List (OutPoint×Coin)) :
    ∃ s, scanCursor mode stats (coins.map some)=.ok s ∧
      s.hash_obj=(groups coins).foldl (fun hash_obj g => mode.applyHash hash_obj g.1 g.2)
        (mode.prepareHash mode.start stats) ∧
      s.stats=CoinsStats.addCoin^[coins.length] ((groups coins).foldl countGroup stats) :=
  scanFrom_groups coins {stats, hash_obj := mode.prepareHash mode.start stats}
end
end Xero.CoinStats
