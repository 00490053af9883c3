import Mathlib.Algebra.BigOperators.Group.Finset.Basic
import Mathlib.Algebra.Order.Ring.Int
import Mathlib.Data.List.AList

/-! Amounts, outpoints, transactions and coins, as the node keeps them in memory. -/
namespace Xero
abbrev Uint256 := Nat
abbrev Bytes := List UInt8

def COIN : Int := 100000000
def MAX_MONEY : Int := 100000*COIN
def moneyRange (nValue : Int) : Bool := decide (0≤nValue) && decide (nValue≤MAX_MONEY)

lemma moneyRange_iff (v : Int) : moneyRange v ↔ 0≤v ∧ v≤MAX_MONEY := by
  simp [moneyRange]

def OP_RETURN : UInt8 := 0x6a
def MAX_SCRIPT_SIZE : Nat := 10000

/-- Outputs with such a script are never stored in a coins view. -/
def isUnspendable (script : Bytes) : Bool :=
  (match script with
    | [] => false
    | op::_ => op==OP_RETURN) || decide (MAX_SCRIPT_SIZE < script.length)

structure OutPoint where
  hash : Uint256
  n : Nat
  deriving DecidableEq, Repr

def NULL_INDEX : Nat := 2^32-1
def OutPoint.isNull (o : OutPoint) : Bool := o.hash==0 && o.n==NULL_INDEX

structure TxIn where
  prevout : OutPoint
  scriptSig : Bytes
  nSequence : Nat
  scriptWitness : List Bytes := []
  deriving DecidableEq, Repr

structure TxOut where
  nValue : Int
  scriptPubKey : Bytes
  deriving DecidableEq, Repr

def TxOut.null : TxOut := ⟨-1,[]⟩
def TxOut.isNull (t : TxOut) : Bool := t.nValue==-1

/- `hash` is the memory-only txid field of CTransaction. It is left arbitrary:
   nothing below assumes more about it than a theorem says. -/
structure Transaction where
  vin : List TxIn
  vout : List TxOut
  nVersion : Int := 2
  nLockTime : Nat := 0
  hash : Uint256
  deriving DecidableEq, Repr

def Transaction.isCoinBase (tx : Transaction) : Bool :=
  match tx.vin with
  | [txin] => txin.prevout.isNull
  | _ => false

/-- Sums the outputs; `none` is the runtime_error "value out of range". -/
def getValueOutFrom (nValueOut : Int) : List TxOut → Option Int
  | [] => some nValueOut
  | out::vout =>
    if moneyRange out.nValue && moneyRange (nValueOut+out.nValue)
    then getValueOutFrom (nValueOut+out.nValue) vout else none

def Transaction.getValueOut (tx : Transaction) : Option Int := getValueOutFrom 0 tx.vout

structure Coin where
  out : TxOut
  fCoinBase : Bool
  nHeight : Nat
  deriving DecidableEq, Repr

def Coin.empty : Coin := ⟨TxOut.null,false,0⟩
def Coin.isSpent (c : Coin) : Bool := c.out.isNull
def Coin.live (c : Coin) : Option Coin := if c.isSpent then none else some c

@[simp] lemma Coin.isSpent_empty : Coin.empty.isSpent := rfl

lemma Coin.live_of_unspent {c : Coin} (h : c.isSpent=false) : c.live=some c := by
  simp [Coin.live,h]

lemma Coin.live_of_spent {c : Coin} (h : c.isSpent) : c.live=none := by
  simp [Coin.live,h]

lemma Coin.live_eq_some {c d : Coin} (h : c.live=some d) : d.isSpent=false ∧ c=d := by
  cases hs : c.isSpent with
  | true => simp [Coin.live,hs] at h
  | false =>
    have he : c=d := by simpa [Coin.live,hs] using h
    exact ⟨he ▸ hs,he⟩
end Xero
