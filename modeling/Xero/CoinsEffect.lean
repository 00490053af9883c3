import Xero.CoinsStack
import Xero.BlockConnection
import Xero.Library.Overwrite

/-! The effect of connecting and disconnecting transactions on the map of unspent coins, without
caches: which coins a transaction spends and creates, and how its undo record reverts that on any
map. -/
namespace Xero
open Library List
namespace Transaction
variable (tx : Transaction)

def spends : List OutPoint :=
  if tx.isCoinBase then [] else tx.vin.map TxIn.prevout
def storedCoin (nHeight : Nat) (out : TxOut) : Option Coin :=
  if isUnspendable out.scriptPubKey then none else some ⟨out,tx.isCoinBase,nHeight⟩
def creates (nHeight : Nat) : PlainMap := fun o =>
  if o.hash=tx.hash then (tx.vout[o.n]?).bind (tx.storedCoin nHeight) else none
def applyTo (nHeight : Nat) (U : PlainMap) : PlainMap := fun o =>
  (tx.creates nHeight o).or (if o∈tx.spends then none else U o)

def revertOn (nHeight : Nat) (undo : TxUndo) (M : PlainMap) : PlainMap :=
  fun o => ((tx.spends.zip undo).lookup o).or
    (if (tx.creates nHeight o).isSome then none else M o)
def touches (nHeight : Nat) : Set OutPoint :=
  {o | o∈tx.spends ∨ (tx.creates nHeight o).isSome}

/-- What a connected transaction found in the map: the coins of its undo record, each
spent once, and no coin where it stores one. -/
structure Fits (tx : Transaction) (nHeight : Nat) (undo : TxUndo) (U : PlainMap) : Prop where
  spent : tx.spends.map U=undo.map some
  nodup : tx.spends.Nodup
  fresh : ∀ o, (tx.creates nHeight o).isSome → o∉tx.spends → U o=none

variable {tx : Transaction} {nH : Nat} {un : TxUndo} {U : PlainMap}

lemma applyTo_overwrites (nHeight : Nat) (U : PlainMap) :
    Overwrites (tx.touches nHeight) (tx.applyTo nHeight U) (tx.applyTo nHeight) := by
  refine ⟨fun M o ho => ?_,fun M o ho => ?_⟩
  · cases hc : tx.creates nHeight o with
    | some c => simp [applyTo,hc]
    | none =>
      have hs : o∈tx.spends := ho.resolve_right (by simp [hc])
      simp [applyTo,hc,hs]
  · have hs : o∉tx.spends := fun h => ho (.inl h)
    have hc : tx.creates nHeight o=none := by
      cases hc : tx.creates nHeight o with
      | none => rfl
      | some c => exact absurd (.inr (by simp [hc])) ho
    simp [applyTo,hc,hs]

lemma lookup_zip_eq (prevouts : List OutPoint) (undo : TxUndo) (h : prevouts.map U=undo.map some)
    (o : OutPoint) : (prevouts.zip undo).lookup o=if o∈prevouts then U o else none := by
  induction prevouts generalizing undo with
  | nil => simp
  | cons p prevouts ih =>
    cases undo with
    | nil => cases h
    | cons c undo =>
      simp only [map_cons,cons.injEq] at h
      by_cases ho : o=p
      · subst ho
        simp [h.1]
      · have hb : (o==p)=false := by simpa using ho
        simp [lookup_cons,hb,ih undo h.2,ho]

lemma Fits.revertOn_overwrites (hf : tx.Fits nH un U) :
    Overwrites (tx.touches nH) U (tx.revertOn nH un) := by
  have hl := lookup_zip_eq tx.spends un hf.spent
  have hso : ∀ o∈tx.spends, (U o).isSome := by
    intro o ho
    have hm : U o∈un.map some := hf.spent ▸ mem_map_of_mem ho
    obtain ⟨c,-,hc⟩ := mem_map.mp hm
    simp [← hc]
  refine ⟨fun M o ho => ?_,fun M o ho => ?_⟩
  · by_cases hs : o∈tx.spends
    · obtain ⟨c,hc⟩ := Option.isSome_iff_exists.mp (hso o hs)
      simp [revertOn,hl,hs,hc]
    · have hcr : (tx.creates nH o).isSome := ho.resolve_left hs
      simp [revertOn,hl,hs,hcr,hf.fresh o hcr hs]
  · have hs : o∉tx.spends := fun h => ho (.inl h)
    have hc : ¬ (tx.creates nH o).isSome := fun h => ho (.inr h)
    simp [revertOn,hl,hs,hc]
end Transaction

abbrev TxLog := List (Transaction×TxUndo)

namespace TxLog
variable (log : TxLog)

def applyTo (nHeight : Nat) (U : PlainMap) : PlainMap :=
  log.foldl (fun M p => p.1.applyTo nHeight M) U
def revertOn (nHeight : Nat) (M : PlainMap) : PlainMap :=
  log.foldr (fun p N => p.1.revertOn nHeight p.2 N) M
def touches (nHeight : Nat) : Set OutPoint :=
  {o | ∃ p∈log, o∈p.1.touches nHeight}

/-- Every transaction fits the map that the ones before it leave. -/
def Fits : TxLog → Nat → PlainMap → Prop
  | [], _, _ => True
  | p::log, nHeight, U => p.1.Fits nHeight p.2 U ∧ Fits log nHeight (p.1.applyTo nHeight U)

lemma touches_nil (nHeight : Nat) : touches [] nHeight=∅ := by
  simp [touches]

lemma touches_cons (p : Transaction×TxUndo) (log : TxLog) (nHeight : Nat) :
    touches (p::log) nHeight=p.1.touches nHeight ∪ touches log nHeight := by
  ext o
  simp [touches]

lemma applyTo_overwrites (nHeight : Nat) (U : PlainMap) :
    Overwrites (log.touches nHeight) (log.applyTo nHeight U) (log.applyTo nHeight) := by
  induction log generalizing U with
  | nil =>
    rw [touches_nil]
    exact Overwrites.refl U
  | cons p log ih =>
    have hp := p.1.applyTo_overwrites nHeight U
    have hr := ih (p.1.applyTo nHeight U)
    rw [touches_cons]
    exact hp.comp hr (fun o ho => (hr.kept _ o ho).symm)

/-- Reverting on any map brings back the old coins wherever the block touched one. -/
lemma revertOn_overwrites (nHeight : Nat) (U : PlainMap) (hf : log.Fits nHeight U) :
    Overwrites (log.touches nHeight) U (log.revertOn nHeight) := by
  induction log generalizing U with
  | nil =>
    rw [touches_nil]
    exact Overwrites.refl U
  | cons p log ih =>
    have hp := hf.1.revertOn_overwrites
    have hr := ih (p.1.applyTo nHeight U) hf.2
    rw [touches_cons,Set.union_comm]
    exact hr.comp hp (fun o ho => (p.1.applyTo_overwrites nHeight U).kept U o ho)

lemma revertOn_applyTo (nHeight : Nat) (U : PlainMap)
    (hf : log.Fits nHeight U) : log.revertOn nHeight (log.applyTo nHeight U)=U :=
  (revertOn_overwrites log nHeight U hf).eq_of_agree
    (fun o ho => (applyTo_overwrites log nHeight U).kept U o ho)
end TxLog
end Xero
