import Xero.DisconnectSpec

/-! The block index and the blocks on disk, and the coins that each of its branches
leads to. -/
namespace Xero
open List BlockIndex

/-- A hash names one entry of the index and one block, so hashes are taken as collision
free; the null hash names no block after genesis. -/
structure BlockTree where
  index : Uint256 → BlockIndex
  block : Uint256 → Block
  index_hash : ∀ h, (index h).hash=h
  index_prev : ∀ h p older, (index h).pprev=p::older → (index p).pprev=older
  nonnull : ∀ h, (index h).pprev≠[] → 0∉h::(index h).pprev

namespace BlockTree
variable (tree : BlockTree)

/-- The coins after a branch, given from its newest block to its root. The root is genesis,
whose coinbase is not spendable. -/
def utxoOf : List Uint256 → PlainMap
  | [] | [_] => fun _ => none
  | h::p::older => (tree.block h).applyTo (older.length+1) (utxoOf (p::older))

def utxoAt (h : Uint256) : PlainMap := tree.utxoOf (h::(tree.index h).pprev)

variable {tree} {h p : Uint256} {ol : List Uint256}

lemma utxoAt_root (hr : (tree.index h).pprev=[]) (o : OutPoint) : tree.utxoAt h o=none := by
  rw [utxoAt,hr]
  rfl

section
variable (hp : (tree.index h).pprev=p::ol)
include hp

lemma utxoAt_of_prev :
    tree.utxoAt h=(tree.block h).applyTo (tree.index h).nHeight (tree.utxoAt p) := by
  rw [utxoAt,utxoAt,hp,tree.index_prev h p ol hp,nHeight,hp]
  rfl

lemma prevHash_of_prev : (tree.index h).prevHash=p := by
  rw [prevHash,hp]
  rfl

lemma nHeight_of_prev : (tree.index h).nHeight=(tree.index p).nHeight+1 := by
  rw [nHeight,nHeight,hp,tree.index_prev h p ol hp,length_cons]

lemma prev_nonnull : p≠0 := by
  rintro rfl
  exact tree.nonnull h (by simp [hp]) (by simp [hp])
end

/-- The undo data was produced by ConnectBlock on the coins of the parent. -/
structure Recorded (params : ConsensusParams) (tree : BlockTree) (h : Uint256)
    (undo : BlockUndo) : Prop where
  connected : Connected params (tree.block h) (tree.index h)
    (tree.utxoAt (tree.index h).prevHash) undo
  stored : AllStored (tree.utxoAt (tree.index h).prevHash)

lemma Recorded.utxoAt_eq {params : ConsensusParams} {u : BlockUndo}
    (hr : Recorded params tree h u) :
    tree.utxoAt h=(tree.block h).applyTo (tree.index h).nHeight
      (tree.utxoAt (tree.index h).prevHash) := by
  obtain ⟨p,_,hp⟩ := exists_cons_of_ne_nil hr.connected.hasPrev
  rw [prevHash_of_prev hp]
  exact utxoAt_of_prev hp

/-- The transactions of a block with their undo records. -/
def log (tree : BlockTree) (h : Uint256) (undo : BlockUndo) : TxLog :=
  (tree.block h).vtx.zip ([]::undo)

variable {ps : ConsensusParams} {un : BlockUndo}

lemma Recorded.applyTo_overwrites (hr : Recorded ps tree h un) :
    Library.Overwrites ((tree.log h un).touches (tree.index h).nHeight) (tree.utxoAt h)
      ((tree.log h un).applyTo (tree.index h).nHeight) := by
  have ho := (tree.log h un).applyTo_overwrites (tree.index h).nHeight
    (tree.utxoAt (tree.index h).prevHash)
  rwa [log,hr.connected.applyTo_log,← hr.utxoAt_eq] at ho

lemma Recorded.utxoAt_kept (hr : Recorded ps tree h un) {o : OutPoint}
    (ho : o∉(tree.log h un).touches (tree.index h).nHeight) :
    tree.utxoAt h o=tree.utxoAt (tree.index h).prevHash o := by
  rw [hr.utxoAt_eq,← hr.connected.applyTo_log]
  exact hr.applyTo_overwrites.kept _ o ho
end BlockTree

lemma Block.applyTo_stored {block : Block} {nHeight : Nat} {U : PlainMap} (hh : nHeight≠0)
    (hv : ∀ tx∈block.vtx, ∀ out∈tx.vout, 0≤out.nValue) (hU : AllStored U) :
    AllStored (block.applyTo nHeight U) := by
  rw [Block.applyTo]
  generalize block.vtx=vtx at hv
  induction vtx generalizing U with
  | nil => exact hU
  | cons tx vtx ih =>
    exact ih (Transaction.applyTo_stored hh (hv tx mem_cons_self) hU)
      (fun t ht => hv t (mem_cons_of_mem _ ht))

lemma BlockTree.Recorded.stored_self {params : ConsensusParams} {tree : BlockTree}
    {h : Uint256} {u : BlockUndo} (hr : Recorded params tree h u) : AllStored (tree.utxoAt h) := by
  have hh : (tree.index h).nHeight≠0 := by
    simpa [nHeight] using hr.connected.hasPrev
  rw [hr.utxoAt_eq]
  exact Block.applyTo_stored hh hr.connected.nonneg hr.stored

/-- With a null BIP34Hash the BIP30 check is always made, but for the two old blocks. -/
lemma enforceBIP30_of_null {params : ConsensusParams} {pindex : BlockIndex}
    (hn : params.BIP34Hash=0) (hr : isBIP30Repeat pindex=false) (h0 : 0∉pindex.pprev) :
    params.enforceBIP30 pindex := by
  unfold ConsensusParams.enforceBIP30
  rw [hr,hn]
  cases ha : pindex.prevAncestor params.BIP34Height with
  | none => simp
  | some hash =>
    have hm : hash∈pindex.pprev := mem_reverse.mp (mem_of_getElem? ha)
    have hne : hash≠0 := fun he => h0 (he ▸ hm)
    simp [hne]

def sampleTree : BlockTree where
  index h := if h=2 then sampleIndex else ⟨h,[]⟩
  block h := ⟨h,0,0,[sampleCoinbase]⟩
  index_hash h := by
    split
    · subst h
      rfl
    · rfl
  index_prev h p older hp := by
    by_cases h2 : h=2
    · subst h2
      cases hp
      rfl
    · simp [h2] at hp
  nonnull h hp := by
    by_cases h2 : h=2
    · subst h2
      decide
    · simp [h2] at hp
end Xero
