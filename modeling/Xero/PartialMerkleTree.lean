import Xero.Merkle
import Xero.TxRules

/-! CPartialMerkleTree: a proof that some transactions are in a block, and what can be extracted
from it. -/
namespace Xero
open Library List

/-- 60 is the lower bound for the size of a valid serialized CTransaction. -/
def MIN_TRANSACTION_WEIGHT : Nat := WITNESS_SCALE_FACTOR*60

structure PartialMerkleTree where
  nTransactions : Nat
  vBits : List Bool
  vHash : List Uint256
  fBad : Bool
  deriving DecidableEq, Repr

structure ExtractState where
  nBitsUsed : Nat := 0
  nHashUsed : Nat := 0
  vMatch : List Uint256 := []
  vnIndex : List Nat := []
  fBad : Bool := false
  deriving DecidableEq, Repr

namespace PartialMerkleTree
variable (t : PartialMerkleTree)

/- The number of transactions is limited before any width is computed, so nothing overflows. -/
def calcTreeWidth (height : Nat) : Nat := (t.nTransactions+2^height-1)/2^height

def treeHeight : Nat → Nat → Nat
  | 0, nHeight => nHeight
  | n+1, nHeight => if 1<t.calcTreeWidth nHeight then treeHeight n (nHeight+1) else nHeight

def useHash (s : ExtractState) (pos : Nat) (matched : Bool) : Uint256×ExtractState :=
  match t.vHash[s.nHashUsed]? with
  | none => (0,{s with fBad := true})
  | some h =>
    let s := {s with nHashUsed := s.nHashUsed+1}
    (h,if matched then {s with vMatch := s.vMatch++[h],vnIndex := s.vnIndex++[pos]} else s)

/-- The hash of a node, read from the bits and hashes in depth-first order. -/
def traverseAndExtract (hash : Uint256 → Uint256 → Uint256) :
    Nat → Nat → ExtractState → Uint256×ExtractState
  | 0, pos, s =>
    match t.vBits[s.nBitsUsed]? with
    | none => (0,{s with fBad := true})
    | some fParentOfMatch => t.useHash {s with nBitsUsed := s.nBitsUsed+1} pos fParentOfMatch
  | height+1, pos, s =>
    match t.vBits[s.nBitsUsed]? with
    | none => (0,{s with fBad := true})
    | some fParentOfMatch =>
      let s := {s with nBitsUsed := s.nBitsUsed+1}
      if fParentOfMatch then
        let (left,s) := traverseAndExtract hash height (pos*2) s
        if pos*2+1<t.calcTreeWidth height then
          let (right,s) := traverseAndExtract hash height (pos*2+1) s
          (hash left right,if right=left then {s with fBad := true} else s)
        else (hash left left,s)
      else t.useHash s pos false

/-- The root, or zero in case of failure, and the matches. The caller's indexes are kept. -/
def extractMatches (hash : Uint256 → Uint256 → Uint256) (vnIndex : List Nat) :
    Uint256×ExtractState :=
  let s : ExtractState := {vnIndex := vnIndex,fBad := t.fBad}
  if t.nTransactions=0 then (0,s)
  else if MAX_BLOCK_WEIGHT/MIN_TRANSACTION_WEIGHT<t.nTransactions then (0,s)
  else if t.nTransactions<t.vHash.length then (0,s)
  else if t.vBits.length<t.vHash.length then (0,s)
  else
    let (hashMerkleRoot,s) := t.traverseAndExtract hash (t.treeHeight t.nTransactions 0) 0 s
    if s.fBad then (0,s)
    else if (s.nBitsUsed+7)/8≠(t.vBits.length+7)/8 then (0,s)
    else if s.nHashUsed≠t.vHash.length then (0,s)
    else (hashMerkleRoot,s)

/- What a traversal adds to the matches, when every addition is a transaction of the list. -/
def Adds (txids : List Uint256) (s s' : ExtractState) : Prop :=
  ∃ found : List (Uint256×Nat), s'.vMatch=s.vMatch++found.map Prod.fst ∧
    s'.vnIndex=s.vnIndex++found.map Prod.snd ∧ ∀ p∈found, txids[p.2]?=some p.1

variable {s : ExtractState}

lemma Adds.of_eq {txids : List Uint256} {s' : ExtractState} (hm : s'.vMatch=s.vMatch)
    (hi : s'.vnIndex=s.vnIndex) : Adds txids s s' := by
  refine ⟨[],?_,?_,fun p hp => absurd hp not_mem_nil⟩
  · rw [hm,map_nil,append_nil]
  · rw [hi,map_nil,append_nil]

lemma Adds.trans {txids : List Uint256} {s' s'' : ExtractState} (h : Adds txids s s')
    (h' : Adds txids s' s'') : Adds txids s s'' := by
  obtain ⟨f,hm,hi,hf⟩ := h
  obtain ⟨f',hm',hi',hf'⟩ := h'
  refine ⟨f++f',?_,?_,fun p hp => ?_⟩
  · rw [hm',hm,map_append,append_assoc]
  · rw [hi',hi,map_append,append_assoc]
  · cases mem_append.mp hp with
    | inl hp => exact hf p hp
    | inr hp => exact hf' p hp

variable {t} {txids : List Uint256} {hash : Uint256 → Uint256 → Uint256}

lemma length_level (hash : Uint256 → Uint256 → Uint256) (hn : t.nTransactions=txids.length)
    (height : Nat) : ((pairUp hash)^[height] txids).length=t.calcTreeWidth height := by
  unfold calcTreeWidth
  rw [hn]
  induction height with
  | zero => simp
  | succ height ih =>
    rw [Function.iterate_succ_apply',length_pairUp,ih,Nat.pow_succ]
    have hp : 0<2^height := Nat.two_pow_pos height
    have hs : txids.length+2^height*2-1=(txids.length+2^height-1)+2^height := by omega
    rw [hs,← Nat.div_div_eq_div_mul,Nat.add_div_right _ hp]

lemma treeHeight_spec (n nHeight : Nat) : nHeight≤t.treeHeight n nHeight ∧
      (∀ j, nHeight≤j → j<t.treeHeight n nHeight → 1<t.calcTreeWidth j) ∧
      (t.calcTreeWidth (t.treeHeight n nHeight)≤1 ∨ t.treeHeight n nHeight=nHeight+n) := by
  induction n generalizing nHeight with
  | zero => exact ⟨le_rfl,fun j h h' => absurd h' (not_lt.mpr h),.inr rfl⟩
  | succ n ih =>
    unfold treeHeight
    by_cases hw : 1<t.calcTreeWidth nHeight
    · rw [if_pos hw]
      obtain ⟨_,hf,_⟩ := ih (nHeight+1)
      refine ⟨by omega,fun j h h' => ?_,by omega⟩
      cases Nat.eq_or_lt_of_le h with
      | inl h => exact h ▸ hw
      | inr h => exact hf j h h'
    · rw [if_neg hw]
      exact ⟨le_rfl,fun j h h' => absurd h' (not_lt.mpr h),.inl (not_lt.mp hw)⟩

lemma calcTreeWidth_treeHeight : t.calcTreeWidth (t.treeHeight t.nTransactions 0)≤1 := by
  obtain ⟨-,-,he⟩ := treeHeight_spec (t := t) t.nTransactions 0
  cases he with
  | inl he => exact he
  | inr he =>
    rw [he,Nat.zero_add]
    have hl : t.nTransactions<2^t.nTransactions := Nat.lt_two_pow_self
    exact Nat.le_of_lt_succ ((Nat.div_lt_iff_lt_mul (by omega)).mpr (by omega))

lemma level_treeHeight (hash : Uint256 → Uint256 → Uint256)
    (hn : t.nTransactions=txids.length) (hne : txids≠[]) :
    (pairUp hash)^[t.treeHeight t.nTransactions 0] txids=[(computeMerkleRoot hash txids).1] := by
  obtain ⟨k,hk,hf⟩ := computeMerkleRoot_level hash hne
  obtain ⟨-,hb,-⟩ := treeHeight_spec (t := t) t.nTransactions 0
  have hwi := calcTreeWidth_treeHeight (t := t)
  have ho : t.calcTreeWidth k=1 := by rw [← length_level hash hn,hk]; rfl
  have he : t.treeHeight t.nTransactions 0=k := by
    obtain h | h | h := Nat.lt_trichotomy (t.treeHeight t.nTransactions 0) k
    · have hw := hf _ h
      rw [length_level hash hn] at hw
      omega
    · exact h
    · have hw := hb k (Nat.zero_le k) h
      omega
  rw [he,hk]

lemma useHash_unmatched (s : ExtractState) (pos : Nat) :
    Adds txids s (t.useHash s pos false).2 := by
  unfold useHash
  cases t.vHash[s.nHashUsed]? with
  | none => exact Adds.of_eq rfl rfl
  | some h => exact Adds.of_eq rfl rfl

lemma useHash_leaf {pos : Nat} {x : Uint256} (m : Bool)
    (hx : txids[pos]?=some x) (hr : (t.useHash s pos m).1=x) :
    Adds txids s (t.useHash s pos m).2 := by
  cases m with
  | false => exact useHash_unmatched s pos
  | true =>
    unfold useHash at hr ⊢
    cases hh : t.vHash[s.nHashUsed]? with
    | none => exact Adds.of_eq rfl rfl
    | some h =>
      rw [hh] at hr
      refine ⟨[(h,pos)],rfl,rfl,fun p hp => ?_⟩
      rw [mem_singleton.mp hp,hx]
      exact congrArg some hr.symm

/- A node whose hash is that of the complete tree has only transactions of the list below it. -/
lemma traverseAndExtract_sound (hh : Function.Injective2 hash)
    (hn : t.nTransactions=txids.length) (ht : Nat) {pos : Nat} {x : Uint256}
    (hx : ((pairUp hash)^[ht] txids)[pos]?=some x) (hr : (t.traverseAndExtract hash ht pos s).1=x) :
    Adds txids s (t.traverseAndExtract hash ht pos s).2 := by
  induction ht generalizing pos s x with
  | zero =>
    unfold traverseAndExtract at hr ⊢
    cases hbi : t.vBits[s.nBitsUsed]? with
    | none => exact Adds.of_eq rfl rfl
    | some m =>
      rw [hbi] at hr
      exact (Adds.of_eq rfl rfl).trans (useHash_leaf m hx hr)
  | succ ht ih =>
    rw [Function.iterate_succ_apply',getElem?_pairUp] at hx
    obtain ⟨a,ha,hx⟩ := Option.map_eq_some_iff.mp hx
    unfold traverseAndExtract at hr ⊢
    cases hbi : t.vBits[s.nBitsUsed]? with
    | none => exact Adds.of_eq rfl rfl
    | some m =>
      rw [hbi] at hr
      cases m with
      | false => exact (Adds.of_eq rfl rfl).trans (useHash_unmatched _ pos)
      | true =>
        have hs : Adds txids s {s with nBitsUsed := s.nBitsUsed+1} := Adds.of_eq rfl rfl
        rw [Nat.mul_comm 2 pos] at ha hx
        simp only [if_true] at hr ⊢
        by_cases hw : pos*2+1<t.calcTreeWidth ht
        · obtain ⟨b,hb⟩ : ∃ b, ((pairUp hash)^[ht] txids)[pos*2+1]?=some b := by
            rw [← length_level hash hn] at hw
            exact ⟨_,getElem?_eq_getElem hw⟩
          rw [if_pos hw] at hr ⊢
          rw [hb,← hr] at hx
          obtain ⟨hl,hri⟩ := hh hx.symm
          have had := (ih ha hl).trans (ih hb hri)
          refine (hs.trans had).trans ?_
          split
          · exact Adds.of_eq rfl rfl
          · exact Adds.of_eq rfl rfl
        · rw [if_neg hw] at hr ⊢
          rw [← hr] at hx
          exact hs.trans (ih ha (hh hx.symm).1)

lemma extractMatches_cases (hash : Uint256 → Uint256 → Uint256) (vi : List Nat) :
    (t.extractMatches hash vi).1=0 ∨ t.nTransactions≠0 ∧ t.extractMatches hash vi=
      t.traverseAndExtract hash (t.treeHeight t.nTransactions 0) 0
        {vnIndex := vi,fBad := t.fBad} := by
  unfold extractMatches
  by_cases hz : t.nTransactions=0
  · exact .inl (by rw [if_pos hz])
  · dsimp only
    split_ifs
    all_goals first
      | exact .inl rfl
      | exact .inr ⟨hz,rfl⟩

/-- An extracted root that is the root of a list of transactions certifies every match. -/
theorem extractMatches_certifies (hash : Uint256 → Uint256 → Uint256)
    (hhash : Function.Injective2 hash) (t : PartialMerkleTree) (txids : List Uint256)
    (hn : t.nTransactions=txids.length) (vnIndex : List Nat)
    (hok : (t.extractMatches hash vnIndex).1≠0)
    (hroot : (t.extractMatches hash vnIndex).1=(computeMerkleRoot hash txids).1) :
    ∃ indexes, (t.extractMatches hash vnIndex).2.vnIndex=vnIndex++indexes ∧
      indexes.length=(t.extractMatches hash vnIndex).2.vMatch.length ∧
      ∀ p∈(t.extractMatches hash vnIndex).2.vMatch.zip indexes, txids[p.2]?=some p.1 := by
  obtain h | ⟨hpo,h⟩ := extractMatches_cases (t := t) hash vnIndex
  · exact absurd h hok
  · rw [h] at hroot ⊢
    have hne : txids≠[] := fun hni => hpo (by rw [hn,hni]; rfl)
    have hx := congrArg (fun L => L[0]?) (level_treeHeight hash hn hne)
    obtain ⟨f,hm,hi,hf⟩ := traverseAndExtract_sound hhash hn _ hx hroot
    rw [nil_append] at hm
    refine ⟨f.map Prod.snd,hi,?_,fun p hp => ?_⟩
    · rw [hm,length_map,length_map]
    · rw [hm,zip_map',map_id'] at hp
      exact hf p hp

theorem extractMatches_certifies_third :
    ∃ indexes, ((PartialMerkleTree.mk 3 [true,false,true,true] [oddPairHash 2 4,6]
        false).extractMatches oddPairHash []).2.vnIndex=[]++indexes ∧
      indexes.length=((PartialMerkleTree.mk 3 [true,false,true,true] [oddPairHash 2 4,6]
        false).extractMatches oddPairHash []).2.vMatch.length ∧
      ∀ p∈((PartialMerkleTree.mk 3 [true,false,true,true] [oddPairHash 2 4,6]
        false).extractMatches oddPairHash []).2.vMatch.zip indexes, [2,4,6][p.2]?=some p.1 :=
  extractMatches_certifies oddPairHash oddPairHash_injective _ [2,4,6] rfl []
    (by decide +kernel) (by decide +kernel)
end PartialMerkleTree
end Xero
