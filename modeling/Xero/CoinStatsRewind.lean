import Xero.BlockConnection
import Xero.CoinStats

/-! CoinStatsIndex::CustomRewind: the blocks above the new tip are taken back one by one, and the
totals compared with those recorded for the block below. -/
namespace Xero.CoinStats
open Library Function List

/-- A MuHash3072 and its operations. -/
structure MuHash (M : Type) where
  insert : M → Bytes → M
  remove : M → Bytes → M
  finalize : M → Uint256

structure Totals where
  transaction_output_count : UInt64 := 0
  bogo_size : UInt64 := 0
  total_amount : Int := 0
  total_subsidy : Int := 0
  total_unspendable_amount : Int := 0
  total_prevout_spent_amount : Int := 0
  total_new_outputs_ex_coinbase_amount : Int := 0
  total_coinbase_amount : Int := 0
  total_unspendables_genesis_block : Int := 0
  total_unspendables_bip30 : Int := 0
  total_unspendables_scripts : Int := 0
  total_unspendables_unclaimed_rewards : Int := 0
  deriving DecidableEq

/-- The digest and the totals of a DBVal. -/
abbrev DBVal := Uint256×Totals

/-- The database, the block files, and which of their reads succeed. -/
structure IndexStore where
  heightIndex : Nat → Option (Uint256×DBVal)
  hashIndex : Uint256 → Option DBVal
  readBlock : Uint256 → Option Block
  readUndo : Uint256 → Option BlockUndo
  iterates : Nat → Bool
  writes : Bool
  readsHeight : Nat → Bool

namespace IndexStore
variable (store : IndexStore)

def readHeight (nHeight : Nat) : Option (Uint256×DBVal) :=
  if store.readsHeight nHeight then store.heightIndex nHeight else none

/- LookUpOne: the height index or, where another block is there, the hash index. -/
def lookUpOne (hash : Uint256) (nHeight : Nat) : Option DBVal := do
  let read_out ← store.heightIndex nHeight
  if read_out.1=hash then pure read_out.2 else store.hashIndex hash
end IndexStore

inductive RewindCrash
  | asserts
  | outOfRange
  | nullPointer

structure CoinStatsIndex (M : Type) where
  m_muhash : M
  totals : Totals

section
variable {M : Type} (muhash : MuHash M)

def CoinStatsIndex.value (s : CoinStatsIndex M) : DBVal := (muhash.finalize s.m_muhash,s.totals)

def reverseOutput (tx : Transaction) (nHeight : Nat) (s : CoinStatsIndex M) (output : TxOut×Nat) :
    CoinStatsIndex M :=
  let (out,j) := output
  let t := s.totals
  if isUnspendable out.scriptPubKey then {s with totals := {t with
    total_unspendable_amount := t.total_unspendable_amount-out.nValue,
    total_unspendables_scripts := t.total_unspendables_scripts-out.nValue}}
  else
    let t := if tx.isCoinBase then
        {t with total_coinbase_amount := t.total_coinbase_amount-out.nValue}
      else {t with total_new_outputs_ex_coinbase_amount :=
        t.total_new_outputs_ex_coinbase_amount-out.nValue}
    {m_muhash := muhash.remove s.m_muhash (txOutSer ⟨tx.hash,j⟩ ⟨out,tx.isCoinBase,nHeight⟩),
      totals := {t with
        transaction_output_count := t.transaction_output_count-1,
        total_amount := t.total_amount-out.nValue,
        bogo_size := t.bogo_size-.ofNat (getBogoSize out.scriptPubKey)}}

def reverseInput (s : CoinStatsIndex M) (input : TxIn×Coin) : CoinStatsIndex M :=
  let (txin,coin) := input
  let t := s.totals
  {m_muhash := muhash.insert s.m_muhash (txOutSer txin.prevout coin),
    totals := {t with
      total_prevout_spent_amount := t.total_prevout_spent_amount-coin.out.nValue,
      transaction_output_count := t.transaction_output_count+1,
      total_amount := t.total_amount+coin.out.nValue,
      bogo_size := t.bogo_size+.ofNat (getBogoSize coin.out.scriptPubKey)}}

def reverseTransaction (undo : BlockUndo) (nHeight : Nat) (s : CoinStatsIndex M)
    (tx : Transaction×Nat) :
    Except RewindCrash (CoinStatsIndex M) :=
  let s := tx.1.vout.zipIdx.foldl (reverseOutput muhash tx.1 nHeight) s
  if tx.1.isCoinBase then .ok s
  -- vtxundo.at(i - 1): only the first transaction of a block may have no undo data
  else match if tx.2=0 then none else undo[tx.2-1]? with
  | none => .error .outOfRange
  | some vprevout => .ok ((tx.1.vin.zip vprevout).foldl (reverseInput muhash) s)

variable (store : IndexStore) (params : ConsensusParams)

/- The reads of ReverseBlock; `below` is the chain under the block, by hashes. The hash index holds
a DBVal of 128 bytes, so that the read of a hash with a DBVal from it runs out of bytes and fails. -/
def readPrevious (hash : Uint256) : List Uint256 → Option (BlockUndo×DBVal)
  | [] => some ([],(0,{}))
  | prev::below => do
    let undo ← store.readUndo hash
    let read_out ← store.readHeight below.length
    if read_out.1=prev then pure (undo,read_out.2) else none

def reverseBlock (block : Block) (hash : Uint256) (below : List Uint256) (s : CoinStatsIndex M) :
    Except RewindCrash (Bool×CoinStatsIndex M) := do
  let subsidy := s.totals.total_subsidy-getBlockSubsidy below.length params
  let s := {s with totals := {s.totals with total_subsidy := subsidy}}
  match readPrevious store hash below with
  | none => pure (false,s)
  | some (undo,read_out) =>
    let s ← block.vtx.zipIdx.foldlM (reverseTransaction muhash undo below.length) s
    let t := s.totals
    let unclaimed := t.total_new_outputs_ex_coinbase_amount+t.total_coinbase_amount+
      t.total_unspendable_amount-(t.total_prevout_spent_amount+t.total_subsidy)
    let s := {s with totals := {t with
      total_unspendable_amount := t.total_unspendable_amount-unclaimed,
      total_unspendables_unclaimed_rewards := t.total_unspendables_unclaimed_rewards-unclaimed}}
    rejectIf (decide (read_out≠s.value muhash)) .asserts
    pure (true,s)

def copyHeightIndexToHashIndex (start count : Nat) : Option (Uint256 → Option DBVal) :=
  (range count).foldlM (fun hashIndex i =>
    if store.iterates (start+i) then
      (store.heightIndex (start+i)).map fun value => update hashIndex value.1 (some value.2)
    else none) store.hashIndex

/- The loop; the result of ReverseBlock is not looked at. -/
def rewindBlocks (new_tip : Uint256) : List Uint256 → CoinStatsIndex M →
    Except RewindCrash (Bool×CoinStatsIndex M)
  | [],_ => .error .nullPointer
  | iter_tip::below,s =>
    match store.readBlock iter_tip with
    | none => pure (false,s)
    | some block => do
      let out ← reverseBlock muhash store params block iter_tip below s
      if below.head?=some new_tip then pure (true,out.2) else rewindBlocks new_tip below out.2

/-- `chain` are the hashes of the branch of the current tip, down to the genesis block. -/
def customRewind (chain : List Uint256) (new_tip : Uint256) (new_height : Nat)
    (s : CoinStatsIndex M) :
    Except RewindCrash (Bool×CoinStatsIndex M) :=
  match copyHeightIndexToHashIndex store new_height (chain.length-new_height) with
  | none => pure (false,s)
  | some hashIndex =>
    if store.writes then rewindBlocks muhash {store with hashIndex} params new_tip chain s
    else pure (false,s)

/-- The totals less the subsidy of a height, all that ReverseBlock changes when a read fails. -/
def CoinStatsIndex.lessSubsidy (s : CoinStatsIndex M) (nHeight : Nat) : CoinStatsIndex M :=
  {s with totals := {s.totals with
    total_subsidy := s.totals.total_subsidy-getBlockSubsidy nHeight params}}

/-- The state in which the loop has gone through the blocks `above` the rest of the chain, `none` if
it stops before. -/
def reachedWith (rest : List Uint256) : List Uint256 → CoinStatsIndex M → Option (CoinStatsIndex M)
  | [],s => some s
  | iter_tip::above,s => do
    let block ← store.readBlock iter_tip
    let out ← (reverseBlock muhash store params block iter_tip (above++rest) s).toOption
    reachedWith rest above out.2

/-- A rewind to `new_tip` that returns true leaves the values that are recorded for it. -/
def RewindReported (above below : List Uint256) (child new_tip : Uint256) (s : CoinStatsIndex M) :
    Prop :=
  ∀ s', customRewind muhash store params (above++child::new_tip::below) new_tip below.length s =
      .ok (true,s') →
    ∃ hashIndex, copyHeightIndexToHashIndex store below.length (above.length+2)=some hashIndex ∧
      {store with hashIndex}.lookUpOne new_tip below.length=some (s'.value muhash)

variable {muhash store params} {block : Block} {child new_tip : Uint256} {below : List Uint256}
variable {s s' : CoinStatsIndex M} {fOk : Bool}

lemma lookUpOne_of_readPrevious {u : BlockUndo} {ro : DBVal}
    (h : readPrevious store child (new_tip::below)=some (u,ro)) :
    store.lookUpOne new_tip below.length=some ro := by
  simp only [readPrevious,Option.bind_eq_bind,Option.bind_eq_some_iff] at h
  obtain ⟨_,-,_,hh,h⟩ := h
  obtain ⟨he,h⟩ := Option.ite_none_right_eq_some.mp h
  cases h
  rw [IndexStore.lookUpOne,(Option.ite_none_right_eq_some.mp hh).2,Option.bind_eq_bind,
    Option.bind_some,if_pos he]
  rfl

/- The totals are asserted to be those that were read. -/
lemma reverseBlock_value (hr : (readPrevious store child (new_tip::below)).isSome)
    (h : reverseBlock muhash store params block child (new_tip::below) s=.ok (fOk,s')) :
    store.lookUpOne new_tip below.length=some (s'.value muhash) := by
  obtain ⟨⟨_,_⟩,ho⟩ := Option.isSome_iff_exists.mp hr
  simp only [reverseBlock,ho] at h
  obtain ⟨t,-,h⟩ := bind_eq_ok.mp h
  obtain ⟨_,hs,h⟩ := bind_eq_ok.mp h
  cases h
  simp only [rejectIf_eq_ok,decide_eq_false_iff_not,not_not] at hs
  rw [lookUpOne_of_readPrevious ho,hs]

lemma reverseBlock_unread (hr : readPrevious store child (new_tip::below)=none) :
    reverseBlock muhash store params block child (new_tip::below) s =
      .ok (false,s.lessSubsidy params (below.length+1)) := by
  simp only [reverseBlock,hr]
  rfl

lemma rewindBlocks_child : rewindBlocks muhash store params new_tip (child::new_tip::below) s=
      .ok (true,s') ↔ ∃ block fOk, store.readBlock child=some block ∧
        reverseBlock muhash store params block child (new_tip::below) s=.ok (fOk,s') := by
  rw [rewindBlocks]
  cases hb : store.readBlock child with
  | none => simp [pure_eq_ok]
  | some block =>
    simp only [head?_cons,if_true,Option.some.injEq]
    constructor
    · intro h
      obtain ⟨⟨fOk,t⟩,hr,h⟩ := bind_eq_ok.mp h
      cases h
      exact ⟨block,fOk,rfl,hr⟩
    · rintro ⟨_,fOk,rfl,hr⟩
      rw [hr]
      rfl

/- The loop comes to the last block in the state `reachedWith` gives. -/
lemma rewindBlocks_above (above : List Uint256) (hnot : new_tip∉above++[child]) :
    rewindBlocks muhash store params new_tip (above++child::new_tip::below) s=.ok (true,s') ↔
      ∃ t, reachedWith muhash store params (child::new_tip::below) above s=some t ∧
        rewindBlocks muhash store params new_tip (child::new_tip::below) t=.ok (true,s') := by
  induction above generalizing s with
  | nil => simp [reachedWith]
  | cons iter_tip above ih =>
    have hhead : (above++child::new_tip::below).head?≠some new_tip := by
      cases above <;> grind
    rw [cons_append,rewindBlocks,reachedWith]
    cases hb : store.readBlock iter_tip with
    | none => simp [pure_eq_ok]
    | some block =>
      cases hr : reverseBlock muhash store params block iter_tip
          (above++child::new_tip::below) s with
      | error e => simp [hr,bind_eq_ok,Except.toOption]
      | ok out =>
        simp only [Option.bind_eq_bind,Option.bind_some,hr,Except.toOption]
        rw [← ih fun hm => hnot (mem_cons_of_mem _ hm)]
        show (if (above++child::new_tip::below).head?=some new_tip then _ else _)=_ ↔ _
        rw [if_neg hhead]

lemma customRewind_true (above : List Uint256) (hnot : new_tip∉above++[child]) :
    customRewind muhash store params (above++child::new_tip::below) new_tip below.length s=
      .ok (true,s') ↔
    ∃ hashIndex t block fOk,
      copyHeightIndexToHashIndex store below.length (above.length+2)=some hashIndex ∧ store.writes ∧
      reachedWith muhash {store with hashIndex} params (child::new_tip::below) above s=some t ∧
      store.readBlock child=some block ∧
      reverseBlock muhash {store with hashIndex} params block child (new_tip::below) t=
        .ok (fOk,s') := by
  have hl : (above++child::new_tip::below).length-below.length=above.length+2 := by
    simp only [length_append,length_cons]
    omega
  rw [customRewind,hl]
  cases hc : copyHeightIndexToHashIndex store below.length (above.length+2) with
  | none => simp [pure_eq_ok]
  | some hashIndex =>
    cases hw : store.writes with
    | false => simp [pure_eq_ok]
    | true =>
      simp only [if_true,rewindBlocks_above above hnot,rewindBlocks_child]
      simp

/-- A rewind is reported exactly when the reads for the block above the new tip succeed, or the run
does not come to that block, or the totals it comes with are, less the subsidy, those recorded. -/
theorem customRewind_reported_iff (muhash : MuHash M) (store : IndexStore)
    (params : ConsensusParams) (above below : List Uint256) (child new_tip : Uint256)
    (s : CoinStatsIndex M) (hnot : new_tip∉above++[child]) :
    RewindReported muhash store params above below child new_tip s ↔
      (readPrevious store child (new_tip::below)).isSome ∨
      ∀ hashIndex reached,
        copyHeightIndexToHashIndex store below.length (above.length+2)=some hashIndex →
        store.writes →
        reachedWith muhash {store with hashIndex} params (child::new_tip::below) above s=
          some reached →
        (store.readBlock child).isSome →
        {store with hashIndex}.lookUpOne new_tip below.length =
          some ((reached.lessSubsidy params (below.length+1)).value muhash) := by
  unfold RewindReported
  simp only [customRewind_true above hnot]
  cases hr : readPrevious store child (new_tip::below) with
  | some read =>
    refine iff_of_true ?_ (.inl rfl)
    rintro s' ⟨hashIndex,t,block,fOk,hc,_,_,_,hrev⟩
    have hread : (readPrevious {store with hashIndex} child (new_tip::below)).isSome := hr ▸ rfl
    exact ⟨hashIndex,hc,reverseBlock_value hread hrev⟩
  | none =>
    have hun (hashIndex : Uint256 → Option DBVal) :
        readPrevious {store with hashIndex} child (new_tip::below)=none := hr
    simp only [Option.isSome_none,Bool.false_eq_true,false_or]
    constructor
    · intro h hashIndex reached hc hw ht hb
      obtain ⟨block,hb⟩ := Option.isSome_iff_exists.mp hb
      obtain ⟨hashIndex',hc',hv⟩ :=
        h _ ⟨hashIndex,reached,block,false,hc,hw,ht,hb,reverseBlock_unread (hun hashIndex)⟩
      obtain rfl := Option.some.inj (hc.symm.trans hc')
      exact hv
    · rintro h s' ⟨hashIndex,t,block,fOk,hc,hw,ht,hb,hrev⟩
      rw [reverseBlock_unread (hun hashIndex)] at hrev
      cases hrev
      exact ⟨hashIndex,hc,h hashIndex t hc hw ht (hb ▸ rfl)⟩
end

/- Block 1 creates 10 coins on the genesis block 0; its undo data may be unreadable. -/
def sampleStore (undo : Option BlockUndo) : IndexStore where
  heightIndex nHeight := some (nHeight,0,{})
  hashIndex _ := none
  readBlock _ := some ⟨1,0,0,[⟨[⟨⟨0,NULL_INDEX⟩,[],0,[]⟩],[⟨10*COIN,[]⟩],2,0,7⟩]⟩
  readUndo _ := undo
  iterates _ := true
  writes := true
  readsHeight _ := true

def sampleIndex : CoinStatsIndex Unit where
  m_muhash := ()
  totals := {
    transaction_output_count := 1
    bogo_size := 50
    total_amount := 10*COIN
    total_subsidy := 10*COIN
    total_coinbase_amount := 10*COIN}

def sampleHash : MuHash Unit := ⟨fun _ _ => (),fun _ _ => (),fun _ => 0⟩
def sampleParams : ConsensusParams := ⟨0,100,0,0,false⟩

/- The reads succeed; or they fail and only the subsidy was left to take back. -/
theorem customRewind_reported_sample :
    customRewind sampleHash (sampleStore (some [])) sampleParams [1,0] 0 0 sampleIndex=
      .ok (true,⟨(),{}⟩) ∧
    RewindReported sampleHash (sampleStore (some [])) sampleParams [] [] 1 0 sampleIndex ∧
    RewindReported sampleHash (sampleStore none) sampleParams [] [] 1 0
      ⟨(),{total_subsidy := 10*COIN}⟩ := by
  refine ⟨rfl,(customRewind_reported_iff _ _ _ _ _ _ _ _ (by decide)).2 (.inl rfl),
    (customRewind_reported_iff _ _ _ _ _ _ _ _ (by decide)).2 (.inr ?_)⟩
  rintro hashIndex reached _ _ ht _
  cases ht
  rfl

/- The undo data cannot be read, the rewind returns true, and the coins of block 1 still count. -/
theorem customRewind_hides_failure :
    (∃ s', customRewind sampleHash (sampleStore none) sampleParams [1,0] 0 0 sampleIndex=
      .ok (true,s') ∧ s'.totals.total_amount=10*COIN) ∧
    (sampleStore none).lookUpOne 0 0=some (0,{}) ∧
    ¬RewindReported sampleHash (sampleStore none) sampleParams [] [] 1 0 sampleIndex := by
  refine ⟨⟨_,rfl,rfl⟩,rfl,fun h => ?_⟩
  obtain ⟨_,hc,hv⟩ := h _ rfl
  cases hc
  exact absurd hv (by decide)
end Xero.CoinStats
