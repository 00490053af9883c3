import Xero.Library.Branches
import Xero.MedianTime
import Xero.TxSignatureChecker

/-! Relative lock times: CalculateSequenceLocks folds them into the last invalid height and time,
and EvaluateSequenceLocks compares the two with a block. -/
namespace Xero
open Library List HeaderChain

def SEQUENCE_LOCKTIME_GRANULARITY : Nat := 9
def HeaderChain.pprev (chain : HeaderChain) : HeaderChain := chain.tail

/- GetAncestor, with the blocks below it. -/
def HeaderChain.ancestor (chain : HeaderChain) (height : Int) : Option HeaderChain :=
  if chain.nHeight<height ∨ height<0 then none else some (chain.drop (chain.nHeight-height).toNat)

def TxIn.lockDisabled (txin : TxIn) : Bool := txin.nSequence.testBit SEQUENCE_LOCKTIME_DISABLE_BIT
def TxIn.lockByTime (txin : TxIn) : Bool :=
    decide (txin.nSequence &&& SEQUENCE_LOCKTIME_TYPE_FLAG≠0)
def TxIn.lockValue (txin : TxIn) : Nat := txin.nSequence &&& SEQUENCE_LOCKTIME_MASK

/- The locks after one more input with the height of its coin; `none` is a failed assert. The sums are
those of int and int64_t for heights below 2^31 - 2^16, as a lock value has 16 bits. -/
def lockInput (block : HeaderChain) (locks : Int×Int) (input : TxIn×Int) : Option (Int×Int) :=
  if input.1.lockDisabled then some locks
  else if input.1.lockByTime then do
    let before ← block.ancestor (max (input.2-1) 0)
    let nCoinTime := before.getMedianTimePast
    some (locks.1,max locks.2 (nCoinTime+(input.1.lockValue <<<
        SEQUENCE_LOCKTIME_GRANULARITY : Nat)-1))
  else some (max locks.1 (input.2+input.1.lockValue-1),locks.2)

/-- The lock pair, and the heights with those that do not matter set to zero. -/
def calculateSequenceLocks (tx : Transaction) (verifySequence : Bool) (prevHeights : List Int)
    (block : HeaderChain) : Option ((Int×Int)×List Int) :=
  if prevHeights.length≠tx.vin.length then none
  else if ¬(2≤tx.nVersion%2^32 ∧ verifySequence) then some ((-1,-1),prevHeights)
  else do
    let locks ← (tx.vin.zip prevHeights).foldlM (lockInput block) (-1,-1)
    some (locks,(tx.vin.zip prevHeights).map fun input => if input.1.lockDisabled
        then 0 else input.2)

def evaluateSequenceLocks (block : HeaderChain) (lockPair : Int×Int) : Option Bool :=
  if block.pprev=[] then none
  else some !(decide (block.nHeight≤lockPair.1) || decide (block.pprev.getMedianTimePast≤lockPair.2))
def sequenceLocks (tx : Transaction) (verifySequence : Bool) (prevHeights : List Int)
    (block : HeaderChain) : Option Bool := do
  let r ← calculateSequenceLocks tx verifySequence prevHeights block
  evaluateSequenceLocks block r.1

/-- What BIP68 asks of an input whose coin has that height. -/
def TxIn.Unlocked (block : HeaderChain) (input : TxIn×Int) : Prop :=
  input.1.lockDisabled=false → if input.1.lockByTime then
      ∀ before, block.ancestor (max (input.2-1) 0)=some before →
        before.getMedianTimePast+512*input.1.lockValue≤block.pprev.getMedianTimePast
    else input.2+input.1.lockValue≤block.nHeight

variable {block : HeaderChain} {input : TxIn×Int}

def LocksPassed (block : HeaderChain) (locks : Int×Int) : Prop :=
  locks.1<block.nHeight ∧ locks.2<block.pprev.getMedianTimePast

lemma nHeight_of_pprev (hp : block.pprev≠[]) : 0≤block.nHeight := by
  have hpo : 0<length block := length_pos_iff.2 fun hn => hp (by rw [hn]; rfl)
  unfold nHeight
  omega

lemma lockInput_spec (hh : input.2≤block.nHeight) (hz : 0≤block.nHeight) (l : Int×Int) :
    ∃ r, lockInput block l input=some r ∧
      (LocksPassed block r ↔ LocksPassed block l ∧ TxIn.Unlocked block input) := by
  unfold lockInput TxIn.Unlocked LocksPassed
  cases ho : input.1.lockDisabled with
  | true => exact ⟨l,rfl,by simp⟩
  | false =>
    cases ht : input.1.lockByTime with
    | true =>
      have hb : block.ancestor (max (input.2-1) 0)=
          some (block.drop (block.nHeight-max (input.2-1) 0).toNat) := if_neg (by omega)
      rw [hb]
      refine ⟨_,rfl,?_⟩
      simp only [SEQUENCE_LOCKTIME_GRANULARITY,Nat.shiftLeft_eq,if_true,Option.some.injEq,
          forall_eq',true_implies]
      omega
    | false =>
      refine ⟨_,rfl,?_⟩
      simp only [Bool.false_eq_true,if_false,true_implies]
      omega

lemma foldlM_lockInput (hz : 0≤block.nHeight) (i : List (TxIn×Int))
    (hh : ∀ input∈i, input.2≤block.nHeight) (l : Int×Int) :
    ∃ r, i.foldlM (lockInput block) l=some r ∧
      (LocksPassed block r ↔ LocksPassed block l ∧ ∀ input∈i, TxIn.Unlocked block input) := by
  induction i generalizing l with
  | nil => exact ⟨l,rfl,by simp⟩
  | cons input i ih =>
    obtain ⟨hht,hh⟩ := forall_mem_cons.mp hh
    obtain ⟨l',hs,hi⟩ := lockInput_spec hht hz l
    obtain ⟨r,hr,hi'⟩ := ih hh l'
    refine ⟨r,?_,?_⟩
    · rw [foldlM_cons,hs]
      exact hr
    · rw [hi',hi,forall_mem_cons,and_assoc]

lemma sequenceLocks_eq {tx : Transaction} {ph : List Int} (hv : 2≤tx.nVersion%2^32)
    (hs : ph.length=tx.vin.length) (hp : block.pprev≠[]) (hh : ∀ height∈ph, height≤block.nHeight) :
    ∃ ok, sequenceLocks tx true ph block=some ok ∧
      (ok ↔ ∀ input∈tx.vin.zip ph, TxIn.Unlocked block input) := by
  have hz := nHeight_of_pprev hp
  obtain ⟨r,hr,hi⟩ := foldlM_lockInput hz (tx.vin.zip ph)
    (fun input hm => hh _ (of_mem_zip hm).2) (-1,-1)
  have hst : LocksPassed block (-1,-1) := by
    have ht : 0≤block.pprev.getMedianTimePast :=
      median_of_times (P := (0≤·)) le_rfl fun _ _ => Int.natCast_nonneg _
    unfold LocksPassed
    omega
  refine ⟨!(decide (block.nHeight ≤ r.1) || decide (block.pprev.getMedianTimePast ≤ r.2)),?_,?_⟩
  · simp only [sequenceLocks,calculateSequenceLocks,hs,ne_eq,not_true_eq_false,if_false,hv,
      and_true,hr,Option.bind_eq_bind,Option.bind_some,evaluateSequenceLocks,if_neg hp]
  · rw [← (hi.trans (and_iff_right hst)),LocksPassed]
    simp

/-- The median time past does not decrease from block to block. -/
def HeaderChain.TimesKept (chain : HeaderChain) : Prop :=
  ∀ block pprev, block::pprev <:+ chain → pprev≠[] →
    getMedianTimePast pprev≤getMedianTimePast (block::pprev)

lemma HeaderChain.TimesKept.le {chain p q : HeaderChain} (hk : chain.TimesKept) (hq : q <:+ chain)
    (hp : p <:+ q) (hn : p≠[]) : p.getMedianTimePast≤q.getMedianTimePast := by
  obtain ⟨bl,rfl⟩ := hp
  induction bl with
  | nil => exact le_rfl
  | cons b bl ih =>
    exact (ih ((suffix_cons ..).trans hq)).trans (hk b (bl++p) hq (by simp [hn]))

lemma nHeight_append (b block : HeaderChain) : nHeight (b++block)=length b+block.nHeight := by
  simp only [nHeight,length_append]
  omega

lemma Unlocked.append (hh : input.2≤block.nHeight) (hp : block.pprev≠[]) {bl : HeaderChain}
    (hk : TimesKept (bl++block)) (h : TxIn.Unlocked block input) :
    TxIn.Unlocked (bl++block) input := by
  have hz := nHeight_of_pprev hp
  have hg := nHeight_append bl block
  have hl : block.pprev.getMedianTimePast≤(pprev (bl++block)).getMedianTimePast :=
    hk.le (tail_suffix _) (tail_suffix_tail (suffix_append ..)) hp
  have hs : ancestor (bl++block) (max (input.2-1) 0)= block.ancestor (max (input.2-1) 0) := by
    have hd : (length bl+block.nHeight-max (input.2-1) 0).toNat=
        length bl+(block.nHeight-max (input.2-1) 0).toNat := by omega
    unfold ancestor
    rw [hg,if_neg (by omega),if_neg (by omega),hd]
    simp
  intro hof
  have ho := h hof
  split_ifs at ho ⊢ with ht
  · intro b hb
    exact (ho b (hs ▸ hb)).trans hl
  · omega

/-- Relative lock times mean what BIP68 says, and once satisfied they stay satisfied. -/
theorem sequenceLocks_iff (tx : Transaction) (prevHeights : List Int) (block : HeaderChain)
    (hversion : 2≤tx.nVersion%2^32) (hsize : prevHeights.length=tx.vin.length)
    (hparent : block.pprev≠[]) (hheights : ∀ height∈prevHeights, height≤block.nHeight) :
    (∃ ok, sequenceLocks tx true prevHeights block=some ok ∧
      (ok ↔ ∀ input∈tx.vin.zip prevHeights, TxIn.Unlocked block input)) ∧
    ∀ blocks, TimesKept (blocks++block) →
      sequenceLocks tx true prevHeights block=some true →
      sequenceLocks tx true prevHeights (blocks++block)=some true := by
  obtain ⟨ok,ho,hi⟩ := sequenceLocks_eq hversion hsize hparent hheights
  refine ⟨⟨ok,ho,hi⟩,fun blocks hk ht => ?_⟩
  obtain rfl := Option.some_inj.mp (ho.symm.trans ht)
  have hparent' : pprev (blocks++block)≠[] := fun hn =>
    hparent (suffix_nil.mp (hn ▸ tail_suffix_tail (suffix_append blocks block)))
  obtain ⟨ok,ho',hi'⟩ := sequenceLocks_eq hversion hsize hparent' fun height hm => by
    rw [nHeight_append]
    exact (hheights height hm).trans (by omega)
  rw [ho',hi'.mpr fun input hm => ?_]
  exact Unlocked.append (hheights _ (of_mem_zip hm).2) hparent hk (hi.mp rfl input hm)

/- A lock of one block on a coin of the first, satisfied by the second, so by the third. -/
theorem sequenceLocks_iff_next :
    sequenceLocks ⟨[⟨⟨0,0⟩,[],1,[]⟩],[],2,0,0⟩ true [0] [⟨4,40,0⟩,⟨4,30,0⟩,⟨4,20,0⟩]=some true := by
  refine (sequenceLocks_iff _ [0] [⟨4,30,0⟩,⟨4,20,0⟩] (by decide) rfl (by decide) (by decide)).2
    [⟨4,40,0⟩] ?_ (by decide)
  intro block _ hs hn
  simp only [singleton_append,suffix_cons_iff,suffix_nil,cons.injEq,reduceCtorEq,or_false] at hs
  obtain ⟨rfl,rfl⟩ | ⟨rfl,rfl⟩ | ⟨-,rfl⟩ := hs
  · decide
  · decide
  · exact absurd rfl hn
end Xero
