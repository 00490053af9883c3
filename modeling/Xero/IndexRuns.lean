import Xero.IndexAccept
import Xero.IndexCalls
import Xero.Library.Simulation
import Mathlib.Logic.Equiv.List

/-! Whole runs of calls on one chainstate, and when its self check holds after each call. -/
namespace Xero
open Library BlockIndexState List
variable {B : Type} [DecidableEq B]
namespace ChainCall
/-- The inputs on which a call keeps the block index consistent. -/
def Safe (params : ChainParams B) (s : BlockIndexState B) : ChainCall B → Prop
  | acceptBlockHeader _ _ => True
  -- else ReceivedBlockTransactions stores data that m_blocks_unlinked does not learn of, or a
  -- count of transactions that can wrap to 0
  | acceptBlock checks b =>
    b∈s.index ∧ s.haveData b ∨ checks.check≠.ok ∨
      (s.nChainTx b.tail≠0 ∨ s.failed b.tail=false) ∧ params.branchTxs b<2^32
  | activateBestChain => True
  | invalidateBlock b => b∈s.index
  -- else ResetBlockFailureFlags clears ancestors that do not become candidates
  | resetBlockFailureFlags b => b∈s.index ∧ ∀ a∈b.tails, a≠b → a≠[] → s.failed a=false
  -- else PreciousBlock makes the tip sort worse than blocks that are no longer candidates
  | preciousBlock b => b∈s.index ∧ (b=s.tip → s.preciousSequenceId ≤ s.nSequenceId s.tip)

instance (params : ChainParams B) (s : BlockIndexState B) :
    (call : ChainCall B) → Decidable (call.Safe params s)
  | acceptBlockHeader _ _ => inferInstanceAs (Decidable True)
  | acceptBlock _ _ => inferInstanceAs (Decidable (_ ∧ _ ∨ _ ∨ (_ ∨ _) ∧ _))
  | activateBestChain => inferInstanceAs (Decidable True)
  | invalidateBlock b => inferInstanceAs (Decidable (b∈s.index))
  | resetBlockFailureFlags b => inferInstanceAs (Decidable (b∈s.index ∧ ∀ a∈b.tails, _))
  | preciousBlock _ => inferInstanceAs (Decidable (_ ∧ (_ → _)))

variable {ps : ChainParams B} {s s' : BlockIndexState B} {fu : Nat}

lemma consistent_run (h : Consistent ps s) {ca : ChainCall B}
    (hs : ca.Safe ps s) (hr : ca.run ps fu s=some s') : Consistent ps s' := by
  cases ca with
  | acceptBlockHeader c b =>
    cases hr
    exact (h.acceptBlockHeader c).1
  | acceptBlock c b =>
    cases hr
    have hstored : ¬(b∈s.index ∧ s.haveData b) → c.check=.ok →
        (s.nChainTx b.tail≠0 ∨ s.failed b.tail=false) ∧ ps.branchTxs b<2^32 := by
      intro hd ho
      obtain hs | hs | hs := hs
      · exact absurd hs hd
      · exact absurd ho hs
      · exact hs
    exact h.acceptBlock c (fun hd ho => (hstored hd ho).2)
      fun hd ho ht => (hstored (by simp [hd]) ho).1.resolve_left (not_not.mpr ht)
  | activateBestChain => exact h.activate hr
  | invalidateBlock b =>
    have hb : b∈s.index := hs
    rw [run,if_pos hb] at hr
    cases hr
    exact h.invalidate hb
  | resetBlockFailureFlags b =>
    rw [run,if_pos hs.1] at hr
    cases hr
    exact h.reset fun a ha => hs.2 a ((mem_tails a b).mpr ha)
  | preciousBlock b =>
    rw [run,if_pos hs.1] at hr
    exact h.precious hs.1 hs.2 hr

lemma run_returns (h : Consistent ps s) {ca : ChainCall B}
    (hs : ca.Safe ps s) : ∃ fu s', ca.run ps fu s=some s' := by
  have ha : ∀ {s : BlockIndexState B}, Consistent ps s →
      ∃ fu s', s.activateBestChain ps fu=some s' := fun h =>
    h.selecting.activateBestChain_returns eligibility_unmarked
  cases ca with
  | acceptBlockHeader c b => exact ⟨0,_,rfl⟩
  | acceptBlock c b => exact ⟨0,_,rfl⟩
  | activateBestChain => exact ha h
  | invalidateBlock b => exact ⟨0,_,if_pos hs⟩
  | resetBlockFailureFlags b => exact ⟨0,_,if_pos hs.1⟩
  | preciousBlock b =>
    simp only [run,if_pos hs.1,BlockIndexState.preciousBlock]
    by_cases hl : s.nChainWork b < s.nChainWork s.tip
    · exact ⟨0,s,if_pos hl⟩
    · obtain ⟨_,hs1,hc⟩ := h.makePrecious hs.1 hs.2
      simp only [if_neg hl,hs1]
      exact ha hc
end ChainCall

variable (params : ChainParams B)

omit [DecidableEq B] in
lemma BlockIndexState.initial_consistent : Consistent params (initial params) := by
  have hs : params.vtxSize [params.genesis]≠0 :=
    Nat.pos_iff_ne_zero.mp (params.vtxSize_pos [params.genesis])
  have hm : ∀ {b}, b∈(initial params).index → b=[params.genesis] := fun hb =>
    mem_singleton.mp hb
  exact {
    tree := by
      refine ⟨by simp [initial],by simp [initial],fun b hb _ => hm hb,?_,?_,?_⟩
      all_goals
        intro b hb
        rw [hm hb]
        simp [initial]
    recorded := by
      refine ⟨?_,?_,?_,fun _ _ => (by decide : blockValidTree≤blockValidTransactions),?_,?_⟩
      all_goals
        intro b hb
        simp [initial,hs]
    links := by
      refine ⟨?_,by simp,?_,by simp [initial]⟩
      · intro b hb _
        simp [initial,hs]
      · simp [initial,hs]
    counted := by
      have hle := params.vtxSize_le [params.genesis]
      refine ⟨?_,?_,?_⟩
      all_goals
        intro b hb
        rw [hm hb]
        simp [initial,ChainParams.branchTxs]
      omega
    skips := by
      refine ⟨?_,?_⟩
      all_goals
        intro b hb
        rw [hm hb]
        simp [initial]
    child := by simp [ChildMarks,initial]
    failedBlocks := by simp [initial]
    active := by
      refine ⟨by simp [initial],?_,by simpa [initial] using hs,?_⟩
      · intro q hq hn
        obtain rfl | hq := suffix_cons_iff.mp hq
        · simp [initial,failed]
        · exact absurd (suffix_nil.mp hq) hn
      · intro q hq ht
        exact absurd (suffix_nil.mp (tail_suffix_tail hq)) ht
    candidate_mem := by simpa [initial] using hs
    candidate_tip := by
      intro c hc
      rw [mem_singleton.mp hc]
      exact (sortsWorse_ranking params _).irrefl _
    complete := fun b hb _ _ _ => hb
    counter := by simp [initial]}

def safeStep (s : BlockIndexState B) (call : Nat×ChainCall B) : Option (BlockIndexState B) :=
  if call.2.Safe params s then call.2.run params call.1 s else none

lemma consistent_of_safe_calls {params : ChainParams B} {ca : List (Nat×ChainCall B)}
    {s : BlockIndexState B} (hr : ca.foldlM (safeStep params) (initial params)=some s) :
    Consistent params s := by
  refine foldlM_invariant (fun s c s' h hs => ?_) ca _ s (initial_consistent params) hr
  rw [safeStep] at hs
  split at hs
  · rename_i hsa
    exact ChainCall.consistent_run h hsa hs
  · cases hs

/-- After every run of safe calls all assertions of the self check hold, and the next safe
call returns. -/
theorem checkBlockIndex_of_safe_calls (calls : List (Nat×ChainCall B)) (s : BlockIndexState B)
    (hrun : calls.foldlM (safeStep params) (initial params)=some s) :
    s.checkBlockIndex params ∧
      ∀ call : ChainCall B, call.Safe params s → ∃ fuel s', call.run params fuel s=some s' := by
  have hc := consistent_of_safe_calls hrun
  exact ⟨hc.checkBlockIndex,fun call hs => ChainCall.run_returns hc hs⟩

def sampleChain : ChainParams Nat where
  genesis := 0
  blockProof _ := 1
  vtxSize _ := 1
  address := Encodable.encode
  connects _ := true
  minimumChainWork := 0
  blockProof_pos _ := by decide
  vtxSize_pos _ := by decide
  vtxSize_le _ := by decide
  address_inj := Encodable.encode_injective

def headerGood : HeaderChecks := ⟨true,true,true⟩
def blockGood : BlockChecks := ⟨headerGood,true,.ok,true⟩

/- A reorganization, an invalidated block and its reconsideration. -/
def reorganizationCalls : List (Nat×ChainCall Nat) :=
  [(9,.acceptBlock blockGood [1,0]),(9,.activateBestChain),
    (9,.acceptBlock blockGood [2,0]),(9,.preciousBlock [2,0]),
    (9,.acceptBlock blockGood [3,1,0]),(9,.activateBestChain),(9,.invalidateBlock [1,0]),
    (9,.activateBestChain),(9,.resetBlockFailureFlags [1,0])]

theorem checkBlockIndex_of_safe_calls_reorganization :
    ∃ s, reorganizationCalls.foldlM (safeStep sampleChain) (initial sampleChain)=some s ∧
      s.tip=[2,0] ∧ s.checkBlockIndex sampleChain := by
  have hr : (reorganizationCalls.foldlM (safeStep sampleChain) (initial sampleChain)).map
      BlockIndexState.tip=some [2,0] := by decide +kernel
  obtain ⟨s,hs,ht⟩ := Option.map_eq_some_iff.mp hr
  exact ⟨s,hs,ht,(checkBlockIndex_of_safe_calls _ _ s hs).1⟩

def runCalls (fuel : Nat) (calls : List (ChainCall B)) : Option (BlockIndexState B) :=
  calls.foldlM (fun s call => call.run params fuel s) (initial params)

/-- ResetBlockFailureFlags on a descendant clears the marks of a fully downloaded ancestor that
only the calls on that ancestor would make a candidate again. -/
theorem checkBlockIndex_fails_after_reset_of_descendant :
    (runCalls sampleChain 9 [.acceptBlock blockGood [1,0],.activateBestChain,
      .acceptBlockHeader headerGood [2,1,0],.invalidateBlock [1,0],.activateBestChain,
      .resetBlockFailureFlags [2,1,0],.activateBestChain]).map
      (BlockIndexState.checkBlockIndex sampleChain)=some false := by decide +kernel
end Xero
