import Xero.IndexRuns

/-! ActivateBestChain ends on a valid chain of greatest work, from any state that the self
check accepts. -/
namespace Xero
namespace BlockIndexState
variable {B : Type} [DecidableEq B]

/-- No block on the branch has been found invalid. -/
def Unblamed (s : BlockIndexState B) (b : List B) : Prop :=
  b≠[] ∧ ∀ q, q <:+ b → q≠[] → s.failedValid q=false

/-- Nothing on the branch has been found invalid, and ConnectBlock accepts every block on it. -/
def ValidBranch (params : ChainParams B) (s : BlockIndexState B) (b : List B) : Prop :=
  ∀ q, q <:+ b → q≠[] → s.failedValid q=false ∧ (q.tail≠[] → params.connects q)

variable {params : ChainParams B} {s s' : BlockIndexState B} {b : List B}

omit [DecidableEq B] in
lemma eligibility_unblamed : Eligibility (Unblamed (B := B)) where
  antitone := by
    intro s s' b h hva _
    refine ⟨h.1,fun q hq hn => ?_⟩
    by_contra hv
    have hv' := hva q (Bool.not_eq_false _ ▸ hv)
    rw [h.2 q hq hn] at hv'
    cases hv'
  unmarked := by
    intro s b hc hb h
    by_contra hf
    obtain ⟨a,ha,hn,hv⟩ := hc.exists_failedValid hb h.1 (Bool.not_eq_false _ ▸ hf)
    rw [h.2 a ha hn] at hv
    cases hv
  clean params s b hn h :=
    ⟨hn,fun q hq hqn => (Bool.or_eq_false_iff.mp (h q hq hqn).1).1⟩

structure Startable (params : ChainParams B) (s : BlockIndexState B) : Prop where
  tree : IndexTree params s.index s.nHeight s.nChainWork
  candidate : ∀ c∈s.setBlockIndexCandidates, c∈s.index
  tip : s.tip∈s.index
  -- the active chain has been connected, and InvalidateBlock takes it off before it marks it
  connected : Clean params s s.tip
  data : ∀ b∈s.index, s.haveData b
  check : s.checkBlockIndex params

lemma Consistent.startable (h : Consistent params s) (hd : ∀ b∈s.index, s.haveData b) :
    Startable params s where
  tree := h.tree
  candidate c hc := (h.candidate_mem c hc).1
  tip := h.active.mem
  connected := h.active.clean
  data := hd
  check := h.checkBlockIndex

namespace Startable
section
variable (h : Startable params s)
include h

lemma entry (hb : b∈s.index) : s.checkData b ∧ s.checkValidity b ∧ s.checkCandidate params b := by
  have hc := h.check
  simp only [checkBlockIndex,Bool.and_eq_true,List.all_eq_true] at hc
  have he := hc.2 b hb
  exact ⟨he.1.1.1.2,he.1.1.2,he.1.2⟩

lemma firstNeverProcessed (hb : b∈s.index) : (s.firstNeverProcessed b).isNone := by
  refine isNone_firstWith.mpr fun q hq hn => ?_
  have hm := h.tree.suffix_mem hb hq hn
  have hd := (h.entry hm).1
  simp only [checkData,Bool.and_eq_true,h.data q hm] at hd
  simpa using hd.1.1.1.1.1.1.1.1.2

lemma linked (hb : b∈s.index) : s.nChainTx b≠0 := by
  have hd := (h.entry hb).1
  simp only [checkData,Bool.and_eq_true,h.firstNeverProcessed hb] at hd
  simpa [haveTxsDownloaded] using hd.1.1.1.1.2

lemma childMarks : ChildMarks s := by
  intro b hb hc
  have hv := (h.entry hb).2.1
  simp only [checkValidity,Bool.and_eq_true,Bool.or_eq_true,failed,hc,Bool.or_true,Bool.not_true,
    Bool.false_eq_true,or_false] at hv
  exact isSome_firstWith.mp hv.2

lemma selecting : Selecting params Unblamed s.tip s where
  tree := h.tree
  linked b hb _ := ⟨h.data b hb,fun hn => h.linked (h.tree.parent b hb hn)⟩
  child := h.childMarks
  tip_mem := h.tip
  tip_clean := h.connected
  floor_mem := h.tip
  floor_linked := h.linked h.tip
  floor_clean := h.connected
  candidate_mem c hc := ⟨h.candidate c hc,h.linked (h.candidate c hc)⟩
  candidate_floor c hc := by
    have hca := (h.entry (h.candidate c hc)).2.2
    rw [checkCandidate,h.firstNeverProcessed (h.candidate c hc)] at hca
    by_contra hw
    simp [Bool.not_eq_false _ ▸ hw,hc] at hca
  complete b hb _ hu hw := by
    have hm : (s.firstMissing b).isSome=false := by
      rw [← Bool.not_eq_true,BlockIndexState.firstMissing,isSome_firstWith]
      rintro ⟨q,hq,hn,hd⟩
      rw [h.data q (h.tree.suffix_mem hb hq hn)] at hd
      cases hd
    have hi : (s.firstInvalid b).isSome=false := by
      rw [← Bool.not_eq_true,firstInvalid,isSome_firstWith]
      rintro ⟨q,hq,hn,hv⟩
      rw [hu.2 q hq hn] at hv
      cases hv
    have hca := (h.entry hb).2.2
    simpa [checkCandidate,h.firstNeverProcessed hb,hw,hm,hi] using hca
  tip_floor := Or.inl rfl
end
end Startable

lemma ChainMove.failedValid (h : ChainMove params s s') {q : List B}
    (hq : s'.failedValid q) : s.failedValid q ∨ params.connects q=false := by
  cases h with
  | drop hn hs hne hfl =>
    obtain ⟨_,he⟩ := dropUnusable_eq hs hfl
    rw [he] at hq
    exact Or.inl hq
  | disconnect => exact Or.inl hq
  | connect => exact Or.inl hq
  | reject hb ht hl hm hi hf =>
    obtain rfl | hv := failedValid_setFailedValid.mp hq
    · exact Or.inr hi
    · exact Or.inl hv

lemma ChainMoves.failedValid (h : ChainMoves params s s') {q : List B}
    (hq : s'.failedValid q) : s.failedValid q ∨ params.connects q=false := by
  induction h with
  | refl => exact Or.inl hq
  | tail _ hl ih =>
    obtain hv | hi := hl.failedValid hq
    · exact ih hv
    · exact Or.inr hi

omit [DecidableEq B] in
lemma work_le_of_target (he : Selecting params Unblamed s.tip s) (ht : Target params s.tip s)
    (hb : b∈s.index) (hl : s.nChainTx b≠0) (hu : Unblamed s b) :
    s.nChainWork b ≤ s.nChainWork s.tip := by
  cases hw : s.sortsWorse params b s.tip with
  | true =>
    exact work_le_of_not_sortsWorse ((sortsWorse_ranking params s).asymm hw)
  | false =>
    exact work_le_of_not_sortsWorse (ht.best b (he.complete b hb hl hu hw))
end BlockIndexState
open BlockIndexState
variable {B : Type} [DecidableEq B]

/-- ActivateBestChain returns. It ends on a tip with only valid ancestors, no valid branch has
more work, and the tip it started from is left only for one that sorts better. -/
theorem activateBestChain_optimal (params : ChainParams B) (s : BlockIndexState B)
    (h : Startable params s) : (∃ fuel s', s.activateBestChain params fuel=some s') ∧
    ∀ fuel s', s.activateBestChain params fuel=some s' →
      ValidBranch params s' s'.tip ∧
      (∀ b∈s'.index, ValidBranch params s b → s'.nChainWork b ≤ s'.nChainWork s'.tip) ∧
      (s'.tip=s.tip ∨ s.sortsWorse params s.tip s'.tip) := by
  refine ⟨h.selecting.activateBestChain_returns eligibility_unblamed,fun fuel s' hru => ?_⟩
  obtain ⟨hmo,hs,hw⟩ := h.selecting.activateBestChain eligibility_unblamed hru
  obtain ⟨_,ht⟩ := h.selecting.searching.loop eligibility_unblamed hru
  have hsa := (h.selecting.moves eligibility_unblamed hmo).1
  refine ⟨fun q hq hn => ?_,fun b hb hva => ?_,?_⟩
  · obtain ⟨hm,hc⟩ := hs.tip_clean q hq hn
    exact ⟨(Bool.or_eq_false_iff.mp hm).1,hc⟩
  · have hl : s'.nChainTx b≠0 := by
      rw [hsa.nChainTx]
      exact h.linked (hsa.index ▸ hb)
    refine work_le_of_target hs ht hb hl ⟨hs.tree.ne_nil hb,fun q hq hn => ?_⟩
    by_cases hr : q.tail=[]
    · -- every branch shares genesis with the tip
      rw [hs.tree.root q (hs.tree.suffix_mem hb hq hn) hr]
      exact (Bool.or_eq_false_iff.mp (hs.tip_clean _ (hs.tree.genesis_suffix hs.tip_mem)
        (List.cons_ne_nil _ _)).1).1
    · obtain ⟨hm,hc⟩ := hva q hq hn
      by_contra hv
      obtain hv | hi := hmo.failedValid (Bool.not_eq_false _ ▸ hv)
      · rw [hm] at hv
        cases hv
      · rw [hc hr] at hi
        cases hi
  · by_cases he : s'.tip=s.tip
    · exact Or.inl he
    · exact Or.inr ((sortsWorse_ranking params s).worse_of_not_worse he hw)

def refusingChain : ChainParams Nat :=
  {sampleChain with connects := fun b => decide (b≠[3,1,0])}
def forkCalls : List (Nat×ChainCall Nat) :=
  [(0,.acceptBlock blockGood [1,0]),(0,.acceptBlock blockGood [2,0]),
    (0,.acceptBlock blockGood [3,1,0])]

theorem activateBestChain_optimal_fork :
    ∃ s s', forkCalls.foldlM (safeStep refusingChain) (initial refusingChain)=some s ∧
      s.activateBestChain refusingChain 9=some s' ∧ s'.tip=[1,0] ∧
      ValidBranch refusingChain s' [1,0] := by
  have hr : ((forkCalls.foldlM (safeStep refusingChain) (initial refusingChain)).bind fun s =>
      (s.activateBestChain refusingChain 9).map fun s' =>
        (s'.tip,decide (∀ b∈s.index, s.haveData b)))=some ([1,0],true) := by decide +kernel
  obtain ⟨s,hs,hr⟩ := Option.bind_eq_some_iff.mp hr
  obtain ⟨s',hs',hr⟩ := Option.map_eq_some_iff.mp hr
  obtain ⟨ht,hd⟩ := Prod.mk.inj hr
  have hst := (consistent_of_safe_calls hs).startable (of_decide_eq_true hd)
  have hv := ((activateBestChain_optimal refusingChain s hst).2 9 s' hs').1
  exact ⟨s,s',hs,hs',ht,ht ▸ hv⟩
end Xero
