import Xero.ChainCalls
import Xero.ActivateSpec

/-! The invariant of the block index over whole runs. It says more than the self check of the
source, which it implies. -/
namespace Xero
open Library List
variable {B : Type}

/-- What the entries record about their blocks. -/
structure DataRecorded (index : List (List B)) (nTx nChainTx : List B → Nat)
    (nSequenceId : List B → Int) (valid : List B → Nat) (haveData haveUndo : List B → Bool) :
    Prop where
  data : ∀ b∈index, haveData b ↔ nTx b≠0
  undo : ∀ b∈index, haveUndo b → haveData b
  transactions : ∀ b∈index, blockValidTransactions≤valid b ↔ nTx b≠0
  treeValid : ∀ b∈index, blockValidTree≤valid b
  -- only ConnectBlock goes beyond transactions, and it works on a connected parent
  scripts : ∀ b∈index, blockValidChain≤valid b → b.tail.tail≠[] → blockValidScripts≤valid b.tail
  sequence : ∀ b∈index, nChainTx b=0 → nSequenceId b≤0

/-- Blocks are linked from genesis on as their data arrives. `queue` is what waits in the
work queue of ReceivedBlockTransactions, and nothing waits there between two calls;
m_blocks_unlinked holds the blocks with data that lack an ancestor's data. -/
structure Links (queue index : List (List B)) (nTx nChainTx : List B → Nat)
    (haveData : List B → Bool) (blocksUnlinked : List (List B)) : Prop where
  linked : ∀ b∈index, b∉queue → (nChainTx b≠0 ↔ nTx b≠0 ∧ (b.tail≠[] → nChainTx b.tail≠0))
  queued : ∀ b∈queue, b∈index ∧ nTx b≠0 ∧ nChainTx b=0 ∧ (b.tail≠[] → nChainTx b.tail≠0)
  unlinked : ∀ b, b∈blocksUnlinked ↔ b∈index ∧ haveData b ∧ nChainTx b=0 ∧ b∉queue
  nodup : (queue++blocksUnlinked).Nodup

/-- The counts of transactions stay below those of the branch, which fit into an unsigned int where
there is data. -/
structure TxCounted (params : ChainParams B) (index : List (List B)) (nTx nChainTx : List B → Nat)
    (haveData : List B → Bool) : Prop where
  size : ∀ b∈index, nTx b≤params.vtxSize b
  branch : ∀ b∈index, nChainTx b≤params.branchTxs b
  bounded : ∀ b∈index, haveData b → params.branchTxs b<2^32

namespace BlockIndexState
/-- The active chain has been connected, and nothing on it is marked. -/
structure ActiveChain (params : ChainParams B) (s : BlockIndexState B) : Prop where
  mem : s.tip∈s.index
  clean : Clean params s s.tip
  linked : s.nChainTx s.tip≠0
  scripts : ∀ q, q <:+ s.tip → q.tail≠[] → blockValidScripts ≤ s.valid q

/-- Everything but that no candidate is missing. -/
structure SoundUpTo (params : ChainParams B) (queue : List (List B))
    (s : BlockIndexState B) : Prop where
  tree : IndexTree params s.index s.nHeight s.nChainWork
  recorded : DataRecorded s.index s.nTx s.nChainTx s.nSequenceId s.valid s.haveData s.haveUndo
  links : Links queue s.index s.nTx s.nChainTx s.haveData s.blocksUnlinked
  counted : TxCounted params s.index s.nTx s.nChainTx s.haveData
  skips : SkipIndex.Sound ⟨s.index,s.pskip⟩
  child : ChildMarks s
  failedBlocks : ∀ b∈s.failedBlocks, b∈s.index ∧ s.failedValid b
  active : ActiveChain params s
  candidate_mem : ∀ c∈s.setBlockIndexCandidates, c∈s.index ∧ s.nChainTx c≠0
  candidate_tip : ∀ c∈s.setBlockIndexCandidates, s.sortsWorse params c s.tip=false
  counter : s.nBlockReverseSequenceId<0

/-- An unmarked block is a candidate even where an ancestor is marked. -/
structure ConsistentUpTo (params : ChainParams B) (queue : List (List B))
    (s : BlockIndexState B) : Prop extends SoundUpTo params queue s where
  complete : ∀ b∈s.index, s.nChainTx b≠0 → s.failed b=false →
    s.sortsWorse params b s.tip=false → b∈s.setBlockIndexCandidates

abbrev Sound (params : ChainParams B) (s : BlockIndexState B) : Prop := SoundUpTo params [] s
abbrev Consistent (params : ChainParams B) (s : BlockIndexState B) : Prop :=
  ConsistentUpTo params [] s

lemma SoundUpTo.linked {p : ChainParams B} {s : BlockIndexState B} {b : List B}
    (h : SoundUpTo p [] s) (hb : b∈s.index) :
    s.nChainTx b≠0 ↔ s.nTx b≠0 ∧ (b.tail≠[] → s.nChainTx b.tail≠0) :=
  h.links.linked b hb not_mem_nil

variable {has : List B → Bool}

lemma firstWith_eq_none {b : List B} : firstWith has b=none ↔ ∀ q, q <:+ b → q≠[] →
    has q=false := by
  induction b with
  | nil =>
    refine ⟨fun _ q hq hn => absurd (suffix_nil.mp hq) hn,fun _ => rfl⟩
  | cons x p ih =>
    rw [firstWith]
    constructor
    · intro h q hq hn
      split at h
      · cases h
      · rename_i hp
        split at h
        · cases h
        · rename_i hh
          obtain rfl | hq := suffix_cons_iff.mp hq
          · exact Bool.not_eq_true _ ▸ hh
          · exact ih.mp hp q hq hn
    · intro h
      have hp := ih.mpr (fun q hq hn => h q (hq.trans (suffix_cons x p)) hn)
      simp [hp,h _ suffix_rfl (cons_ne_nil x p)]

lemma firstWith_congr {has' : List B → Bool} {b : List B}
    (h : ∀ q, q <:+ b → q≠[] → has q=has' q) : firstWith has b=firstWith has' b := by
  induction b with
  | nil => rfl
  | cons x p ih =>
    rw [firstWith,firstWith,ih (fun q hq hn => h q (hq.trans (suffix_cons x p)) hn),
      h _ suffix_rfl (cons_ne_nil x p)]

variable {ps : ChainParams B} {s : BlockIndexState B} {b : List B}

lemma isNone_firstWith : (firstWith has b).isNone ↔ ∀ q, q <:+ b → q≠[] → has q=false := by
  rw [Option.isNone_iff_eq_none,firstWith_eq_none]

lemma isSome_firstWith : (firstWith has b).isSome ↔ ∃ q, q <:+ b ∧ q≠[] ∧ has q := by
  rw [Option.isSome_iff_ne_none,Ne,firstWith_eq_none]
  simp

lemma Consistent.linked_iff (h : Consistent ps s) (hb : b∈s.index) :
    s.nChainTx b≠0 ↔ ∀ q, q <:+ b → q≠[] → s.nTx q≠0 := by
  induction b with
  | nil => exact absurd rfl (h.tree.ne_nil hb)
  | cons x p ih =>
    rw [h.linked hb]
    constructor
    · rintro ⟨ht,hpr⟩ q hq hn
      obtain rfl | hq := suffix_cons_iff.mp hq
      · exact ht
      · have hp : p≠[] := by
          rintro rfl
          exact hn (suffix_nil.mp hq)
        exact (ih (h.tree.parent _ hb hp)).mp (hpr hp) q hq hn
    · intro ha
      refine ⟨ha _ suffix_rfl (cons_ne_nil x p),fun hp => ?_⟩
      exact (ih (h.tree.parent _ hb hp)).mpr (fun q hq hn => ha q (hq.trans (suffix_cons x p)) hn)

lemma Consistent.scripts_suffix (h : Consistent ps s) (hb : b∈s.index)
    (hv : blockValidChain ≤ s.valid b)
    {q : List B} (hq : q <:+ b) (hqb : q≠b) (hne : q.tail≠[]) : blockValidScripts ≤ s.valid q := by
  induction b with
  | nil => exact absurd rfl (h.tree.ne_nil hb)
  | cons x p ih =>
    have hqp := tail_suffix_of_ne hq hqb
    have hp : p.tail≠[] := fun hn =>
      hne (suffix_nil.mp (hn ▸ tail_suffix_tail hqp))
    have hs := h.recorded.scripts _ hb hv hp
    by_cases he : q=p
    · subst he
      exact hs
    · have hpn : p≠[] := fun hn => hp (by rw [hn]; rfl)
      exact ih (h.tree.parent _ hb hpn) (Nat.le_of_succ_le hs) hqp he

variable [DecidableEq B]

omit [DecidableEq B] in
lemma Consistent.genesis_nTx (h : Consistent ps s) : s.nTx [ps.genesis]≠0 :=
  (h.linked_iff h.active.mem).mp h.active.linked _ (h.tree.genesis_suffix h.active.mem)
    (cons_ne_nil _ _)

omit [DecidableEq B] in
lemma Consistent.firstNeverProcessed (h : Consistent ps s) (hb : b∈s.index) :
    (s.firstNeverProcessed b).isNone=s.haveTxsDownloaded b := by
  rw [Bool.eq_iff_iff,BlockIndexState.firstNeverProcessed,isNone_firstWith,haveTxsDownloaded,
    bne_iff_ne,h.linked_iff hb]
  simp

omit [DecidableEq B] in
lemma Consistent.firstMissing (h : Consistent ps s) (hb : b∈s.index) :
    s.firstMissing b=s.firstNeverProcessed b := by
  refine firstWith_congr fun q hq hn => ?_
  have hd := h.recorded.data q (h.tree.suffix_mem hb hq hn)
  rw [Bool.eq_iff_iff,Bool.not_eq_true',← Bool.not_eq_true,hd,beq_iff_eq,not_not]

omit [DecidableEq B] in
lemma Consistent.firstNotTransactionsValid (h : Consistent ps s) (hb : b∈s.index) :
    (s.firstBelow blockValidTransactions b).isNone=s.haveTxsDownloaded b := by
  rw [Bool.eq_iff_iff,firstBelow,isNone_firstWith,haveTxsDownloaded,bne_iff_ne,h.linked_iff hb]
  simp only [decide_eq_false_iff_not,not_and,Nat.not_lt]
  refine forall_congr' fun q => ⟨fun hq hs hn => ?_,fun hq hs hn _ => ?_⟩
  · have hm := h.tree.suffix_mem hb hs hn
    by_cases hr : q.tail=[]
    · rw [h.tree.root q hm hr]
      exact h.genesis_nTx
    · exact (h.recorded.transactions q hm).mp (hq hs hn hr)
  · exact (h.recorded.transactions q (h.tree.suffix_mem hb hs hn)).mpr (hq hs hn)

lemma raiseValidity_valid {nut : Nat} (h : s.failed b=false) :
    (s.raiseValidity b nut).valid=Function.update s.valid b (max (s.valid b) nut) := by
  simp only [raiseValidity,h,Bool.false_eq_true,if_false]
  congr 1
  split <;> omega

section
variable (h : Consistent ps s) (hb : b∈s.index)
include h hb

/- The pointer leads to an ancestor, which is in the index at its height. -/
omit [DecidableEq B] in
lemma Consistent.checkSkip :
    decide (b.length-1<2) || decide (s.pskip b≠[] ∧ s.nHeight (s.pskip b)<b.length-1) := by
  by_cases hlow : b.length-1<2
  · simp [hlow]
  · have ht : b.tail≠[] := by
      rw [ne_eq,← length_eq_zero_iff,length_tail]
      omega
    have hlt := getSkipHeight_lt (show 0<b.length-1 by omega)
    have hskip : s.pskip b=b.drop (b.length-1-getSkipHeight (b.length-1)) :=
      (h.skips.skips b hb).trans (if_neg ht)
    have hlen : (s.pskip b).length=getSkipHeight (b.length-1)+1 := by
      rw [hskip,length_drop]
      omega
    have hne : s.pskip b≠[] := ne_nil_of_length_pos (by omega)
    have hmem : s.pskip b∈s.index := h.tree.suffix_mem hb (hskip ▸ drop_suffix _ _) hne
    have hheight := h.tree.height _ hmem
    simp only [hne,ne_eq,not_false_eq_true,true_and,Bool.or_eq_true,decide_eq_true_eq]
    omega

lemma Consistent.checkData : s.checkData b := by
  simp only [BlockIndexState.checkData,Bool.and_eq_true]
  refine ⟨⟨⟨⟨⟨⟨⟨⟨⟨?_,?_⟩,?_⟩,?_⟩,?_⟩,?_⟩,?_⟩,?_⟩,?_⟩,h.checkSkip hb⟩
  · by_cases ht : s.nChainTx b=0
    · simp [h.recorded.sequence b hb ht]
    · simp [haveTxsDownloaded,ht]
  · have hd := h.recorded.data b hb
    rw [beq_iff_eq,Bool.eq_iff_iff,Bool.not_eq_true',← Bool.not_eq_true,hd,beq_iff_eq,not_not]
  · exact decide_eq_true (h.firstMissing hb)
  · have hun := h.recorded.undo b hb
    cases hu : s.haveUndo b with
    | false => rfl
    | true => rw [hun hu]; rfl
  · have ht := h.recorded.transactions b hb
    rw [beq_iff_eq,decide_eq_decide,ht,Nat.pos_iff_ne_zero]
  · exact beq_iff_eq.mpr (h.firstNeverProcessed hb)
  · exact beq_iff_eq.mpr (h.firstNotTransactionsValid hb)
  · exact decide_eq_true (h.tree.height b hb)
  · by_cases hr : b.tail=[]
    · simp [hr]
    · have hw := h.tree.work b hb hr
      simp [hw]

lemma Consistent.firstBelow_isNone {l : Nat}
    (hv : l ≤ s.valid b) (hl : blockValidChain≤l) (hh : l≤blockValidScripts) :
    (s.firstBelow l b).isNone := by
  rw [firstBelow,isNone_firstWith]
  intro q hq _
  rw [decide_eq_false_iff_not]
  rintro ⟨hr,_⟩
  by_cases he : q=b
  · subst he
    omega
  · have hs := h.scripts_suffix hb (hl.trans hv) hq he hr
    omega

lemma Consistent.checkValidity : s.checkValidity b := by
  simp only [BlockIndexState.checkValidity,Bool.and_eq_true,Bool.or_eq_true,decide_eq_true_eq]
  refine ⟨⟨⟨?_,?_⟩,?_⟩,?_⟩
  · rw [firstBelow,isNone_firstWith]
    intro q hq hn
    have ht := h.recorded.treeValid q (h.tree.suffix_mem hb hq hn)
    rw [decide_eq_false_iff_not]
    omega
  · obtain hl | hg := Nat.lt_or_ge (s.valid b) blockValidChain
    · exact Or.inl hl
    · exact Or.inr (h.firstBelow_isNone hb hg (Nat.le_refl 4) (by decide))
  · obtain hl | hg := Nat.lt_or_ge (s.valid b) blockValidScripts
    · exact Or.inl hl
    · exact Or.inr (h.firstBelow_isNone hb hg (by decide) (Nat.le_refl 5))
  · cases hm : s.failed b with
    | false => exact Or.inr rfl
    | true =>
      exact Or.inl (isSome_firstWith.mpr (h.child.exists_failedValid hb (h.tree.ne_nil hb) hm))

lemma Consistent.checkCandidate : s.checkCandidate ps b := by
  rw [BlockIndexState.checkCandidate,h.firstNeverProcessed hb]
  split
  · rename_i hg
    simp only [Bool.and_eq_true,Bool.not_eq_true',haveTxsDownloaded,bne_iff_ne] at hg
    cases hm : s.failed b with
    | false => simp [h.complete b hb hg.2 hm hg.1]
    | true =>
      have hf : (s.firstInvalid b).isSome := isSome_firstWith.mpr
        (h.child.exists_failedValid hb (h.tree.ne_nil hb) hm)
      simp [hf]
  · rename_i hba
    rw [decide_eq_true_eq]
    intro hc
    refine hba ?_
    simp [h.candidate_tip b hc,haveTxsDownloaded,(h.candidate_mem b hc).2]

lemma Consistent.checkUnlinked : s.checkUnlinked b := by
  have hn := h.firstNeverProcessed hb
  have hs : (s.firstNeverProcessed b).isSome=!s.haveTxsDownloaded b := by
    rw [← hn,Option.not_isNone]
  have hm : b∈s.blocksUnlinked ↔ s.haveData b ∧ s.nChainTx b=0 := by
    rw [h.links.unlinked b]
    simp [hb]
  rw [BlockIndexState.checkUnlinked,h.firstMissing hb,hs,hn,haveTxsDownloaded]
  cases hd : s.haveData b <;> by_cases ht : s.nChainTx b=0 <;> simp [hm,hd,ht]
end

lemma Consistent.checkBlockIndex (h : Consistent ps s) : s.checkBlockIndex ps := by
  simp only [BlockIndexState.checkBlockIndex,Bool.and_eq_true,decide_eq_true_eq,all_eq_true]
  refine ⟨⟨?_,h.tree.genesis_suffix h.active.mem⟩,fun b hb => ⟨⟨⟨⟨?_,h.checkData hb⟩,
    h.checkValidity hb⟩,h.checkCandidate hb⟩,h.checkUnlinked hb⟩⟩
  · refine perm_singleton.mp ((perm_ext_iff_of_nodup (h.tree.nodup.filter _)
      (by simp)).mpr fun c => ?_)
    rw [mem_filter,mem_singleton,decide_eq_true_eq]
    refine ⟨fun hc => h.tree.root c hc.1 hc.2,?_⟩
    rintro rfl
    exact ⟨h.tree.genesis,rfl⟩
  · by_cases hr : b.tail=[]
    · exact Or.inl hr
    · exact Or.inr (h.tree.parent b hb hr)

omit [DecidableEq B] in
lemma eligibility_unmarked : Eligibility (fun (s : BlockIndexState B) b => s.failed b=false) where
  antitone := by
    intro s _ b h hva hch
    rw [failed,Bool.or_eq_false_iff] at h ⊢
    refine ⟨?_,?_⟩
    · by_contra hv
      rw [hva b (Bool.not_eq_false _ ▸ hv)] at h
      cases h.1
    · by_contra hc
      rw [hch b (Bool.not_eq_false _ ▸ hc)] at h
      cases h.2
  unmarked _ _ _ _ h := h
  clean _ _ _ hn h := (h _ suffix_rfl hn).1

omit [DecidableEq B] in
lemma Consistent.selecting (h : Consistent ps s) :
    Selecting ps (fun s b => s.failed b=false) s.tip s where
  tree := h.tree
  linked b hb ht := by
    obtain ⟨hn,hp⟩ := (h.linked hb).mp ht
    exact ⟨(h.recorded.data b hb).mpr hn,hp⟩
  child := h.child
  tip_mem := h.active.mem
  tip_clean := h.active.clean
  floor_mem := h.active.mem
  floor_linked := h.active.linked
  floor_clean := h.active.clean
  candidate_mem := h.candidate_mem
  candidate_floor := h.candidate_tip
  complete := h.complete
  tip_floor := Or.inl rfl
end BlockIndexState
end Xero
