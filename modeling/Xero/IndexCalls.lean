import Xero.IndexInvariant

/-! ActivateBestChain, InvalidateBlock, ResetBlockFailureFlags and PreciousBlock keep the
invariant of the block index. -/
namespace Xero
open Library List Function
variable {B : Type} [DecidableEq B]
namespace BlockIndexState
variable {params : ChainParams B} {s s' : BlockIndexState B}

structure Moving (params : ChainParams B) (s : BlockIndexState B) : Prop where
  tree : IndexTree params s.index s.nHeight s.nChainWork
  tip_mem : s.tip∈s.index
  recorded : DataRecorded s.index s.nTx s.nChainTx s.nSequenceId s.valid s.haveData s.haveUndo
  links : Links [] s.index s.nTx s.nChainTx s.haveData s.blocksUnlinked
  counted : TxCounted params s.index s.nTx s.nChainTx s.haveData
  skips : SkipIndex.Sound ⟨s.index,s.pskip⟩
  failedBlocks : ∀ b∈s.failedBlocks, b∈s.index ∧ s.failedValid b
  scripts : ∀ q, q <:+ s.tip → q.tail≠[] → blockValidScripts ≤ s.valid q

lemma Moving.connect (h : Moving params s) {b : List B} (hb : b∈s.index)
    (hti : b.tail=s.tip) (htx : s.nChainTx b≠0) (hm : s.failed b=false) :
    Moving params ((s.tipConnected b).withoutWorse params) := by
  have hm' : {s with haveUndo := update s.haveUndo b true, tip := b}.failed b=false := hm
  have hv : ((s.tipConnected b).withoutWorse params).valid=
      update s.valid b (max (s.valid b) blockValidScripts) := raiseValidity_valid hm'
  have hmo : ∀ q, s.valid q≤update s.valid b (max (s.valid b) blockValidScripts) q := by
    intro q
    by_cases he : q=b
    · rw [he,update_self]
      exact Nat.le_max_left _ _
    · rw [update_of_ne he]
  have hs : blockValidScripts≤ update s.valid b (max (s.valid b) blockValidScripts) b := by
    rw [update_self]
    exact Nat.le_max_right _ _
  have hn := ((h.links.linked b hb not_mem_nil).mp htx).1
  refine ⟨h.tree,hb,?_,h.links,h.counted,h.skips,h.failedBlocks,?_⟩
  · rw [hv]
    refine ⟨h.recorded.data,?_,?_,?_,?_,h.recorded.sequence⟩
    · intro c hc hu
      by_cases he : c=b
      · rw [he]
        exact (h.recorded.data b hb).mpr hn
      · change update s.haveUndo b true c at hu
        rw [update_of_ne he] at hu
        exact h.recorded.undo c hc hu
    · intro c hc
      by_cases he : c=b
      · rw [he]
        exact ⟨fun _ => hn,fun _ => le_trans (by decide) hs⟩
      · rw [update_of_ne he]
        exact h.recorded.transactions c hc
    · exact fun c hc => (h.recorded.treeValid c hc).trans (hmo c)
    · intro c hc hch hg
      refine le_trans ?_ (hmo c.tail)
      by_cases he : c=b
      · rw [he] at hg ⊢
        rw [hti] at hg ⊢
        exact h.scripts s.tip suffix_rfl hg
      · rw [update_of_ne he] at hch
        exact h.recorded.scripts c hc hch hg
  · rw [hv]
    intro q hq hr
    by_cases he : q=b
    · rw [he]
      exact hs
    · have hq' : q <:+ s.tip := hti ▸ tail_suffix_of_ne hq he
      exact (h.scripts q hq' hr).trans (hmo q)

lemma Moving.move (h : Moving params s) (hm : ChainMove params s s') : Moving params s' := by
  cases hm with
  | @drop n t hn hs hne hfl =>
    obtain ⟨_,he⟩ := dropUnusable_eq hs hfl
    rw [he]
    exact ⟨h.tree,h.tip_mem,h.recorded,h.links,h.counted,h.skips,h.failedBlocks,h.scripts⟩
  | disconnect hf hne =>
    exact ⟨h.tree,h.tree.suffix_mem h.tip_mem hf hne,h.recorded,h.links,h.counted,h.skips,
      h.failedBlocks,fun q hq => h.scripts q (hq.trans hf)⟩
  | connect hb hti htx hma _ => exact h.connect hb hti htx hma
  | @reject b f hb _ _ _ _ _ =>
    exact ⟨h.tree,h.tip_mem,h.recorded,h.links,h.counted,h.skips,
      failedBlocks_setFailedValid hb h.failedBlocks,h.scripts⟩

lemma Moving.moves (h : Moving params s) (hm : ChainMoves params s s') : Moving params s' := by
  induction hm with
  | refl => exact h
  | tail _ hl ih => exact ih.move hl

omit [DecidableEq B] in
lemma Consistent.moving (h : Consistent params s) : Moving params s :=
  ⟨h.tree,h.active.mem,h.recorded,h.links,h.counted,h.skips,h.failedBlocks,h.active.scripts⟩

lemma Consistent.activate (h : Consistent params s) {f : Nat}
    (hr : s.activateBestChain params f=some s') : Consistent params s' := by
  obtain ⟨hm,hs',_⟩ := h.selecting.activateBestChain eligibility_unmarked hr
  have hs := (h.selecting.moves eligibility_unmarked hm).1
  have hm' := h.moving.moves hm
  exact {
    tree := hm'.tree
    recorded := hm'.recorded
    links := hm'.links
    counted := hm'.counted
    skips := hm'.skips
    child := hs'.child
    failedBlocks := hm'.failedBlocks
    active := ⟨hs'.tip_mem,hs'.tip_clean,hs'.floor_linked,hm'.scripts⟩
    candidate_mem := hs'.candidate_mem
    candidate_tip := hs'.candidate_floor
    complete := hs'.complete
    counter := by
      rw [hs.nBlockReverseSequenceId]
      exact h.counter}

section
variable {b c : List B}

lemma failed_of_reset (h : (s.resetBlockFailureFlags params b).failed c) :
    s.failed c ∧ s.resetByDescent b c=false := by
  simp only [resetBlockFailureFlags,failed,Bool.or_eq_true,Bool.and_eq_true,
      Bool.not_eq_true'] at h ⊢
  obtain h | h := h
  · exact ⟨.inl h.1.1,h.1.2⟩
  · exact ⟨.inr h.1.1,h.1.2⟩

lemma mem_reset_candidates : c∈(s.resetBlockFailureFlags params b).setBlockIndexCandidates ↔
      c∈s.setBlockIndexCandidates ∨ c∈s.index ∧ s.resetByDescent b c ∧
        blockValidTransactions ≤ s.valid c ∧ s.nChainTx c≠0 ∧ s.sortsWorse params s.tip c := by
  simp only [resetBlockFailureFlags,mem_union_iff,mem_filter,Bool.and_eq_true,
    decide_eq_true_eq,haveTxsDownloaded,bne_iff_ne,and_assoc]

lemma resetByDescent_of_suffix (hc : c∈s.index) (hbc : b <:+ c) (hm : s.failed c) :
    s.resetByDescent b c := by
  simp [resetByDescent,isValid,hc,hbc,hm]

/- Where no ancestor of `b` is marked, the second loop clears nothing. -/
lemma reset_marks (params : ChainParams B) (ha : ∀ a, a <:+ b → a≠b → a≠[] → s.failed a=false)
    (hc : c∈s.index) (hn : c≠[]) (hm : s.failed c) (hk : s.resetByDescent b c=false) :
    (s.resetBlockFailureFlags params b).failedValid c=s.failedValid c ∧
      (s.resetBlockFailureFlags params b).failedChild c=s.failedChild c := by
  have ho : ¬c <:+ b := by
    intro hcb
    by_cases he : c=b
    · subst he
      rw [resetByDescent_of_suffix hc suffix_rfl hm] at hk
      cases hk
    · rw [ha c hcb he hn] at hm
      cases hm
  simp [resetBlockFailureFlags,hk,ho]

lemma Consistent.reset (h : Consistent params s)
    (han : ∀ a, a <:+ b → a≠b → a≠[] → s.failed a=false) :
    Consistent params (s.resetBlockFailureFlags params b) where
  tree := h.tree
  recorded := h.recorded
  links := h.links
  counted := h.counted
  skips := h.skips
  child := by
    intro c hme hci
    have hc : c∈s.index := hme
    obtain ⟨hm,hk⟩ := failed_of_reset (Bool.or_eq_true_iff.mpr (.inr hci))
    have hci' : s.failedChild c := by
      rw [← (reset_marks params han hc (h.tree.ne_nil hc) hm hk).2]
      exact hci
    obtain ⟨a,hac,hne,hv⟩ := h.child c hc hci'
    have ha := h.tree.suffix_mem hc hac hne
    have hma : s.failed a := by rw [failed,hv,Bool.true_or]
    have hke : s.resetByDescent b a=false := by
      by_contra hra
      simp only [resetByDescent,Bool.not_eq_false,Bool.and_eq_true,decide_eq_true_eq] at hra
      rw [resetByDescent_of_suffix hc (hra.2.trans hac) hm] at hk
      cases hk
    refine ⟨a,hac,hne,?_⟩
    rw [(reset_marks params han ha hne hma hke).1]
    exact hv
  failedBlocks := by
    intro c hc
    simp only [resetBlockFailureFlags,mem_filter,Bool.not_eq_true'] at hc
    obtain ⟨hme,hv⟩ := h.failedBlocks c hc.1.1
    have hm : s.failed c := by rw [failed,hv,Bool.true_or]
    refine ⟨hme,?_⟩
    rw [(reset_marks params han hme (h.tree.ne_nil hme) hm hc.1.2).1]
    exact hv
  active := by
    refine ⟨h.active.mem,fun q hq hne => ⟨?_,(h.active.clean q hq hne).2⟩,h.active.linked,
      h.active.scripts⟩
    by_contra hm
    have ho := (failed_of_reset (Bool.not_eq_false _ ▸ hm)).1
    rw [(h.active.clean q hq hne).1] at ho
    cases ho
  candidate_mem := by
    intro c hc
    obtain hc | ⟨hme,_,_,htx,_⟩ := mem_reset_candidates.mp hc
    · exact h.candidate_mem c hc
    · exact ⟨hme,htx⟩
  candidate_tip := by
    intro c hc
    obtain hc | ⟨_,_,_,_,hw⟩ := mem_reset_candidates.mp hc
    · exact h.candidate_tip c hc
    · exact (sortsWorse_ranking params s).asymm hw
  complete := by
    intro c hc htx hu hw
    refine mem_reset_candidates.mpr ?_
    cases hm : s.failed c with
    | false => exact .inl (h.complete c hc htx hm hw)
    | true =>
      have hne := h.tree.ne_nil hc
      have hr : s.resetByDescent b c := by
        by_contra hk
        obtain ⟨hv,hch⟩ := reset_marks params han hc hne hm (Bool.not_eq_true _ ▸ hk)
        rw [failed,hv,hch,← failed,hm] at hu
        cases hu
      have hti : c≠s.tip := by
        rintro rfl
        rw [(h.active.clean _ suffix_rfl hne).1] at hm
        cases hm
      have hn := ((h.linked hc).mp htx).1
      exact .inr ⟨hc,hr,(h.recorded.transactions c hc).mpr hn,htx,
        (sortsWorse_ranking params s).worse_of_not_worse hti hw⟩
  counter := h.counter
end
section
variable {b toMarkFailed : List B} (bw : List (List B))

/- The block to mark is either still in the active chain or was its last block a round ago. -/
def MarkedLast (b tip toMarkFailed : List B) : Prop :=
  toMarkFailed=b ∨ toMarkFailed.tail=tip ∧ toMarkFailed≠[]

/-- The mark of the block disconnected before is never turned into BLOCK_FAILED_CHILD: the
walk goes down, so that block is not the parent of the next one. -/
lemma invalidateTip_marks (hc : Clean params s s.tip) (hb : b <:+ s.tip) (hn : b≠[])
    (hl : MarkedLast b s.tip toMarkFailed) :
    (s.invalidateTip params bw toMarkFailed).failedValid=(s.setFailedValid s.tip).failedValid ∧
      (s.invalidateTip params bw toMarkFailed).failedChild=s.failedChild := by
  have hd : ¬(s.tip.tail=toMarkFailed ∧ (s.setFailedValid s.tip).failedValid toMarkFailed) := by
    rintro ⟨ht,hv⟩
    have hln := congrArg length ht
    have hp := length_pos_iff.mpr hn
    have hle := hb.length_le
    rw [length_tail] at hln
    obtain rfl | ⟨hl,_⟩ := hl
    · obtain he | hv := failedValid_setFailedValid.mp hv
      · rw [he] at hln hp
        omega
      · have hm := (hc _ hb hn).1
        rw [failed,hv] at hm
        cases hm
    · have hln' := congrArg length hl
      rw [length_tail] at hln'
      omega
  exact ⟨if_neg hd,if_neg hd⟩

variable {bw}

lemma mem_invalidateTip_candidates {c : List B} :
    c∈(s.invalidateTip params bw toMarkFailed).setBlockIndexCandidates ↔
      (c=s.tip.tail ∨ c∈s.setBlockIndexCandidates ∧ c≠s.tip) ∨
        c∈bw ∧ s.sortsWorse params c s.tip.tail=false := by
  simp [invalidateTip]

lemma SoundUpTo.invalidateTip (h : Sound params s) (hb : b <:+ s.tip) (hro : b.tail≠[])
    (hl : MarkedLast b s.tip toMarkFailed) (hby : ∀ c∈bw, c∈s.index ∧ s.nChainTx c≠0) :
    Sound params (s.invalidateTip params bw toMarkFailed) := by
  have hne : b≠[] := by
    rintro rfl
    exact hro rfl
  have ht : s.tip.tail≠[] := fun hn =>
    hro (suffix_nil.mp (hn ▸ tail_suffix_tail hb))
  have hta : s.tip.tail≠s.tip := fun he => by
    have hle := congrArg length he
    have hp := length_pos_iff.mpr (h.tree.ne_nil h.active.mem)
    rw [length_tail] at hle
    omega
  have htai := h.tree.parent s.tip h.active.mem ht
  have hti := ((h.linked h.active.mem).mp h.active.linked).2 ht
  have htl : s.sortsWorse params s.tip.tail s.tip := sortsWorse_of_work_lt
      (h.tree.work_lt h.active.mem (tail_suffix s.tip) ht hta)
  obtain ⟨hva,hch⟩ := invalidateTip_marks bw h.active.clean hb hne hl
  have hbl : ∀ q, q <:+ s.tip.tail → q≠s.tip := by
    rintro q hq rfl
    exact hta ((tail_suffix _).eq_of_length_le hq.length_le)
  exact {
    tree := h.tree
    recorded := h.recorded
    links := h.links
    counted := h.counted
    skips := h.skips
    child := by
      intro c hc hm
      rw [hch] at hm
      rw [hva]
      exact h.child.setFailedValid s.tip c hc hm
    failedBlocks := by
      intro c hc
      obtain ⟨hme,hv⟩ := h.failedBlocks c hc
      rw [hva]
      exact ⟨hme,failedValid_setFailedValid.mpr (.inr hv)⟩
    active := by
      refine ⟨htai,fun q hq hqn => ⟨?_,?_⟩,hti,fun q hq =>
        h.active.scripts q (hq.trans (tail_suffix s.tip))⟩
      · rw [failed,hva,hch]
        exact (failed_setFailedValid (hbl q hq)).trans
          (h.active.clean q (hq.trans (tail_suffix s.tip)) hqn).1
      · exact (h.active.clean q (hq.trans (tail_suffix s.tip)) hqn).2
    candidate_mem := by
      intro c hc
      obtain (rfl | hc) | hc := mem_invalidateTip_candidates.mp hc
      · exact ⟨htai,hti⟩
      · exact h.candidate_mem c hc.1
      · exact hby c hc.1
    candidate_tip := by
      intro c hc
      have hr := sortsWorse_ranking params s
      obtain (rfl | hc) | hc := mem_invalidateTip_candidates.mp hc
      · exact hr.irrefl s.tip.tail
      · exact hr.not_worse_trans (h.candidate_tip c hc.1) (hr.asymm htl)
      · exact hc.2
    counter := h.counter}

lemma SoundUpTo.invalidateLoop {l : List B} (h : Sound params s) (hl : s.tip=l)
    (hr : b.tail≠[]) (hla : MarkedLast b l toMarkFailed) (hb : b <:+ l ∨ toMarkFailed=b)
    (hby : ∀ c∈bw, c∈s.index ∧ s.nChainTx c≠0) :
    (invalidateLoop params bw b l toMarkFailed s).1=b ∧
      Sound params (invalidateLoop params bw b l toMarkFailed s).2 ∧
      ¬b <:+ (invalidateLoop params bw b l toMarkFailed s).2.tip ∧
      (invalidateLoop params bw b l toMarkFailed s).2.index=s.index := by
  induction l generalizing s toMarkFailed with
  | nil => exact absurd hl (h.tree.ne_nil h.active.mem)
  | cons x p ih =>
    rw [invalidateLoop]
    split
    · rename_i ha
      have hs := h.invalidateTip (hl ▸ ha) hr (hl ▸ hla) hby
      have hti : (s.invalidateTip params bw toMarkFailed).tip=p := by
        change s.tip.tail=p
        rw [hl,tail_cons]
      refine ih hs hti (.inr ⟨rfl,cons_ne_nil x p⟩) ?_ hby
      obtain rfl | hp := suffix_cons_iff.mp ha
      · exact .inr rfl
      · exact .inl hp
    · rename_i ho
      obtain hb | rfl := hb
      · exact absurd hb ho
      · exact ⟨rfl,h,hl ▸ ho,rfl⟩

lemma SoundUpTo.markInvalid (h : Sound params s) (hb : b∈s.index) (ho : ¬b <:+ s.tip) :
    Consistent params (s.markInvalid params b) where
  tree := h.tree
  recorded := h.recorded
  links := h.links
  counted := h.counted
  skips := h.skips
  child := h.child.setFailedValid b
  failedBlocks := failedBlocks_setFailedValid hb h.failedBlocks
  active := by
    refine ⟨h.active.mem,?_,h.active.linked,h.active.scripts⟩
    refine h.active.clean.of_marks fun q hq _ => failed_setFailedValid ?_
    rintro rfl
    exact ho hq
  candidate_mem := by
    intro c hc
    obtain hc | hc := mem_union_iff.mp hc
    · exact h.candidate_mem c (mem_of_mem_filter hc)
    · simp only [mem_filter,Bool.and_eq_true,haveTxsDownloaded,bne_iff_ne] at hc
      exact ⟨hc.1,hc.2.1.2⟩
  candidate_tip := by
    intro c hc
    obtain hc | hc := mem_union_iff.mp hc
    · exact h.candidate_tip c (mem_of_mem_filter hc)
    · simp only [mem_filter,Bool.and_eq_true,Bool.not_eq_true'] at hc
      exact hc.2.2
  complete := by
    intro c hm htx hu hw
    have hc : c∈s.index := hm
    have hn := ((h.linked hc).mp htx).1
    have hv : (s.setFailedValid b).isValid c blockValidTransactions := by
      have hu' : (s.setFailedValid b).failed c=false := hu
      have hl : blockValidTransactions≤(s.setFailedValid b).valid c :=
        (h.recorded.transactions c hc).mpr hn
      simp [isValid,hu',hl]
    have htx' : s.nChainTx c≠0 := htx
    have hw' : s.sortsWorse params c s.tip=false := hw
    refine mem_union_iff.mpr (.inr (mem_filter.mpr ⟨hc,?_⟩))
    simp [hv,haveTxsDownloaded,htx',hw']
  counter := h.counter

lemma Consistent.invalidate (h : Consistent params s) (hb : b∈s.index) :
    Consistent params (s.invalidateBlock params b) := by
  rw [invalidateBlock]
  split
  · exact h
  · rename_i hht
    have hr : b.tail≠[] := by
      intro hn
      have hh := h.tree.height b hb
      rw [h.tree.root b hb hn] at hh hht
      simp only [length_cons,length_nil] at hh
      omega
    have hby : ∀ c∈s.candidateBlocksByWork params b, c∈s.index ∧ s.nChainTx c≠0 := by
      intro c hc
      simp only [candidateBlocksByWork,mem_filter,Bool.and_eq_true,haveTxsDownloaded,
          bne_iff_ne] at hc
      exact ⟨hc.1,hc.2.2⟩
    obtain ⟨hm,hs,ho,hi⟩ := h.toSoundUpTo.invalidateLoop rfl hr (.inl rfl) (.inr rfl) hby
    split
    rename_i toMarkFailed s' hl
    rw [hl] at hm hs ho hi
    cases hm
    rw [if_neg ho]
    exact hs.markInvalid (hi ▸ hb) ho
end
section
variable {b c : List B}

omit [DecidableEq B] in
lemma SoundUpTo.preciousSequenceId_neg (h : Sound params s) : s.preciousSequenceId<0 := by
  rw [preciousSequenceId]
  split
  · decide
  · exact h.counter

/- A block other than `b` compares with the tip as before, or worse when `b` is the tip. -/
lemma sortsWorse_of_withPreciousId (hti : b=s.tip → s.preciousSequenceId ≤ s.nSequenceId s.tip)
    (hc : c≠b)
    (h : (s.withPreciousId b).sortsWorse params c s.tip=false) :
    s.sortsWorse params c s.tip=false := by
  rw [← Bool.not_eq_true] at h ⊢
  refine fun hw => h ?_
  have hw' := workComparator_eq_true.mp hw
  have hl : (s.withPreciousId b).nSequenceId s.tip ≤ s.nSequenceId s.tip := by
    change update s.nSequenceId b s.preciousSequenceId s.tip≤_
    by_cases he : s.tip=b
    · rw [he,update_self,← he]
      exact hti he.symm
    · exact Int.le_of_eq (update_of_ne he _ _)
  have hs : (s.withPreciousId b).nSequenceId c=s.nSequenceId c := by
    change update s.nSequenceId b s.preciousSequenceId c=_
    rw [update_of_ne hc]
  refine workComparator_eq_true.mpr ?_
  change s.nChainWork c < s.nChainWork s.tip ∨ s.nChainWork c=s.nChainWork s.tip ∧ _
  omega

lemma sortsWorse_withPreciousId (hb : s.tip≠b) (hc : c≠b) :
    (s.withPreciousId b).sortsWorse params c s.tip=s.sortsWorse params c s.tip := by
  simp only [sortsWorse,workComparator,withPreciousId,update_of_ne hb,update_of_ne hc]

lemma Consistent.withPreciousId (h : Consistent params s) {cs : List (List B)}
    (hti : b=s.tip → s.preciousSequenceId ≤ s.nSequenceId s.tip)
    (ho : ∀ c∈cs, c∈s.index ∧ s.nChainTx c≠0 ∧
      (s.withPreciousId b).sortsWorse params c s.tip=false)
    (hn : ∀ c∈s.setBlockIndexCandidates, c≠b →
      (s.withPreciousId b).sortsWorse params c s.tip=false → c∈cs)
    (hb : s.nChainTx b≠0 → s.failed b=false →
      (s.withPreciousId b).sortsWorse params b s.tip=false → b∈cs) :
    Consistent params {s.withPreciousId b with setBlockIndexCandidates := cs} where
  tree := h.tree
  recorded := by
    refine ⟨h.recorded.data,h.recorded.undo,h.recorded.transactions,
      h.recorded.treeValid,h.recorded.scripts,fun c hc htx => ?_⟩
    change update s.nSequenceId b s.preciousSequenceId c≤0
    by_cases he : c=b
    · have hne := h.preciousSequenceId_neg
      rw [he,update_self]
      omega
    · rw [update_of_ne he]
      exact h.recorded.sequence c hc htx
  links := h.links
  counted := h.counted
  skips := h.skips
  child := h.child
  failedBlocks := h.failedBlocks
  active := ⟨h.active.mem,h.active.clean,h.active.linked,h.active.scripts⟩
  candidate_mem := fun c hc => ⟨(ho c hc).1,(ho c hc).2.1⟩
  candidate_tip := fun c hc => (ho c hc).2.2
  complete := by
    intro c hc htx hu hw
    by_cases he : c=b
    · subst he
      exact hb htx hu hw
    · exact hn c (h.complete c hc htx hu (sortsWorse_of_withPreciousId hti he hw)) he hw
  counter := by
    have hne := h.preciousSequenceId_neg
    simp only [BlockIndexState.withPreciousId]
    split <;> omega

section
variable (h : Consistent params s) (hb : b∈s.index)
    (ht : b=s.tip → s.preciousSequenceId ≤ s.nSequenceId s.tip)
include h hb ht

/-- PreciousBlock keeps the invariant up to the activation, unless it makes the tip sort
worse. -/
lemma Consistent.makePrecious : ∃ s', s.makePrecious params b=some s' ∧ Consistent params s' := by
  have hl : s.nChainTx b≠0 → blockValidTransactions ≤ s.valid b := fun htx =>
    (h.recorded.transactions b hb).mpr ((h.linked hb).mp htx).1
  have hr : (((s.eraseCandidate b).withPreciousId b).isValid b blockValidTransactions &&
      ((s.eraseCandidate b).withPreciousId b).haveTxsDownloaded b) ↔
      s.failed b=false ∧ s.nChainTx b≠0 := by
    change (!s.failed b && decide (blockValidTransactions ≤ s.valid b) && (s.nChainTx b != 0)) ↔ _
    simp only [Bool.and_eq_true,Bool.not_eq_true',decide_eq_true_eq,bne_iff_ne]
    exact ⟨fun hv => ⟨hv.1.1,hv.2⟩,fun hv => ⟨⟨hv.1,hl hv.2⟩,hv.2⟩⟩
  by_cases hca : s.failed b=false ∧ s.nChainTx b≠0
  · have hk : ∀ c, c∈((((s.eraseCandidate b).withPreciousId b).insertCandidate b).withoutWorse
        params).setBlockIndexCandidates ↔ (c=b ∨ c∈s.setBlockIndexCandidates ∧ c≠b) ∧
          (s.withPreciousId b).sortsWorse params c s.tip=false := by
      intro c
      rw [withoutWorse,mem_filter,Bool.not_eq_true']
      change (c∈(s.setBlockIndexCandidates.filter _).insert b ∧ _) ↔ _
      rw [mem_insert_iff,mem_filter,Bool.not_eq_true',decide_eq_false_iff_not]
      rfl
    have hco : Consistent params
        ((((s.eraseCandidate b).withPreciousId b).insertCandidate b).withoutWorse params) := by
      refine h.withPreciousId ht ?_ ?_ ?_
      · intro c hc
        obtain ⟨hc,hw⟩ := (hk c).mp hc
        obtain rfl | hc := hc
        · exact ⟨hb,hca.2,hw⟩
        · exact ⟨(h.candidate_mem c hc.1).1,(h.candidate_mem c hc.1).2,hw⟩
      · exact fun c hc hn hw => (hk c).mpr ⟨.inr ⟨hc,hn⟩,hw⟩
      · exact fun _ _ hw => (hk b).mpr ⟨.inl rfl,hw⟩
    have hn := hco.complete _ hco.active.mem hco.active.linked
      (hco.active.clean _ suffix_rfl (hco.tree.ne_nil hco.active.mem)).1
      ((sortsWorse_ranking params _).irrefl _)
    refine ⟨_,?_,hco⟩
    simp only [BlockIndexState.makePrecious]
    rw [if_pos (hr.mpr hca),pruneBlockIndexCandidates,if_neg (ne_nil_of_mem hn)]
  · have hbt : s.tip≠b := by
      rintro rfl
      exact hca ⟨(h.active.clean _ suffix_rfl (h.tree.ne_nil hb)).1,h.active.linked⟩
    refine ⟨(s.eraseCandidate b).withPreciousId b,?_,?_⟩
    · simp only [BlockIndexState.makePrecious]
      rw [if_neg (fun hv => hca (hr.mp hv))]
    · refine h.withPreciousId ht ?_ ?_ ?_
      · intro c hc
        obtain ⟨hc,hn⟩ := mem_filter.mp hc
        rw [Bool.not_eq_true',decide_eq_false_iff_not] at hn
        rw [sortsWorse_withPreciousId hbt hn]
        exact ⟨(h.candidate_mem c hc).1,(h.candidate_mem c hc).2,h.candidate_tip c hc⟩
      · exact fun c hc hn _ => mem_filter.mpr ⟨hc,by simp [hn]⟩
      · exact fun htx hu _ => absurd ⟨hu,htx⟩ hca

lemma Consistent.precious {f : Nat} (hr : s.preciousBlock params f b=some s') :
    Consistent params s' := by
  rw [preciousBlock] at hr
  split at hr
  · cases hr
    exact h
  · obtain ⟨_,hs1,hc⟩ := h.makePrecious hb ht
    rw [hs1] at hr
    exact hc.activate hr
end
end
end BlockIndexState
end Xero
