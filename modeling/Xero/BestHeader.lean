import Xero.BestChain

/-! m_best_header over runs of header arrivals, failed connections, invalidations and
reconsiderations, and what each needs for it to stay the best header. -/
namespace Xero
open Library List Function Option
variable {B : Type} [DecidableEq B]
attribute [local instance] lawfulBEq_path
namespace BlockIndexState
/-- The best header does not descend from a block found invalid, and has the most work among
such entries. -/
structure BestHeader (s : BlockIndexState B) : Prop where
  mem : s.bestHeader∈s.index
  unblamed : Unblamed s s.bestHeader
  most : ∀ c∈s.index, Unblamed s c → s.nChainWork c ≤ s.nChainWork s.bestHeader

structure HeaderTree (params : ChainParams B) (s : BlockIndexState B) : Prop where
  tree : IndexTree params s.index s.nHeight s.nChainWork
  tip_mem : s.tip∈s.index
  tip_clean : Clean params s s.tip
  failedBlocks : ∀ b∈s.failedBlocks, b∈s.index ∧ s.failedValid b

structure SameHeaders (s s' : BlockIndexState B) : Prop where
  index : s'.index=s.index
  nHeight : s'.nHeight=s.nHeight
  nChainWork : s'.nChainWork=s.nChainWork
  failedValid : s'.failedValid=s.failedValid
  failedBlocks : s'.failedBlocks=s.failedBlocks
  bestHeader : s'.bestHeader=s.bestHeader

variable {params : ChainParams B} {s s' : BlockIndexState B} {b c : List B}

omit [DecidableEq B] in
lemma SameHeaders.unblamed (h : SameHeaders s s') : Unblamed s' c ↔ Unblamed s c := by
  rw [Unblamed,Unblamed,h.failedValid]

omit [DecidableEq B] in
lemma SameHeaders.bestHeader_iff (h : SameHeaders s s') : BestHeader s' ↔ BestHeader s := by
  constructor
  · rintro ⟨hme,hu,hm⟩
    rw [h.index,h.bestHeader] at hme
    rw [h.bestHeader,h.unblamed] at hu
    rw [h.index,h.nChainWork,h.bestHeader] at hm
    exact ⟨hme,hu,fun c hc hcu => hm c hc (h.unblamed.mpr hcu)⟩
  · rintro ⟨hme,hu,hm⟩
    refine ⟨?_,?_,?_⟩
    · rw [h.index,h.bestHeader]
      exact hme
    · rw [h.bestHeader]
      exact h.unblamed.mpr hu
    · rw [h.index,h.nChainWork,h.bestHeader]
      exact fun c hc hcu => hm c hc (h.unblamed.mp hcu)

omit [DecidableEq B] in
lemma HeaderTree.of_sameHeaders (h : HeaderTree params s) (hs : SameHeaders s s')
    (ht : s'.tip∈s.index) (hc : Clean params s' s'.tip) : HeaderTree params s' where
  tree := by
    rw [hs.index,hs.nHeight,hs.nChainWork]
    exact h.tree
  tip_mem := by
    rw [hs.index]
    exact ht
  tip_clean := hc
  failedBlocks := by
    rw [hs.failedBlocks,hs.failedValid,hs.index]
    exact h.failedBlocks

omit [DecidableEq B] in
lemma HeaderTree.tip_unblamed (h : HeaderTree params s) : Unblamed s s.tip :=
  eligibility_unblamed.clean params s s.tip (h.tree.ne_nil h.tip_mem) h.tip_clean

/-- What marking blocks at and above `b` does: a best header above `b` falls back to the tip. -/
structure MarkedFrom (b : List B) (s s' : BlockIndexState B) : Prop where
  index : s'.index=s.index
  nChainWork : s'.nChainWork=s.nChainWork
  unblamed : ∀ c, Unblamed s' c ↔ Unblamed s c ∧ ¬b <:+ c
  bestHeader : s'.bestHeader=if b <:+ s.bestHeader then s'.tip else s.bestHeader

/-- The fall back is right exactly when nothing outside the marked branch beats the tip. -/
lemma BestHeader.marked_iff (h : BestHeader s) (hm : MarkedFrom b s s') (ht : s'.tip∈s.index)
    (hu : Unblamed s' s'.tip) :
    BestHeader s' ↔ (b <:+ s.bestHeader → ∀ c∈s.index, Unblamed s c → ¬b <:+ c →
      s.nChainWork c ≤ s.nChainWork s'.tip) := by
  by_cases hb : b <:+ s.bestHeader
  · have hbe : s'.bestHeader=s'.tip := by rw [hm.bestHeader,if_pos hb]
    constructor
    · intro h' _ c hc hcu hbc
      rw [← hm.nChainWork,← hbe]
      exact h'.most c (hm.index ▸ hc) ((hm.unblamed c).mpr ⟨hcu,hbc⟩)
    · intro hmo
      refine ⟨?_,?_,?_⟩
      · rw [hbe,hm.index]
        exact ht
      · rw [hbe]
        exact hu
      · intro c hc hcu
        obtain ⟨hcu,hbc⟩ := (hm.unblamed c).mp hcu
        rw [hbe,hm.nChainWork]
        exact hmo hb c (hm.index ▸ hc) hcu hbc
  · have hbe : s'.bestHeader=s.bestHeader := by rw [hm.bestHeader,if_neg hb]
    refine ⟨fun _ hb' => absurd hb' hb,fun _ => ⟨?_,?_,?_⟩⟩
    · rw [hbe,hm.index]
      exact h.mem
    · rw [hbe]
      exact (hm.unblamed _).mpr ⟨h.unblamed,hb⟩
    · intro c hc hcu
      rw [hbe,hm.nChainWork]
      exact h.most c (hm.index ▸ hc) ((hm.unblamed c).mp hcu).1

omit [DecidableEq B] in
lemma unblamed_iff_of_marks (hne : b≠[]) (hb : s'.failedValid b)
    (hk : ∀ q, s.failedValid q → s'.failedValid q)
    (hn : ∀ q, s'.failedValid q → s.failedValid q ∨ b <:+ q) (c : List B) :
    Unblamed s' c ↔ Unblamed s c ∧ ¬b <:+ c := by
  constructor
  · rintro ⟨hc,hu⟩
    refine ⟨⟨hc,fun q hq hqn => ?_⟩,fun hbc => ?_⟩
    · by_contra hv
      have hv' := hk q (Bool.not_eq_false _ ▸ hv)
      rw [hu q hq hqn] at hv'
      cases hv'
    · rw [hu b hbc hne] at hb
      cases hb
  · rintro ⟨⟨hc,hu⟩,hbc⟩
    refine ⟨hc,fun q hq hqn => ?_⟩
    by_contra hv
    obtain hv | hbq := hn q (Bool.not_eq_false _ ▸ hv)
    · rw [hu q hq hqn] at hv
      cases hv
    · exact hbc (hbq.trans hq)

/-! Failed connections. -/

lemma connectionFailed_marked (ht : b.tail=s.tip) (hn : b≠[]) {f : List B}
    (hfr : b <:+ f) : MarkedFrom b s ((s.invalidBlockFound b).invalidChainFound f) := by
  have hs : ¬b <:+ s.tip := by
    intro hb
    have hl := hb.length_le
    have hp := length_pos_iff.mpr hn
    rw [← ht,length_tail] at hl
    omega
  refine ⟨rfl,rfl,unblamed_iff_of_marks hn ?_ ?_ ?_,?_⟩
  · exact failedValid_setFailedValid.mpr (.inl rfl)
  · exact fun q hq => failedValid_setFailedValid.mpr (.inr hq)
  · intro q hq
    obtain rfl | hv := failedValid_setFailedValid.mp hq
    · exact .inr suffix_rfl
    · exact .inl hv
  · -- the second InvalidChainFound finds the best header already moved
    change (if f <:+ (if b <:+ s.bestHeader then s.tip else s.bestHeader) then s.tip
      else if b <:+ s.bestHeader then s.tip else s.bestHeader)=_
    by_cases hb : b <:+ s.bestHeader
    · simp only [if_pos hb]
      split <;> rfl
    · simp only [if_neg hb]
      rw [if_neg fun hf => hb (hfr.trans hf)]

/-! InvalidateBlock. -/

/-- The loop of InvalidateBlock on an active chain without marks. -/
structure Disconnected (params : ChainParams B) (b : List B) (s s' : BlockIndexState B) : Prop where
  index : s'.index=s.index
  nHeight : s'.nHeight=s.nHeight
  nChainWork : s'.nChainWork=s.nChainWork
  failedBlocks : s'.failedBlocks=s.failedBlocks
  bestHeader : s'.bestHeader=s.bestHeader
  tip : s'.tip=if b <:+ s.tip then b.tail else s.tip
  clean : Clean params s' s'.tip
  kept : ∀ q, s.failedValid q → s'.failedValid q
  marked : ∀ q, s'.failedValid q → s.failedValid q ∨ b <:+ q

lemma invalidateLoop_disconnected (bw : List (List B)) {tmf l : List B} (hc : Clean params s s.tip)
    (hl : s.tip=l) (hn : b≠[]) (hla : MarkedLast b l tmf) (hb : b <:+ l ∨ tmf=b) :
    (invalidateLoop params bw b l tmf s).1=b ∧
      Disconnected params b s (invalidateLoop params bw b l tmf s).2 := by
  induction l generalizing s tmf with
  | nil =>
    have ho : ¬b <:+ [] := fun h => hn (suffix_nil.mp h)
    exact ⟨hb.resolve_left ho,rfl,rfl,rfl,rfl,rfl,(if_neg (hl ▸ ho)).symm,hc,
      fun _ hq => hq,fun _ hq => .inl hq⟩
  | cons x p ih =>
    rw [invalidateLoop]
    split
    · rename_i ha
      obtain ⟨hva,hch⟩ := invalidateTip_marks bw hc (hl ▸ ha) hn (hl ▸ hla)
      have ht : (s.invalidateTip params bw tmf).tip=p := by
        change s.tip.tail=p
        rw [hl,tail_cons]
      have hc' : Clean params (s.invalidateTip params bw tmf)
          (s.invalidateTip params bw tmf).tip := by
        rw [ht]
        refine (hc.suffix (hl ▸ suffix_cons x p)).of_marks fun q hq _ => ?_
        rw [failed,hva,hch]
        refine failed_setFailedValid ?_
        rintro rfl
        have hle := hq.length_le
        rw [hl,length_cons] at hle
        omega
      have hs : b <:+ p ∨ x::p=b := by
        obtain rfl | hp := suffix_cons_iff.mp ha
        · exact .inr rfl
        · exact .inl hp
      obtain ⟨hm,hd⟩ := ih hc' ht (.inr ⟨rfl,cons_ne_nil x p⟩) hs
      refine ⟨hm,hd.index,hd.nHeight,hd.nChainWork,hd.failedBlocks,hd.bestHeader,?_,hd.clean,
        fun q hq => hd.kept q ?_,fun q hq => ?_⟩
      · have hst : b <:+ s.tip := hl ▸ ha
        rw [hd.tip,ht]
        split
        · rfl
        · rename_i ho
          rw [← hs.resolve_left ho,tail_cons]
      · rw [hva]
        exact failedValid_setFailedValid.mpr (.inr hq)
      · obtain hv | hbq := hd.marked q hq
        · rw [hva] at hv
          obtain rfl | hv := failedValid_setFailedValid.mp hv
          · exact .inr (hl ▸ ha)
          · exact .inl hv
        · exact .inr hbq
    · rename_i ho
      obtain hb | rfl := hb
      · exact absurd hb ho
      · exact ⟨rfl,rfl,rfl,rfl,rfl,rfl,(if_neg (hl ▸ ho)).symm,hc,fun _ hq =>
            hq,fun _ hq => .inl hq⟩

lemma HeaderTree.invalidateBlock (h : HeaderTree params s) (hb : b∈s.index) (hht : s.nHeight b≠0) :
    HeaderTree params (s.invalidateBlock params b) ∧
      MarkedFrom b s (s.invalidateBlock params b) ∧
      (s.invalidateBlock params b).tip=if b <:+ s.tip then b.tail else s.tip := by
  have hne := h.tree.ne_nil hb
  obtain ⟨hm,hd⟩ := invalidateLoop_disconnected
    (s.candidateBlocksByWork params b) h.tip_clean rfl hne (.inl rfl) (.inr rfl)
  rw [BlockIndexState.invalidateBlock,if_neg hht]
  split
  rename_i toMarkFailed s1 hl
  rw [hl] at hm hd
  obtain rfl : b=toMarkFailed := hm.symm
  have ht : b.tail≠[] := by
    intro hn
    have hh := h.tree.height b hb
    rw [h.tree.root b hb hn] at hh hht
    simp only [length_cons,length_nil] at hh
    omega
  have ho : ¬b <:+ s1.tip := by
    rw [hd.tip]
    split
    · intro hs
      have hle := hs.length_le
      have hp := length_pos_iff.mpr hne
      rw [length_tail] at hle
      omega
    · assumption
  rw [if_neg ho]
  have hva : ∀ q, (s1.markInvalid params b).failedValid q ↔
      q=b ∨ s1.failedValid q := fun q => failedValid_setFailedValid
  refine ⟨⟨?_,?_,?_,?_⟩,⟨hd.index,hd.nChainWork,unblamed_iff_of_marks hne ?_ ?_ ?_,?_⟩,hd.tip⟩
  · change IndexTree params s1.index s1.nHeight s1.nChainWork
    rw [hd.index,hd.nHeight,hd.nChainWork]
    exact h.tree
  · change s1.tip∈s1.index
    rw [hd.index,hd.tip]
    split
    · exact h.tree.parent b hb ht
    · exact h.tip_mem
  · refine hd.clean.of_marks fun q hq _ => failed_setFailedValid ?_
    rintro rfl
    exact ho hq
  · intro c hc
    obtain rfl | hc := mem_insert_iff.mp hc
    · exact ⟨hd.index ▸ hb,(hva c).mpr (.inl rfl)⟩
    · rw [hd.failedBlocks] at hc
      obtain ⟨hme,hv⟩ := h.failedBlocks c hc
      exact ⟨hd.index ▸ hme,(hva c).mpr (.inr (hd.kept c hv))⟩
  · exact (hva b).mpr (.inl rfl)
  · exact fun q hq => (hva q).mpr (.inr (hd.kept q hq))
  · intro q hq
    obtain rfl | hv := (hva q).mp hq
    · exact .inr suffix_rfl
    · exact hd.marked q hv
  · change (if b <:+ s1.bestHeader then s1.tip else s1.bestHeader)=_
    rw [hd.bestHeader]
    rfl

/-! ResetBlockFailureFlags. -/

lemma reset_failedValid (params : ChainParams B) (hc : c∈s.index) :
    (s.resetBlockFailureFlags params b).failedValid c ↔
      s.failedValid c ∧ ¬b <:+ c ∧ ¬c <:+ b := by
  simp only [resetBlockFailureFlags,Bool.and_eq_true,Bool.not_eq_true',decide_eq_false_iff_not]
  constructor
  · rintro ⟨⟨hv,hk⟩,hcb⟩
    refine ⟨hv,fun hbc => ?_,hcb⟩
    have hm : s.failed c := by rw [failed,hv,Bool.true_or]
    rw [resetByDescent_of_suffix hc hbc hm] at hk
    cases hk
  · rintro ⟨hv,hbc,hcb⟩
    refine ⟨⟨hv,?_⟩,hcb⟩
    simp [resetByDescent,hbc]

/- Every mark on the branch is one that the call clears. -/
def FreedBy (s : BlockIndexState B) (b c : List B) : Prop :=
  ∀ q, q <:+ c → q≠[] → s.failedValid q → b <:+ q ∨ q <:+ b

lemma HeaderTree.reset (h : HeaderTree params s) :
    HeaderTree params (s.resetBlockFailureFlags params b) where
  tree := h.tree
  tip_mem := h.tip_mem
  tip_clean := by
    intro q hq hn
    refine ⟨?_,(h.tip_clean q hq hn).2⟩
    by_contra hm
    have ho := (failed_of_reset (Bool.not_eq_false _ ▸ hm)).1
    rw [(h.tip_clean q hq hn).1] at ho
    cases ho
  failedBlocks := by
    intro c hc
    simp only [resetBlockFailureFlags,mem_filter,Bool.not_eq_true'] at hc
    obtain ⟨⟨hc,hk⟩,hcl⟩ := hc
    obtain ⟨hme,hv⟩ := h.failedBlocks c hc
    refine ⟨hme,?_⟩
    simpa [resetBlockFailureFlags,failed,hv,hk] using hcl

lemma HeaderTree.unblamed_reset (h : HeaderTree params s) (hc : c∈s.index) :
    Unblamed (s.resetBlockFailureFlags params b) c ↔ FreedBy s b c := by
  have hm : ∀ {q}, q <:+ c → q≠[] → q∈s.index := fun hq hn => h.tree.suffix_mem hc hq hn
  constructor
  · rintro ⟨_,hu⟩ q hq hn hv
    by_contra hk
    rw [not_or] at hk
    have hv' := (reset_failedValid params (hm hq hn)).mpr ⟨hv,hk⟩
    rw [hu q hq hn] at hv'
    cases hv'
  · intro hf
    refine ⟨h.tree.ne_nil hc,fun q hq hn => ?_⟩
    by_contra hv
    obtain ⟨hv,hbq,hqb⟩ := (reset_failedValid params (hm hq hn)).mp (Bool.not_eq_false _ ▸ hv)
    exact (hf q hq hn hv).elim hbq hqb

lemma BestHeader.reset_iff (h : HeaderTree params s) (hbe : BestHeader s) :
    BestHeader (s.resetBlockFailureFlags params b) ↔
      ∀ c∈s.index, FreedBy s b c → s.nChainWork c ≤ s.nChainWork s.bestHeader := by
  constructor
  · exact fun hr c hc hf => hr.most c hc ((h.unblamed_reset hc).mpr hf)
  · intro hm
    refine ⟨hbe.mem,(h.unblamed_reset hbe.mem).mpr fun q hq hn hv => ?_,
      fun c hc hu => hm c hc ((h.unblamed_reset hc).mp hu)⟩
    rw [hbe.unblamed.2 q hq hn] at hv
    cases hv

/-! Steps that leave the headers alone. -/

omit [DecidableEq B] in
lemma SameHeaders.refl (s : BlockIndexState B) : SameHeaders s s :=
  ⟨rfl,rfl,rfl,rfl,rfl,rfl⟩

omit [DecidableEq B] in
lemma SameHeaders.trans {s'' : BlockIndexState B} (h : SameHeaders s s')
    (h' : SameHeaders s' s'') : SameHeaders s s'' where
  index := h'.index.trans h.index
  nHeight := h'.nHeight.trans h.nHeight
  nChainWork := h'.nChainWork.trans h.nChainWork
  failedValid := h'.failedValid.trans h.failedValid
  failedBlocks := h'.failedBlocks.trans h.failedBlocks
  bestHeader := h'.bestHeader.trans h.bestHeader

lemma linkQueue_frame (params : ChainParams B) (s : BlockIndexState B) (q : List (List B)) :
    SameHeaders s (s.linkQueue params q) ∧ (s.linkQueue params q).tip=s.tip ∧
      (s.linkQueue params q).failedChild=s.failedChild := by
  fun_induction linkQueue params s q with
  | case1 s => exact ⟨.refl s,rfl,rfl⟩
  | case2 s b r ih =>
    have hl : SameHeaders s (s.linkBlock params b) := ⟨rfl,rfl,rfl,rfl,rfl,rfl⟩
    exact ⟨hl.trans ih.1,ih.2.1,ih.2.2⟩

lemma receivedBlockTransactions_frame (params : ChainParams B) (s : BlockIndexState B)
    (b : List B) :
    SameHeaders s (s.receivedBlockTransactions params b) ∧
      (s.receivedBlockTransactions params b).tip=s.tip ∧
      (s.receivedBlockTransactions params b).failedChild=s.failedChild := by
  rw [receivedBlockTransactions]
  split
  · obtain ⟨hs,ht,hc⟩ := linkQueue_frame params (raiseValidity {s with
      nTx := update s.nTx b (params.vtxSize b)
      nChainTx := update s.nChainTx b 0
      haveData := update s.haveData b true} b blockValidTransactions) [b]
    exact ⟨⟨hs.index,hs.nHeight,hs.nChainWork,hs.failedValid,hs.failedBlocks,hs.bestHeader⟩,ht,hc⟩
  · split
    · exact ⟨⟨rfl,rfl,rfl,rfl,rfl,rfl⟩,rfl,rfl⟩
    · exact ⟨⟨rfl,rfl,rfl,rfl,rfl,rfl⟩,rfl,rfl⟩

lemma firstUnusable_off {new t : List B} (h : s.firstUnusable new=some (some t)) :
    ¬t <:+ s.tip := by
  induction new with
  | nil => cases h
  | cons x p ih =>
    rw [firstUnusable] at h
    split at h
    · cases h
    · rename_i ho
      split at h
      · cases h
      · split at h
        · cases h
          exact ho
        · exact ih h

lemma dropUnusable_frame {new t : List B} (h : s.firstUnusable new=some (some t)) :
    SameHeaders s (s.dropUnusable t new) ∧ (s.dropUnusable t new).tip=s.tip ∧
      ∀ q, q <:+ s.tip → (s.dropUnusable t new).failedChild q=s.failedChild q := by
  have hs := (firstUnusable_suffix h).2
  simp only [dropUnusable,eraseCandidate,dropBranch_eq hs]
  refine ⟨⟨rfl,rfl,rfl,rfl,rfl,rfl⟩,trivial,fun q hq => ?_⟩
  have hab : ¬Above t new q := fun ha => firstUnusable_off h (ha.1.trans hq)
  simp [hab]

lemma findMostWorkChain_frame {m : Option (List B)} (h : s.findMostWorkChain params=some (m,s')) :
    SameHeaders s s' ∧ s'.tip=s.tip ∧ ∀ q, q <:+ s.tip → s'.failedChild q=s.failedChild q := by
  fun_induction findMostWorkChain params s with
  | case1 s hno =>
    cases h
    exact ⟨.refl _,rfl,fun _ _ => rfl⟩
  | case2 s n hn hf => cases h
  | case3 s n hn hf =>
    cases h
    exact ⟨.refl _,rfl,fun _ _ => rfl⟩
  | case4 s n hn t hf ih =>
    obtain ⟨hs,ht,hc⟩ := dropUnusable_frame hf
    obtain ⟨hs',ht',hc'⟩ := ih h
    refine ⟨hs.trans hs',ht'.trans ht,fun q hq => ?_⟩
    rw [hc' q (ht ▸ hq),hc q hq]

omit [DecidableEq B] in
lemma HeaderTree.of_frame (h : HeaderTree params s) (hs : SameHeaders s s')
    (ht : s'.tip=s.tip) (hc : ∀ q, q <:+ s.tip → s'.failedChild q=s.failedChild q) :
    HeaderTree params s' := by
  refine h.of_sameHeaders hs (ht ▸ h.tip_mem) ?_
  rw [ht]
  refine h.tip_clean.of_marks fun q hq _ => ?_
  rw [failed,failed,hs.failedValid,hc q hq]

/-! AcceptBlockHeader. -/

/-- The header gets through every check and is added to the index. -/
structure HeaderPasses (params : ChainParams B) (checks : HeaderChecks) (b : List B)
    (s : BlockIndexState B) : Prop where
  new : b∉s.index
  parent : b.tail∈s.index
  parent_unmarked : s.failed b.tail=false
  -- m_failed_blocks is not looked at above a parent that was connected once
  noFailedAncestor : s.isValid b.tail blockValidScripts ∨
    ∀ a∈s.failedBlocks, ¬a <:+ b.tail
  checkBlockHeader : checks.checkBlockHeader
  contextualCheckBlockHeader : checks.contextualCheckBlockHeader
  minPowChecked : checks.minPowChecked

lemma HeaderPasses.added {checks : HeaderChecks} (h : HeaderPasses params checks b s)
    (hg : [params.genesis]∈s.index) :
    s.acceptBlockHeader params checks b=(true,s.addToBlockIndex params b) := by
  have hne : b≠[params.genesis] := fun he => h.new (he ▸ hg)
  have hn : s.isValid b.tail blockValidScripts ∨ s.failedAncestor params b.tail=none := by
    refine h.noFailedAncestor.imp_right fun ho => ?_
    by_contra hs
    obtain ⟨st,hst⟩ := ne_none_iff_exists'.mp hs
    obtain ⟨hm,hsu⟩ := failedAncestor_spec hst
    exact ho st hm hsu
  simp only [acceptBlockHeader,hne,h.new,h.parent,h.parent_unmarked,h.checkBlockHeader,
    h.contextualCheckBlockHeader,h.minPowChecked]
  obtain hsc | hn := hn
  · simp [hsc]
  · simp [hn]

lemma acceptBlockHeader_checks (checks : HeaderChecks) (hg : [params.genesis]∈s.index)
    (hb : b∉s.index) (h : (s.acceptBlockHeader params checks b).1) :
    checks.checkBlockHeader ∧ checks.contextualCheckBlockHeader ∧
      checks.minPowChecked := by
  have hn : b≠[params.genesis] := fun he => hb (he ▸ hg)
  simp only [acceptBlockHeader,if_neg hn,if_neg hb] at h
  split at h
  · cases h
  · rename_i hc
    split at h
    · cases h
    · split at h
      · cases h
      · split at h
        · cases h
        · rename_i hco
          have hp : checks.minPowChecked := by
            by_contra hp
            split at h
            · cases h
            · split at h
              · cases h
              · cases h
          exact ⟨by simpa using hc,by simpa using hco,hp⟩

section
variable (h : HeaderTree params s) (hb : b∉s.index) (hp : b.tail∈s.index)
include hb

include h

lemma unblamed_added (hc : c∈s.index) : Unblamed (s.addToBlockIndex params b) c ↔ Unblamed s c := by
  refine and_congr_right fun _ => forall_congr' fun q => forall_congr' fun hq =>
    forall_congr' fun hn => ?_
  rw [(addToBlockIndex_sameEntry params hb (h.tree.suffix_mem hc hq hn)).failedValid]

include hp

lemma unblamed_added_self : Unblamed (s.addToBlockIndex params b) b ↔ Unblamed s b.tail := by
  have ht := h.tree.ne_nil hp
  rw [← unblamed_added h hb hp]
  constructor
  · exact fun hu => ⟨ht,fun q hq hne => hu.2 q (hq.trans (tail_suffix b)) hne⟩
  · intro hu
    refine ⟨fun hn => ht (by rw [hn]; rfl),fun q hq hne => ?_⟩
    by_cases he : q=b
    · subst he
      exact (Bool.or_eq_false_iff.mp (addToBlockIndex_newEntry params hb).unmarked).1
    · exact hu.2 q (tail_suffix_of_ne hq he) hne

lemma HeaderTree.added : HeaderTree params (s.addToBlockIndex params b) := by
  obtain ⟨hi,ht,_,_,hf,_⟩ := addToBlockIndex_frame params hb
  refine ⟨?_,?_,?_,?_⟩
  · rw [hi]
    exact addToBlockIndex_tree h.tree hb hp
  · rw [hi,ht]
    exact mem_cons_of_mem b h.tip_mem
  · rw [ht]
    exact h.tip_clean.of_marks fun q hq hn =>
      (addToBlockIndex_sameEntry params hb (h.tree.suffix_mem h.tip_mem hq hn)).failed
  · intro c hc
    rw [hf] at hc
    obtain ⟨hm,hv⟩ := h.failedBlocks c hc
    rw [hi,(addToBlockIndex_sameEntry params hb hm).failedValid]
    exact ⟨mem_cons_of_mem b hm,hv⟩

/-- A new header with more work than the best one becomes the best one, whatever it is on. -/
lemma BestHeader.added_iff (hbe : BestHeader s) : BestHeader (s.addToBlockIndex params b) ↔
      (s.nChainWork s.bestHeader < s.nChainWork b.tail+params.blockProof b →
        Unblamed s b.tail) := by
  have hi := (addToBlockIndex_frame params hb).1
  have hw := (addToBlockIndex_newEntry params hb).nChainWork
  have ho : ∀ {c}, c∈s.index → (s.addToBlockIndex params b).nChainWork c=s.nChainWork c :=
    fun hc => (addToBlockIndex_sameEntry params hb hc).nChainWork
  have hs := unblamed_added_self h hb hp
  have hh : (s.addToBlockIndex params b).bestHeader=
      if s.nChainWork s.bestHeader < s.nChainWork b.tail+params.blockProof b then b
      else s.bestHeader := by
    rw [addToBlockIndex,if_neg hb]
  by_cases hm : s.nChainWork s.bestHeader < s.nChainWork b.tail+params.blockProof b
  · rw [if_pos hm] at hh
    constructor
    · intro h' _
      have hu := h'.unblamed
      rw [hh] at hu
      exact hs.mp hu
    · intro hu
      refine ⟨?_,?_,?_⟩
      · rw [hh,hi]
        exact mem_cons_self
      · rw [hh]
        exact hs.mpr (hu hm)
      · intro c hc hcu
        rw [hi] at hc
        rw [hh]
        obtain rfl | hc := mem_cons.mp hc
        · exact Nat.le_refl _
        · have hle := hbe.most c hc ((unblamed_added h hb hc).mp hcu)
          rw [ho hc]
          omega
  · rw [if_neg hm] at hh
    refine ⟨fun _ hl => absurd hl hm,fun _ => ⟨?_,?_,?_⟩⟩
    · rw [hh,hi]
      exact mem_cons_of_mem b hbe.mem
    · rw [hh]
      exact (unblamed_added h hb hbe.mem).mpr hbe.unblamed
    · intro c hc hcu
      rw [hi] at hc
      rw [hh,ho hbe.mem]
      obtain rfl | hc := mem_cons.mp hc
      · omega
      · rw [ho hc]
        exact hbe.most c hc ((unblamed_added h hb hc).mp hcu)
end

omit [DecidableEq B] in
lemma HeaderTree.genesis_unmarked (h : HeaderTree params s) : s.failed [params.genesis]=false :=
  (h.tip_clean _ (h.tree.genesis_suffix h.tip_mem) (cons_ne_nil _ _)).1

lemma HeaderTree.markFailedChild (h : HeaderTree params s) {st w : List B}
    (hst : st∈s.failedBlocks) (hsu : st <:+ w) :
    SameHeaders s (s.markFailedChild st w) ∧
      HeaderTree params (s.markFailedChild st w) := by
  obtain ⟨hm,hv⟩ := h.failedBlocks st hst
  have ho : ¬st <:+ s.tip := h.tip_clean.not_marked (h.tree.ne_nil hm) (by
    rw [failed,hv,Bool.true_or])
  rw [markFailedChild_eq hsu]
  have hs : SameHeaders s {s with
      failedChild := fun c => s.failedChild c || decide (Above st w c)} :=
    ⟨rfl,rfl,rfl,rfl,rfl,rfl⟩
  refine ⟨hs,h.of_frame hs rfl fun q hq => ?_⟩
  have hab : ¬Above st w q := fun ha => ho (ha.1.trans hq)
  simp [hab]

lemma HeaderTree.acceptBlockHeader (h : HeaderTree params s) (checks : HeaderChecks) :
    HeaderPasses params checks b s ∧ (s.acceptBlockHeader params checks
    b).2=s.addToBlockIndex params b ∨
      ¬HeaderPasses params checks b s ∧ SameHeaders s (s.acceptBlockHeader params checks b).2 ∧
        HeaderTree params (s.acceptBlockHeader params checks b).2 := by
  by_cases hp : HeaderPasses params checks b s
  · exact .inl ⟨hp,by rw [hp.added h.tree.genesis]⟩
  · refine .inr ⟨hp,?_⟩
    have hc := acceptBlockHeader_checks (b := b) checks h.tree.genesis
    have ho := acceptBlockHeader_outcome (b := b) checks h.tree.genesis h.genesis_unmarked
    generalize s.acceptBlockHeader params checks b=r at ho hc ⊢
    cases ho with
    | refused => exact ⟨.refl s,h⟩
    | known => exact ⟨.refl s,h⟩
    | marked hst hs => exact h.markFailedChild hst hs
    | added hb hpa hma hf =>
      obtain ⟨hh,hco,hpo⟩ := hc hb rfl
      refine absurd ⟨hb,hpa,hma,?_,hh,hco,hpo⟩ hp
      refine hf.imp_right fun hn a ha hs => ?_
      have hni := best_eq_none hn
      have hm : a∈s.failedBlocks.filter (fun f => decide (f <:+ b.tail)) :=
        mem_filter.mpr ⟨ha,decide_eq_true hs⟩
      rw [hni] at hm
      cases hm
end BlockIndexState
open BlockIndexState

/-- What happens to the headers of a node. Connecting `b` is a step of ActivateBestChainStep towards
`front`, which is reported too when `b` fails. -/
inductive HeaderStep (B : Type) where
  | acceptBlockHeader (checks : HeaderChecks) (b : List B)
  | receivedBlockTransactions (b : List B)
  | findMostWorkChain
  | disconnectTip
  | connectTip (b front : List B)
  | invalidateBlock (b : List B)
  | resetBlockFailureFlags (b : List B)

namespace HeaderStep
def run (params : ChainParams B) (s : BlockIndexState B) : HeaderStep B → Option (BlockIndexState B)
  | acceptBlockHeader checks b => some (s.acceptBlockHeader params checks b).2
  | receivedBlockTransactions b =>
    if b∈s.index then some (s.receivedBlockTransactions params b) else none
  | findMostWorkChain => (s.findMostWorkChain params).map Prod.snd
  | disconnectTip => if s.tip.tail≠[] then some {s with tip := s.tip.tail} else none
  | connectTip b front =>
    -- FindMostWorkChain has found nothing marked up to its target
    if b∈s.index ∧ s.failed b=false ∧ b <:+ front then
      match s.connectTip params b with
      | none => none
      | some (true,s') => s'.pruneBlockIndexCandidates params
      | some (false,s') => some (s'.invalidChainFound front)
    else none
  | invalidateBlock b => if b∈s.index then some (s.invalidateBlock params b) else none
  | resetBlockFailureFlags b =>
    if b∈s.index then some (s.resetBlockFailureFlags params b) else none

/-- The inputs on which a step keeps the best header right. -/
def Safe (params : ChainParams B) (s : BlockIndexState B) : HeaderStep B → Prop
  -- else a header above a failed block becomes the best one
  | acceptBlockHeader checks b => HeaderPasses params checks b s →
    s.nChainWork s.bestHeader < s.nChainWork b.tail+params.blockProof b → Unblamed s b.tail
  -- else the best header falls back to a tip that another header has more work than
  | connectTip b _ => params.connects b=false → b <:+ s.bestHeader →
    ∀ c∈s.index, Unblamed s c → ¬b <:+ c → s.nChainWork c ≤ s.nChainWork s.tip
  | invalidateBlock b => s.nHeight b≠0 → b <:+ s.bestHeader →
    ∀ c∈s.index, Unblamed s c → ¬b <:+ c →
      s.nChainWork c ≤ s.nChainWork (if b <:+ s.tip then b.tail else s.tip)
  -- else a header that is freed has more work than the best one
  | resetBlockFailureFlags b => ∀ c∈s.index, FreedBy s b c →
    s.nChainWork c ≤ s.nChainWork s.bestHeader
  | _ => True

variable {ps : ChainParams B} {s s' : BlockIndexState B}

omit [DecidableEq B] in
lemma iff_of_sameHeaders (h : HeaderTree ps s') (hbe : BestHeader s)
    (hs : SameHeaders s s') {P : Prop} (hP : P) : HeaderTree ps s' ∧ (BestHeader s' ↔ P) :=
  ⟨h,fun _ => hP,fun _ => hs.bestHeader_iff.mpr hbe⟩

lemma connectTip_iff (h : HeaderTree ps s) (hbe : BestHeader s) {b f : List B}
    (hr : (connectTip b f).run ps s=some s') :
    HeaderTree ps s' ∧ (BestHeader s' ↔ (connectTip b f).Safe ps s) := by
  rw [run] at hr
  split at hr
  swap
  · cases hr
  rename_i hg
  obtain ⟨hb,hm,hf⟩ := hg
  have hn := h.tree.ne_nil hb
  rw [BlockIndexState.connectTip] at hr
  by_cases ht : b.tail=s.tip
  swap
  · rw [if_pos ht] at hr
    cases hr
  rw [if_neg (not_not.mpr ht)] at hr
  cases hc : ps.connects b with
  | true =>
    simp only [hc,if_true] at hr
    rw [pruneBlockIndexCandidates] at hr
    split at hr
    · cases hr
    · cases hr
      have hsa : SameHeaders s ((s.tipConnected b).withoutWorse ps) := ⟨rfl,rfl,rfl,rfl,rfl,rfl⟩
      refine iff_of_sameHeaders (h.of_sameHeaders hsa hb ?_) hbe hsa fun hi => ?_
      · intro q hq hqn
        by_cases he : q=b
        · subst he
          exact ⟨hm,fun _ => hc⟩
        · exact h.tip_clean q (ht ▸ tail_suffix_of_ne hq he) hqn
      · rw [hc] at hi
        cases hi
  | false =>
    simp only [hc,Bool.false_eq_true,if_false] at hr
    cases hr
    have hmk := connectionFailed_marked ht hn hf
    have ho : ∀ q, q <:+ s.tip → q≠b := by
      rintro q hq rfl
      have hl := hq.length_le
      have hp := length_pos_iff.mpr hn
      rw [← ht,length_tail] at hl
      omega
    have htr : HeaderTree ps ((s.invalidBlockFound b).invalidChainFound f) := by
      refine ⟨h.tree,h.tip_mem,?_,failedBlocks_setFailedValid hb h.failedBlocks⟩
      exact h.tip_clean.of_marks fun q hq _ => failed_setFailedValid (ho q hq)
    refine ⟨htr,(hbe.marked_iff hmk h.tip_mem htr.tip_unblamed).trans ?_⟩
    exact ⟨fun hs _ => hs,fun hs => hs hc⟩

/-- A step keeps the best header right exactly when it is safe. -/
lemma bestHeader_iff (h : HeaderTree ps s) (hbe : BestHeader s) {st : HeaderStep B}
    (hr : st.run ps s=some s') : HeaderTree ps s' ∧ (BestHeader s' ↔ st.Safe ps s) := by
  cases st with
  | acceptBlockHeader ch b =>
    cases hr
    obtain ⟨hp,he⟩ | ⟨hp,hs,ht⟩ := h.acceptBlockHeader ch (b := b)
    · rw [he]
      refine ⟨h.added hp.new hp.parent,(hbe.added_iff h hp.new hp.parent).trans ?_⟩
      exact ⟨fun hsa _ => hsa,fun hsa => hsa hp⟩
    · exact iff_of_sameHeaders ht hbe hs fun hpa => absurd hpa hp
  | receivedBlockTransactions b =>
    rw [run] at hr
    split at hr
    · cases hr
      obtain ⟨hs,hti,hc⟩ := receivedBlockTransactions_frame ps s b
      exact iff_of_sameHeaders (h.of_frame hs hti fun q _ => by rw [hc]) hbe hs trivial
    · cases hr
  | findMostWorkChain =>
    obtain ⟨⟨m,s1⟩,hf,rfl⟩ := map_eq_some_iff.mp hr
    obtain ⟨hs,hti,hc⟩ := findMostWorkChain_frame hf
    exact iff_of_sameHeaders (h.of_frame hs hti hc) hbe hs trivial
  | disconnectTip =>
    rw [run] at hr
    split at hr
    · rename_i hta
      cases hr
      have hs : SameHeaders s {s with tip := s.tip.tail} := ⟨rfl,rfl,rfl,rfl,rfl,rfl⟩
      exact iff_of_sameHeaders (h.of_sameHeaders hs (h.tree.parent _ h.tip_mem hta)
        (h.tip_clean.suffix (tail_suffix s.tip))) hbe hs trivial
    · cases hr
  | connectTip b f => exact connectTip_iff h hbe hr
  | invalidateBlock b =>
    rw [run] at hr
    split at hr
    · rename_i hb
      cases hr
      by_cases hh : s.nHeight b=0
      · rw [BlockIndexState.invalidateBlock,if_pos hh]
        exact iff_of_sameHeaders h hbe (.refl s) fun hn => absurd hh hn
      · obtain ⟨ht,hm,hti⟩ := h.invalidateBlock hb hh
        refine ⟨ht,(hbe.marked_iff hm (hm.index ▸ ht.tip_mem) ht.tip_unblamed).trans ?_⟩
        rw [hti]
        exact ⟨fun hsa _ => hsa,fun hsa => hsa hh⟩
    · cases hr
  | resetBlockFailureFlags b =>
    rw [run] at hr
    split at hr
    · cases hr
      exact ⟨h.reset,hbe.reset_iff h⟩
    · cases hr
end HeaderStep

def SafeHeaderStep (params : ChainParams B) (s s' : BlockIndexState B) : Prop :=
  ∃ step : HeaderStep B, step.Safe params s ∧ step.run params s=some s'

lemma bestHeader_of_safeRun {params : ChainParams B} {s : BlockIndexState B}
    (hr : Relation.ReflTransGen (SafeHeaderStep params) (initial params) s) :
    HeaderTree params s ∧ BestHeader s := by
  induction hr with
  | refl =>
    have hs := initial_consistent params
    refine ⟨⟨hs.tree,hs.active.mem,hs.active.clean,hs.failedBlocks⟩,?_⟩
    refine ⟨hs.tree.genesis,⟨cons_ne_nil _ _,fun _ _ _ => rfl⟩,fun c hc _ => ?_⟩
    exact Nat.le_refl _
  | tail _ hst ih =>
    obtain ⟨_,hsa,hst⟩ := hst
    obtain ⟨ht,hi⟩ := HeaderStep.bestHeader_iff ih.1 ih.2 hst
    exact ⟨ht,hi.mpr hsa⟩

/-- After every run of safe steps the best header is the best one, and it stays so after one
more step exactly when that step is safe. -/
theorem bestHeader_iff_safe (params : ChainParams B) (s : BlockIndexState B)
    (hrun : Relation.ReflTransGen (SafeHeaderStep params) (initial params) s) :
    BestHeader s ∧ ∀ (step : HeaderStep B) (s' : BlockIndexState B),
      step.run params s=some s' → (BestHeader s' ↔ step.Safe params s) := by
  obtain ⟨ht,hbe⟩ := bestHeader_of_safeRun hrun
  exact ⟨hbe,fun step s' hs => (HeaderStep.bestHeader_iff ht hbe hs).2⟩

def runSteps (params : ChainParams B) (steps : List (HeaderStep B)) : Option (BlockIndexState B) :=
  steps.foldlM (HeaderStep.run params) (initial params)

omit [DecidableEq B] in
lemma unblamed_iff_tails {s : BlockIndexState B} {c : List B} :
    Unblamed s c ↔ c≠[] ∧ ∀ q∈c.tails, q≠[] → s.failedValid q=false := by
  simp [Unblamed]

def oneHeader : BlockIndexState Nat :=
  ((initial sampleChain).acceptBlockHeader sampleChain headerGood [1,0]).2

/-- The only header above genesis is invalidated, and the best header is genesis again. -/
theorem bestHeader_iff_safe_oneHeader : oneHeader.bestHeader=[1,0] ∧
    ∃ s, (HeaderStep.invalidateBlock [1,0]).run sampleChain oneHeader=some s ∧
      s.bestHeader=[0] ∧ BestHeader s := by
  have hst : SafeHeaderStep sampleChain (initial sampleChain) oneHeader :=
    ⟨.acceptBlockHeader headerGood [1,0],fun _ _ => ⟨cons_ne_nil 0 [],fun _ _ _ => rfl⟩,rfl⟩
  have hr : ((HeaderStep.invalidateBlock [1,0]).run sampleChain oneHeader).map
      BlockIndexState.bestHeader=some [0] := by decide +kernel
  obtain ⟨s,hs,hbe⟩ := map_eq_some_iff.mp hr
  refine ⟨by decide +kernel,s,hs,hbe,
    ((bestHeader_iff_safe sampleChain oneHeader (.single hst)).2 _ s hs).mpr ?_⟩
  have hi : ∀ c∈oneHeader.index, ¬[1,0] <:+ c → oneHeader.nChainWork c≤oneHeader.nChainWork
      (if [1,0] <:+ oneHeader.tip then [0] else oneHeader.tip) := by decide +kernel
  exact fun _ _ c hc _ ho => hi c hc ho

/-- Three headers are known, and the better branch of the two is invalidated: the best header
falls back to the tip, which is genesis, and not to the other branch. -/
theorem bestHeader_lost_after_invalidateBlock :
    ∃ s, runSteps sampleChain [.acceptBlockHeader headerGood [1,0],
        .acceptBlockHeader headerGood [2,1,0],.acceptBlockHeader headerGood [3,0],
        .invalidateBlock [1,0]]=some s ∧
      s.bestHeader=[0] ∧ [3,0]∈s.index ∧ Unblamed s [3,0] ∧
      s.nChainWork [0] < s.nChainWork [3,0] ∧ ¬BestHeader s := by
  have hr : (runSteps sampleChain [.acceptBlockHeader headerGood [1,0],
      .acceptBlockHeader headerGood [2,1,0],.acceptBlockHeader headerGood [3,0],
      .invalidateBlock [1,0]]).map (fun s => (s.bestHeader,decide ([3,0]∈s.index),
        decide (∀ q∈([3,0] : List Nat).tails, q≠[] → s.failedValid q=false),
        decide (s.nChainWork [0] < s.nChainWork [3,0])))=some ([0],true,true,true) := by
    decide +kernel
  obtain ⟨s,hs,hf⟩ := map_eq_some_iff.mp hr
  simp only [Prod.mk.injEq,decide_eq_true_eq] at hf
  obtain ⟨hbe,hme,hu,hw⟩ := hf
  have hu := unblamed_iff_tails.mpr ⟨cons_ne_nil 3 [0],hu⟩
  refine ⟨s,hs,hbe,hme,hu,hw,fun h => ?_⟩
  have hm := h.most _ hme hu
  rw [hbe] at hm
  exact absurd hw (Nat.not_lt.mpr hm)
end Xero
