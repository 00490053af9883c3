import Xero.IndexInvariant

/-! Accepting headers and blocks keeps the invariant of the block index. -/
namespace Xero
open Library List Function
variable {B : Type} [DecidableEq B]
namespace BlockIndexState
variable {params : ChainParams B} {s s' : BlockIndexState B} {b c : List B}

lemma markFailedChild_eq {st w : List B} (hs : st <:+ w) (s : BlockIndexState B) :
    s.markFailedChild st w=
      {s with failedChild := fun c => s.failedChild c || decide (Above st w c)} := by
  induction w generalizing s with
  | nil => simp [suffix_nil.mp hs,markFailedChild,not_above_self]
  | cons x pr ih =>
    rw [markFailedChild]
    split
    · rename_i he
      simp [← he,not_above_self]
    · rename_i hn
      have hp := suffix_of_suffix_cons hs hn
      rw [ih hp]
      simp only [mk.injEq,true_and,and_true]
      funext c
      rw [decide_eq_decide.mpr (above_cons_iff hp),Bool.decide_or]
      by_cases he : c=x::pr
      · simp [he]
      · simp [he]

lemma Consistent.markFailedChild (h : Consistent params s) {stop walk : List B}
    (hsu : stop <:+ walk) (hs : stop∈s.failedBlocks) :
    Consistent params (s.markFailedChild stop walk) := by
  obtain ⟨hme,hv⟩ := h.failedBlocks stop hs
  have hn := h.tree.ne_nil hme
  rw [markFailedChild_eq hsu]
  exact {
    tree := h.tree
    recorded := h.recorded
    links := h.links
    counted := h.counted
    skips := h.skips
    child := by
      intro c hc hch
      obtain hch | ha := Bool.or_eq_true_iff.mp hch
      · exact h.child c hc hch
      · exact ⟨stop,(of_decide_eq_true ha).1,hn,hv⟩
    failedBlocks := h.failedBlocks
    active := by
      refine ⟨h.active.mem,h.active.clean.of_marks fun q hq _ =>
          ?_,h.active.linked,h.active.scripts⟩
      have ha : ¬Above stop walk q := by
        rintro ⟨hst,_⟩
        have hm : s.failed stop := by rw [failed,hv,Bool.true_or]
        exact h.active.clean.not_marked hn hm (hst.trans hq)
      simp only [failed,decide_eq_false ha,Bool.or_false]
    candidate_mem := h.candidate_mem
    candidate_tip := h.candidate_tip
    complete := by
      intro c hc ht hu hw
      refine h.complete c hc ht ?_ hw
      simp only [failed,Bool.or_eq_false_iff] at hu ⊢
      exact ⟨hu.1,hu.2.1⟩
    counter := h.counter}

structure SameEntry (s s' : BlockIndexState B) (c : List B) : Prop where
  nHeight : s'.nHeight c=s.nHeight c
  nChainWork : s'.nChainWork c=s.nChainWork c
  nTx : s'.nTx c=s.nTx c
  nChainTx : s'.nChainTx c=s.nChainTx c
  nSequenceId : s'.nSequenceId c=s.nSequenceId c
  valid : s'.valid c=s.valid c
  haveData : s'.haveData c=s.haveData c
  haveUndo : s'.haveUndo c=s.haveUndo c
  failedValid : s'.failedValid c=s.failedValid c
  failedChild : s'.failedChild c=s.failedChild c

omit [DecidableEq B] in
lemma SameEntry.sortsWorse (hb : SameEntry s s' b) (hc : SameEntry s s' c) :
    s'.sortsWorse params b c=s.sortsWorse params b c := by
  simp only [BlockIndexState.sortsWorse,workComparator,hb.nChainWork,hc.nChainWork,
    hb.nSequenceId,hc.nSequenceId]

omit [DecidableEq B] in
lemma SameEntry.failed (h : SameEntry s s' c) : s'.failed c=s.failed c := by
  rw [BlockIndexState.failed,h.failedValid,h.failedChild,BlockIndexState.failed]

/- The new entry as AddToBlockIndex makes it. -/
structure NewEntry (params : ChainParams B) (s s' : BlockIndexState B) (b : List B) : Prop where
  nHeight : s'.nHeight b=s.nHeight b.tail+1
  nChainWork : s'.nChainWork b=s.nChainWork b.tail+params.blockProof b
  nTx : s'.nTx b=0
  nChainTx : s'.nChainTx b=0
  nSequenceId : s'.nSequenceId b=0
  valid : s'.valid b=blockValidTree
  haveData : s'.haveData b=false
  haveUndo : s'.haveUndo b=false
  unmarked : s'.failed b=false

lemma addToBlockIndex_sameEntry (params : ChainParams B) (hb : b∉s.index) (hc : c∈s.index) :
    SameEntry s (s.addToBlockIndex params b) c := by
  have hn : c≠b := fun he => hb (he ▸ hc)
  simp only [addToBlockIndex,if_neg hb]
  constructor <;> simp [hn]

lemma addToBlockIndex_newEntry (params : ChainParams B) (hb : b∉s.index) :
    NewEntry params s (s.addToBlockIndex params b) b := by
  simp only [addToBlockIndex,if_neg hb]
  constructor <;> simp [failed]

lemma addToBlockIndex_frame (params : ChainParams B) (hb : b∉s.index) :
    (s.addToBlockIndex params b).index=b::s.index ∧ (s.addToBlockIndex params b).tip=s.tip ∧
    (s.addToBlockIndex params b).setBlockIndexCandidates=s.setBlockIndexCandidates ∧
    (s.addToBlockIndex params b).blocksUnlinked=s.blocksUnlinked ∧
    (s.addToBlockIndex params b).failedBlocks=s.failedBlocks ∧
    (s.addToBlockIndex params b).nBlockReverseSequenceId=s.nBlockReverseSequenceId := by
  simp [addToBlockIndex,hb]

lemma addToBlockIndex_tree (h : IndexTree params s.index s.nHeight s.nChainWork)
    (hb : b∉s.index) (hpa : b.tail∈s.index) :
    IndexTree params (b::s.index) (s.addToBlockIndex params b).nHeight
      (s.addToBlockIndex params b).nChainWork := by
  have hr := h.ne_nil hpa
  have hn := addToBlockIndex_newEntry params hb
  have ho {c} (hc : c∈s.index) := addToBlockIndex_sameEntry params hb hc
  refine ⟨nodup_cons.mpr ⟨hb,h.nodup⟩,mem_cons_of_mem b h.genesis,?_,?_,?_,?_⟩
  · exact forall_mem_cons.mpr ⟨fun ht => absurd ht hr,h.root⟩
  · exact forall_mem_cons.mpr ⟨fun _ => mem_cons_of_mem b hpa,fun c hc ht =>
      mem_cons_of_mem b (h.parent c hc ht)⟩
  · intro c hc
    obtain rfl | hc := mem_cons.mp hc
    · have hh := h.height c.tail hpa
      rw [hn.nHeight]
      rw [length_tail] at hh
      omega
    · rw [(ho hc).nHeight]
      exact h.height c hc
  · refine forall_mem_cons.mpr ⟨fun _ => ?_,fun c hc ht => ?_⟩
    · rw [hn.nChainWork,(ho hpa).nChainWork]
    · rw [(ho hc).nChainWork,(ho (h.parent c hc ht)).nChainWork]
      exact h.work c hc ht

section
variable (h : Consistent params s) (hb : b∉s.index) (hp : b.tail∈s.index)
include h hb hp

lemma addToBlockIndex_recorded : DataRecorded (b::s.index) (s.addToBlockIndex params b).nTx
      (s.addToBlockIndex params b).nChainTx (s.addToBlockIndex params b).nSequenceId
      (s.addToBlockIndex params b).valid (s.addToBlockIndex params b).haveData
      (s.addToBlockIndex params b).haveUndo := by
  have hn := addToBlockIndex_newEntry params hb
  have ho {c} (hc : c∈s.index) := addToBlockIndex_sameEntry params hb hc
  exact {
    data := forall_mem_cons.mpr ⟨by simp [hn.haveData,hn.nTx],fun c hc => by
      rw [(ho hc).haveData,(ho hc).nTx]
      exact h.recorded.data c hc⟩
    undo := forall_mem_cons.mpr ⟨by simp [hn.haveUndo],fun c hc => by
      rw [(ho hc).haveUndo,(ho hc).haveData]
      exact h.recorded.undo c hc⟩
    transactions := forall_mem_cons.mpr ⟨by simp [hn.valid,hn.nTx],fun c hc => by
      rw [(ho hc).valid,(ho hc).nTx]
      exact h.recorded.transactions c hc⟩
    treeValid := forall_mem_cons.mpr ⟨by rw [hn.valid],fun c hc => by
      rw [(ho hc).valid]
      exact h.recorded.treeValid c hc⟩
    scripts := by
      intro c hc hv hg
      obtain rfl | hc := mem_cons.mp hc
      · rw [hn.valid] at hv
        exact absurd hv (by decide)
      · have ht : c.tail≠[] := fun hni => hg (by rw [hni]; rfl)
        rw [(ho hc).valid] at hv
        rw [(ho (h.tree.parent c hc ht)).valid]
        exact h.recorded.scripts c hc hv hg
    sequence := forall_mem_cons.mpr ⟨by simp [hn.nSequenceId],fun c hc => by
      rw [(ho hc).nChainTx,(ho hc).nSequenceId]
      exact h.recorded.sequence c hc⟩}

omit hp in
lemma addToBlockIndex_counted : TxCounted params (b::s.index) (s.addToBlockIndex params b).nTx
      (s.addToBlockIndex params b).nChainTx (s.addToBlockIndex params b).haveData := by
  have hn := addToBlockIndex_newEntry params hb
  have ho {c} (hc : c∈s.index) := addToBlockIndex_sameEntry params hb hc
  refine ⟨forall_mem_cons.mpr ⟨by simp [hn.nTx],fun c hc => ?_⟩,
    forall_mem_cons.mpr ⟨by simp [hn.nChainTx],fun c hc => ?_⟩,
    forall_mem_cons.mpr ⟨by simp [hn.haveData],fun c hc => ?_⟩⟩
  · rw [(ho hc).nTx]
    exact h.counted.size c hc
  · rw [(ho hc).nChainTx]
    exact h.counted.branch c hc
  · rw [(ho hc).haveData]
    exact h.counted.bounded c hc

/- The entry is added to the skip list as AddToBlockIndex of that one does. -/
lemma addToBlockIndex_skips : SkipIndex.Sound ⟨b::s.index,(s.addToBlockIndex params b).pskip⟩ := by
  obtain ⟨x,rest,rfl⟩ := exists_cons_of_ne_nil (show b≠[] by
    rintro rfl
    exact h.tree.ne_nil hp rfl)
  rw [tail_cons] at hp
  obtain ⟨t,hadd,hsound⟩ := h.skips.add x (.inr hp)
  have hskip := buildSkip_eq h.skips x (.inr hp)
  simp only [SkipIndex.addToBlockIndex,if_neg hb] at hadd hskip
  rw [hskip] at hadd
  obtain rfl := Option.some.inj hadd
  simp only [BlockIndexState.addToBlockIndex,if_neg hb,tail_cons,hskip,Option.getD_some]
  exact hsound

lemma addToBlockIndex_links :
    Links [] (b::s.index) (s.addToBlockIndex params b).nTx (s.addToBlockIndex params b).nChainTx
      (s.addToBlockIndex params b).haveData s.blocksUnlinked := by
  have hn := addToBlockIndex_newEntry params hb
  have ho {c} (hc : c∈s.index) := addToBlockIndex_sameEntry params hb hc
  refine ⟨?_,fun c hc => absurd hc not_mem_nil,?_,h.links.nodup⟩
  · intro c hc _
    obtain rfl | hc := mem_cons.mp hc
    · simp [hn.nTx,hn.nChainTx]
    · rw [(ho hc).nTx,(ho hc).nChainTx,h.linked hc]
      refine and_congr_right fun _ => imp_congr_right fun ht => ?_
      rw [(ho (h.tree.parent c hc ht)).nChainTx]
  · intro c
    rw [h.links.unlinked c,mem_cons]
    constructor
    · rintro ⟨hc,hd,htx,hq⟩
      rw [(ho hc).haveData,(ho hc).nChainTx]
      exact ⟨Or.inr hc,hd,htx,hq⟩
    · rintro ⟨rfl | hc,hd,htx,hq⟩
      · rw [hn.haveData] at hd
        cases hd
      · rw [(ho hc).haveData] at hd
        rw [(ho hc).nChainTx] at htx
        exact ⟨hc,hd,htx,hq⟩

lemma Consistent.addToBlockIndex : Consistent params (s.addToBlockIndex params b) := by
  have hn := addToBlockIndex_newEntry params hb
  have ho {c} (hc : c∈s.index) := addToBlockIndex_sameEntry params hb hc
  obtain ⟨hi,ht,hca,hu,hf,hco⟩ := addToBlockIndex_frame params hb
  have htr := addToBlockIndex_tree h.tree hb hp
  have hwo : ∀ {c}, c∈s.index →
      (s.addToBlockIndex params b).sortsWorse params c s.tip=s.sortsWorse params c s.tip :=
    fun hc => (ho hc).sortsWorse (ho h.active.mem)
  exact {
    tree := by rw [hi]; exact htr
    recorded := by rw [hi]; exact addToBlockIndex_recorded h hb hp
    links := by rw [hi,hu]; exact addToBlockIndex_links h hb hp
    counted := by rw [hi]; exact addToBlockIndex_counted h hb
    skips := by rw [hi]; exact addToBlockIndex_skips h hb hp
    child := by
      intro c hc hch
      rw [hi] at hc
      obtain rfl | hc := mem_cons.mp hc
      · have hun := hn.unmarked
        rw [failed,hch,Bool.or_true] at hun
        cases hun
      · rw [(ho hc).failedChild] at hch
        obtain ⟨a,ha,hne,hv⟩ := h.child c hc hch
        rw [← (ho (h.tree.suffix_mem hc ha hne)).failedValid] at hv
        exact ⟨a,ha,hne,hv⟩
    failedBlocks := by
      intro c hc
      rw [hf] at hc
      obtain ⟨hm,hv⟩ := h.failedBlocks c hc
      rw [hi,(ho hm).failedValid]
      exact ⟨mem_cons_of_mem b hm,hv⟩
    active := by
      have hcn : ∀ {q}, q <:+ s.tip → q≠[] → q∈s.index := fun hq hne =>
        h.tree.suffix_mem h.active.mem hq hne
      refine ⟨?_,?_,?_,?_⟩
      · rw [ht,hi]
        exact mem_cons_of_mem b h.active.mem
      · rw [ht]
        exact h.active.clean.of_marks fun q hq hne => (ho (hcn hq hne)).failed
      · rw [ht,(ho h.active.mem).nChainTx]
        exact h.active.linked
      · rw [ht]
        intro q hq hta
        have hne : q≠[] := by
          rintro rfl
          exact hta rfl
        rw [(ho (hcn hq hne)).valid]
        exact h.active.scripts q hq hta
    candidate_mem := by
      intro c hc
      rw [hca] at hc
      obtain ⟨hm,htx⟩ := h.candidate_mem c hc
      rw [hi,(ho hm).nChainTx]
      exact ⟨mem_cons_of_mem b hm,htx⟩
    candidate_tip := by
      intro c hc
      rw [hca] at hc
      rw [ht,hwo (h.candidate_mem c hc).1]
      exact h.candidate_tip c hc
    complete := by
      intro c hc htx hun hw
      rw [hi] at hc
      obtain rfl | hc := mem_cons.mp hc
      · exact absurd hn.nChainTx htx
      · rw [(ho hc).nChainTx] at htx
        rw [(ho hc).failed] at hun
        rw [ht,hwo hc] at hw
        rw [hca]
        exact h.complete c hc htx hun hw
    counter := by rw [hco]; exact h.counter}
end

lemma failedAncestor_spec {st : List B} (h : s.failedAncestor params b=some st) :
    st∈s.failedBlocks ∧ st <:+ b := by
  have hm := mem_of_best h
  rw [mem_filter,decide_eq_true_eq] at hm
  exact hm

/-- What AcceptBlockHeader can do: nothing, mark the branch above a failed block, or add the header.
-/
inductive HeaderOutcome (params : ChainParams B) (b : List B) (s : BlockIndexState B) :
    Bool×BlockIndexState B → Prop where
  | refused : HeaderOutcome params b s (false,s)
  | known (hb : b∈s.index) (hmark : s.failed b=false) : HeaderOutcome params b s (true,s)
  | marked {stop : List B} (hstop : stop∈s.failedBlocks) (hsuf : stop <:+ b.tail) :
      HeaderOutcome params b s (false,s.markFailedChild stop b.tail)
  | added (hb : b∉s.index) (hpar : b.tail∈s.index) (hmark : s.failed b.tail=false)
      (hfound : s.isValid b.tail blockValidScripts ∨
        s.failedAncestor params b.tail=none) :
      HeaderOutcome params b s (true,s.addToBlockIndex params b)

lemma acceptBlockHeader_outcome (checks : HeaderChecks) (hg : [params.genesis]∈s.index)
    (hma : s.failed [params.genesis]=false) :
    HeaderOutcome params b s (s.acceptBlockHeader params checks b) := by
  have ha : b∉s.index → b.tail∈s.index → s.failed b.tail=false →
      (s.isValid b.tail blockValidScripts ∨ s.failedAncestor params b.tail=none) →
      HeaderOutcome params b s
        (if checks.minPowChecked then (true,s.addToBlockIndex params b) else (false,s)) := by
    intro hb hpa hma hf
    split
    · exact .added hb hpa hma hf
    · exact .refused
  rw [acceptBlockHeader]
  split
  · rename_i he
    subst he
    rw [addToBlockIndex]
    split
    · exact .known hg hma
    · exact .refused
  · split
    · rename_i hb
      cases hm : s.failed b with
      | true => exact .refused
      | false => exact .known hb hm
    · rename_i hb
      split
      · exact .refused
      · split
        · exact .refused
        · rename_i hpa
          split
          · exact .refused
          · rename_i hm
            split
            · exact .refused
            · split
              · rename_i hs
                exact ha hb (not_not.mp hpa) (Bool.not_eq_true _ ▸ hm) (Or.inl hs)
              · split
                · rename_i st hst
                  obtain ⟨hme,hsu⟩ := failedAncestor_spec hst
                  exact .marked hme hsu
                · rename_i hn
                  exact ha hb (not_not.mp hpa) (Bool.not_eq_true _ ▸ hm) (Or.inr hn)

section
variable (h : Consistent params s)
include h

omit [DecidableEq B] in
lemma Consistent.genesis_unmarked : s.failed [params.genesis]=false :=
  (h.active.clean _ (h.tree.genesis_suffix h.active.mem) (cons_ne_nil _ _)).1

/-- AcceptBlockHeader keeps the invariant; an accepted header is an unmarked entry. -/
lemma Consistent.acceptBlockHeader (checks : HeaderChecks) :
    Consistent params (s.acceptBlockHeader params checks b).2 ∧
      ((s.acceptBlockHeader params checks b).1 →
        b∈(s.acceptBlockHeader params checks b).2.index ∧
          (s.acceptBlockHeader params checks b).2.failed b=false) := by
  have ho := acceptBlockHeader_outcome (b := b) checks h.tree.genesis h.genesis_unmarked
  generalize s.acceptBlockHeader params checks b=r at ho ⊢
  cases ho with
  | refused => exact ⟨h,fun hf => nomatch hf⟩
  | known hb hm => exact ⟨h,fun _ => ⟨hb,hm⟩⟩
  | marked hs hsu => exact ⟨h.markFailedChild hsu hs,fun hf => nomatch hf⟩
  | added hb hpa =>
    refine ⟨Consistent.addToBlockIndex h hb hpa,fun _ => ⟨?_,?_⟩⟩
    · rw [(addToBlockIndex_frame params hb).1]
      exact mem_cons_self
    · exact (addToBlockIndex_newEntry params hb).unmarked

omit [DecidableEq B] in
lemma Consistent.haveData_of_active (hb : b <:+ s.tip) (hn : b≠[]) : s.haveData b :=
  (h.recorded.data b (h.tree.suffix_mem h.active.mem hb hn)).mpr
    ((h.linked_iff h.active.mem).mp h.active.linked b hb hn)

/-- A block whose own checks fail is marked; it has no data, so it is on no linked branch. -/
lemma Consistent.setFailedValid (hd : s.haveData b=false) :
    Consistent params (s.setFailedValid b) where
  tree := h.tree
  recorded := h.recorded
  links := h.links
  counted := h.counted
  skips := h.skips
  child := h.child.setFailedValid b
  failedBlocks := by
    intro c hc
    obtain ⟨hm,hv⟩ := h.failedBlocks c hc
    exact ⟨hm,failedValid_setFailedValid.mpr (Or.inr hv)⟩
  active := by
    refine ⟨h.active.mem,h.active.clean.of_marks fun q hq hn => failed_setFailedValid ?_,
      h.active.linked,h.active.scripts⟩
    rintro rfl
    rw [h.haveData_of_active hq hn] at hd
    cases hd
  candidate_mem := h.candidate_mem
  candidate_tip := h.candidate_tip
  complete := by
    intro c hc ht hu hw
    refine h.complete c hc ht ?_ hw
    by_cases he : c=b
    · subst he
      rw [failed_setFailedValid_self] at hu
      cases hu
    · rw [← failed_setFailedValid he]
      exact hu
  counter := h.counter
end
section
variable {p : List B} {qu : List (List B)}

/- The count of a linked block is that of its parent and its own, as long as they fit. -/
lemma linkBlock_count (h : TxCounted params s.index s.nTx s.nChainTx s.haveData) (hp : p∈s.index)
    (hne : p≠[]) (hparent : p.tail≠[] → p.tail∈s.index) (hd : s.haveData p) :
    s.nTx p≤(s.linkBlock params p).nChainTx p ∧
      (s.linkBlock params p).nChainTx p≤params.branchTxs p := by
  have hsize := h.size p hp
  have hbound := h.bounded p hp hd
  have hsum : (if p.tail=[] then 0 else s.nChainTx p.tail)+s.nTx p≤params.branchTxs p := by
    cases p with
    | nil => exact absurd rfl hne
    | cons x prev =>
      rw [ChainParams.branchTxs,tail_cons]
      split
      · omega
      · rename_i ht
        have := h.branch prev (hparent ht)
        omega
  change s.nTx p≤update s.nChainTx p _ p ∧ update s.nChainTx p _ p≤_
  rw [update_self,Nat.mod_eq_of_lt (by omega)]
  exact ⟨Nat.le_add_left _ _,hsum⟩

lemma linkBlock_sameEntry (hc : c≠p) : SameEntry s (s.linkBlock params p) c := by
  constructor <;> simp [linkBlock,hc]

lemma mem_unlinkedUnder : c∈s.unlinkedUnder p ↔ c∈s.blocksUnlinked ∧ c.tail=p := by
  rw [unlinkedUnder,mem_filter,decide_eq_true_eq]

lemma mem_unlinkedElsewhere : c∈s.unlinkedElsewhere p ↔ c∈s.blocksUnlinked ∧ c.tail≠p := by
  rw [unlinkedElsewhere,mem_filter,Bool.not_eq_true',decide_eq_false_iff_not]

lemma linkBlock_links (h : Links (p::qu) s.index s.nTx s.nChainTx s.haveData s.blocksUnlinked)
    (hdt : ∀ c∈s.index, s.haveData c ↔ s.nTx c≠0) (hn : p≠[])
    (hl : (s.linkBlock params p).nChainTx p≠0) :
    Links (qu++s.unlinkedUnder p) s.index s.nTx (s.linkBlock params p).nChainTx s.haveData
      (s.unlinkedElsewhere p) := by
  obtain ⟨_,hpt,hpu,hpp⟩ := h.queued p mem_cons_self
  have ho : ∀ {c}, c≠p → (s.linkBlock params p).nChainTx c=s.nChainTx c := fun hc =>
    (linkBlock_sameEntry hc).nChainTx
  have hmo : ∀ c, s.nChainTx c≠0 → (s.linkBlock params p).nChainTx c≠0 := by
    intro c hc
    by_cases he : c=p
    · rw [he]
      exact hl
    · rw [ho he]
      exact hc
  obtain ⟨hpq,hr⟩ := nodup_cons.mp h.nodup
  refine ⟨?_,?_,?_,?_⟩
  · intro c hc hw
    by_cases he : c=p
    · subst he
      exact ⟨fun _ => ⟨hpt,fun ht => hmo _ (hpp ht)⟩,fun _ => hl⟩
    · have hcq : c∉p::qu := by
        rw [mem_cons,not_or]
        exact ⟨he,fun hq => hw (mem_append_left _ hq)⟩
      have hi := h.linked c hc hcq
      rw [ho he]
      by_cases ht : c.tail=p
      · -- `p` was not linked, so its child is not, and would wait if it had data
        have hu : s.nChainTx c=0 := by
          by_contra htx
          exact (hi.mp htx).2 (ht ▸ hn) (ht ▸ hpu)
        refine ⟨fun htx => absurd hu htx,fun hdo => absurd ?_ hw⟩
        exact mem_append_right _ (mem_unlinkedUnder.mpr
          ⟨(h.unlinked c).mpr ⟨hc,(hdt c hc).mpr hdo.1,hu,hcq⟩,ht⟩)
      · rw [hi,ho ht]
  · intro c hc
    obtain hq | hc := mem_append.mp hc
    · obtain ⟨hm,htx,hu,hpa⟩ := h.queued c (mem_cons_of_mem p hq)
      have hcp : c≠p := by
        rintro rfl
        exact hpq (mem_append_left _ hq)
      exact ⟨hm,htx,(ho hcp).trans hu,fun ht => hmo _ (hpa ht)⟩
    · obtain ⟨hc,ht⟩ := mem_unlinkedUnder.mp hc
      obtain ⟨hm,hd,hu,hcq⟩ := (h.unlinked c).mp hc
      have hcp : c≠p := fun he => hcq (he ▸ mem_cons_self)
      exact ⟨hm,(hdt c hm).mp hd,(ho hcp).trans hu,fun _ => ht ▸ hl⟩
  · intro c
    rw [mem_unlinkedElsewhere,h.unlinked c,mem_append,mem_unlinkedUnder,h.unlinked c,mem_cons]
    by_cases he : c=p
    · subst he
      simp [hl]
    · rw [ho he]
      tauto
  · have hpe : (s.unlinkedUnder p++s.unlinkedElsewhere p).Perm s.blocksUnlinked :=
      filter_append_perm _ _
    rw [append_assoc]
    exact (hpe.append_left qu).nodup_iff.mpr hr

lemma mem_linkBlock_candidates :
    c∈(s.linkBlock params p).setBlockIndexCandidates ↔ c∈s.setBlockIndexCandidates ∨
      c=p ∧ (s.linkBlock params p).sortsWorse params p s.tip=false := by
  have hc : (s.linkBlock params p).setBlockIndexCandidates=
      if (s.linkBlock params p).sortsWorse params p s.tip then s.setBlockIndexCandidates
      else s.setBlockIndexCandidates.insert p := rfl
  rw [hc]
  split
  · rename_i hw
    simp [hw]
  · rename_i hw
    rw [mem_insert_iff,Bool.not_eq_true] at *
    tauto

lemma ConsistentUpTo.linkBlock (h : ConsistentUpTo params (p::qu) s) :
    ConsistentUpTo params (qu++s.unlinkedUnder p) (s.linkBlock params p) := by
  obtain ⟨hp,hpt,hpu,_⟩ := h.links.queued p mem_cons_self
  have ht : s.tip≠p := fun he => h.active.linked (he ▸ hpu)
  have ho : ∀ {c}, c≠p → SameEntry s (s.linkBlock params p) c := fun hc =>
    linkBlock_sameEntry hc
  have hwo : ∀ {c}, c≠p →
      (s.linkBlock params p).sortsWorse params c s.tip=s.sortsWorse params c s.tip := fun hc =>
    (ho hc).sortsWorse (ho ht)
  have hca : p∉s.setBlockIndexCandidates := fun hc => (h.candidate_mem p hc).2 hpu
  have hcount := linkBlock_count h.counted hp (h.tree.ne_nil hp) (h.tree.parent p hp)
    ((h.recorded.data p hp).mpr hpt)
  have hch : (s.linkBlock params p).nChainTx p≠0 := by omega
  exact {
    tree := h.tree
    recorded := by
      refine ⟨h.recorded.data,h.recorded.undo,h.recorded.transactions,h.recorded.treeValid,
        h.recorded.scripts,fun c hc htx => ?_⟩
      have hcp : c≠p := fun he => hch (he ▸ htx)
      rw [(ho hcp).nSequenceId]
      rw [(ho hcp).nChainTx] at htx
      exact h.recorded.sequence c hc htx
    links := linkBlock_links h.links h.recorded.data (h.tree.ne_nil hp) hch
    counted := by
      refine ⟨h.counted.size,fun c hc => ?_,h.counted.bounded⟩
      by_cases he : c=p
      · rw [he]
        exact hcount.2
      · rw [(ho he).nChainTx]
        exact h.counted.branch c hc
    skips := h.skips
    child := h.child
    failedBlocks := h.failedBlocks
    active := by
      refine ⟨h.active.mem,h.active.clean,?_,h.active.scripts⟩
      change (s.linkBlock params p).nChainTx s.tip≠0
      rw [(ho ht).nChainTx]
      exact h.active.linked
    candidate_mem := by
      intro c hc
      obtain hc | ⟨rfl,_⟩ := mem_linkBlock_candidates.mp hc
      · obtain ⟨hm,htx⟩ := h.candidate_mem c hc
        rw [(ho (fun he => hca (he ▸ hc))).nChainTx]
        exact ⟨hm,htx⟩
      · exact ⟨hp,hch⟩
    candidate_tip := by
      intro c hc
      obtain hc | ⟨rfl,hw⟩ := mem_linkBlock_candidates.mp hc
      · have hcp : c≠p := fun he => hca (he ▸ hc)
        exact (hwo hcp).trans (h.candidate_tip c hc)
      · exact hw
    complete := by
      intro c hc htx hu hw
      refine mem_linkBlock_candidates.mpr ?_
      by_cases he : c=p
      · exact Or.inr ⟨he,he ▸ hw⟩
      · rw [(ho he).nChainTx] at htx
        exact Or.inl (h.complete c hc htx hu ((hwo he).symm.trans hw))
    counter := h.counter}

lemma ConsistentUpTo.linkQueue {qu : List (List B)} {s : BlockIndexState B}
    (h : ConsistentUpTo params qu s) : Consistent params (s.linkQueue params qu) := by
  fun_induction BlockIndexState.linkQueue params s qu with
  | case1 => exact h
  | case2 s p r ih => exact ih h.linkBlock
end

def dataStored (params : ChainParams B) (s : BlockIndexState B) (b : List B) : BlockIndexState B :=
  {s with
    nTx := update s.nTx b (params.vtxSize b)
    haveData := update s.haveData b true
    valid := update s.valid b blockValidTransactions}

lemma dataStored_of_ne (hc : c≠b) : (s.dataStored params b).nTx c=s.nTx c ∧
      (s.dataStored params b).haveData c=s.haveData c := by
  simp [BlockIndexState.dataStored,hc]

section
variable (h : Consistent params s) (hb : b∈s.index) (hda : s.haveData b=false)
include h hb hda

omit [DecidableEq B] in
lemma nTx_eq_zero_of_no_data : s.nTx b=0 := by
  by_contra ht
  rw [(h.recorded.data b hb).mpr ht] at hda
  cases hda

omit [DecidableEq B] in
lemma nChainTx_eq_zero_of_no_data : s.nChainTx b=0 := by
  by_contra ht
  exact ((h.linked hb).mp ht).1 (nTx_eq_zero_of_no_data h hb hda)

omit [DecidableEq B] hb in
lemma not_mem_unlinked_of_no_data : b∉s.blocksUnlinked := by
  intro hm
  rw [((h.links.unlinked b).mp hm).2.1] at hda
  cases hda

/-- What ReceivedBlockTransactions first records for an unmarked block. -/
lemma receivedBlockTransactions_eq (hm : s.failed b=false) : s.receivedBlockTransactions params b=
      if b.tail=[] ∨ s.haveTxsDownloaded b.tail then (s.dataStored params b).linkQueue params [b]
      else if s.isValid b.tail blockValidTree then
        {s.dataStored params b with blocksUnlinked := s.blocksUnlinked++[b]}
      else s.dataStored params b := by
  have hc : update s.nChainTx b 0=s.nChainTx := by
    rw [← nChainTx_eq_zero_of_no_data h hb hda]
    exact update_eq_self b s.nChainTx
  have hl : s.valid b<blockValidTransactions := by
    by_contra hg
    exact (h.recorded.transactions b hb).mp (Nat.not_lt.mp hg) (nTx_eq_zero_of_no_data h hb hda)
  have hs : raiseValidity {s with
      nTx := update s.nTx b (params.vtxSize b)
      nChainTx := update s.nChainTx b 0
      haveData := update s.haveData b true} b blockValidTransactions=
      s.dataStored params b := by
    rw [failed] at hm
    simp only [raiseValidity,failed,hm,hl,hc,Bool.false_eq_true,if_false,if_true]
    rfl
  have ht : b.tail≠b := fun he => by
    have hle := congrArg length he
    have hp := length_pos_iff.mpr (h.tree.ne_nil hb)
    rw [length_tail] at hle
    omega
  have hi : (s.dataStored params b).isValid b.tail blockValidTree=
      s.isValid b.tail blockValidTree := by
    simp only [isValid,failed,dataStored,update_of_ne ht]
  simp only [receivedBlockTransactions,hs,hi]
  rfl

lemma dataStored_recorded : DataRecorded s.index (s.dataStored params b).nTx
    s.nChainTx s.nSequenceId
      (s.dataStored params b).valid (s.dataStored params b).haveData s.haveUndo := by
  have hs : params.vtxSize b≠0 := Nat.pos_iff_ne_zero.mp (params.vtxSize_pos b)
  have hl : s.valid b<blockValidTransactions := by
    by_contra hge
    exact (h.recorded.transactions b hb).mp (Nat.not_lt.mp hge) (nTx_eq_zero_of_no_data h hb hda)
  have hm : ∀ c, s.valid c≤(s.dataStored params b).valid c := by
    intro c
    simp only [dataStored]
    by_cases he : c=b
    · rw [he,update_self]
      exact hl.le
    · rw [update_of_ne he]
  refine ⟨?_,?_,?_,fun c hc => (h.recorded.treeValid c hc).trans (hm c),?_,h.recorded.sequence⟩
  · intro c hc
    by_cases he : c=b
    · simp [dataStored,he,hs]
    · simpa [dataStored,he] using h.recorded.data c hc
  · intro c hc hu
    by_cases he : c=b
    · simp [dataStored,he]
    · simpa [dataStored,he] using h.recorded.undo c hc hu
  · intro c hc
    by_cases he : c=b
    · simp [dataStored,he,hs]
    · simpa [dataStored,he] using h.recorded.transactions c hc
  · intro c hc hv hg
    refine le_trans ?_ (hm c.tail)
    by_cases he : c=b
    · simp only [dataStored,he,update_self] at hv
      exact absurd hv (by decide)
    · exact h.recorded.scripts c hc (by simpa [dataStored,he] using hv) hg

omit hb hda in
lemma dataStored_counted (hfit : params.branchTxs b<2^32) :
    TxCounted params s.index (s.dataStored params b).nTx s.nChainTx
      (s.dataStored params b).haveData := by
  refine ⟨fun c hc => ?_,h.counted.branch,fun c hc hd => ?_⟩
  · by_cases he : c=b
    · simp [dataStored,he]
    · rw [(dataStored_of_ne he).1]
      exact h.counted.size c hc
  · by_cases he : c=b
    · rw [he]
      exact hfit
    · rw [(dataStored_of_ne he).2] at hd
      exact h.counted.bounded c hc hd

lemma Consistent.dataStored {qe bu : List (List B)} (hfit : params.branchTxs b<2^32)
    (hl : Links qe s.index (s.dataStored params b).nTx s.nChainTx
      (s.dataStored params b).haveData bu) :
    ConsistentUpTo params qe
      {s.dataStored params b with blocksUnlinked := bu} where
  tree := h.tree
  recorded := dataStored_recorded h hb hda
  links := hl
  counted := dataStored_counted h hfit
  skips := h.skips
  child := h.child
  failedBlocks := h.failedBlocks
  active := by
    refine ⟨h.active.mem,h.active.clean,h.active.linked,fun q hq ht => ?_⟩
    have hqn : q≠[] := by
      rintro rfl
      exact ht rfl
    have hn : q≠b := by
      rintro rfl
      rw [h.haveData_of_active hq hqn] at hda
      cases hda
    change blockValidScripts≤update s.valid b _ q
    rw [update_of_ne hn]
    exact h.active.scripts q hq ht
  candidate_mem := h.candidate_mem
  candidate_tip := h.candidate_tip
  complete := h.complete
  counter := h.counter

lemma dataStored_links_queued (hpa : b.tail≠[] → s.nChainTx b.tail≠0) :
    Links [b] s.index (s.dataStored params b).nTx s.nChainTx (s.dataStored params b).haveData
      s.blocksUnlinked := by
  have hw := not_mem_unlinked_of_no_data h hda
  refine ⟨?_,?_,?_,?_⟩
  · intro c hc hcb
    rw [(dataStored_of_ne (fun he => hcb (by simp [he]))).1]
    exact h.linked hc
  · intro c hc
    rw [mem_singleton.mp hc]
    refine ⟨hb,?_,nChainTx_eq_zero_of_no_data h hb hda,hpa⟩
    simpa [BlockIndexState.dataStored] using Nat.pos_iff_ne_zero.mp (params.vtxSize_pos b)
  · intro c
    by_cases he : c=b
    · simp [he,hw]
    · rw [h.links.unlinked c,(dataStored_of_ne he).2]
      simp [he]
  · exact nodup_cons.mpr ⟨hw,h.links.nodup⟩

lemma dataStored_links_unlinked (ht : b.tail≠[]) (hpa : s.nChainTx b.tail=0) :
    Links [] s.index (s.dataStored params b).nTx s.nChainTx (s.dataStored params b).haveData
      (s.blocksUnlinked++[b]) := by
  have hw := not_mem_unlinked_of_no_data h hda
  have hch := nChainTx_eq_zero_of_no_data h hb hda
  refine ⟨?_,fun c hc => absurd hc not_mem_nil,?_,?_⟩
  · intro c hc _
    by_cases he : c=b
    · subst he
      exact ⟨fun htx => absurd hch htx,fun hdo => absurd hpa (hdo.2 ht)⟩
    · rw [(dataStored_of_ne he).1]
      exact h.linked hc
  · intro c
    rw [mem_append,mem_singleton,h.links.unlinked c]
    by_cases he : c=b
    · subst he
      simp [hb,hch,BlockIndexState.dataStored]
    · rw [(dataStored_of_ne he).2]
      simp [he]
  · rw [nil_append,nodup_append]
    refine ⟨h.links.nodup,by simp,fun c hc d hd => ?_⟩
    rw [mem_singleton.mp hd]
    exact fun he => hw (he ▸ hc)

/-- ReceivedBlockTransactions keeps the invariant for an unmarked block without data, unless
its parent waits for data and is marked, or the transactions of its branch cannot be counted. -/
lemma Consistent.receivedBlockTransactions (hm : s.failed b=false) (hfit : params.branchTxs b<2^32)
    (hpa : b.tail≠[] → s.nChainTx b.tail=0 → s.failed b.tail=false) :
    Consistent params (s.receivedBlockTransactions params b) := by
  rw [receivedBlockTransactions_eq h hb hda hm]
  split
  · rename_i hl
    refine ConsistentUpTo.linkQueue (Consistent.dataStored h hb hda hfit
      (dataStored_links_queued h hb hda fun ht => ?_))
    obtain hr | hl := hl
    · exact absurd hr ht
    · simpa [haveTxsDownloaded] using hl
  · rename_i hu
    rw [not_or] at hu
    have htx : s.nChainTx b.tail=0 := by simpa [haveTxsDownloaded] using hu.2
    have hv : s.isValid b.tail blockValidTree := by
      have htr := h.recorded.treeValid b.tail (h.tree.parent b hb hu.1)
      simp [isValid,hpa hu.1 htx,htr]
    rw [if_pos hv]
    exact Consistent.dataStored h hb hda hfit (dataStored_links_unlinked h hb hda hu.1 htx)
end

lemma Consistent.storeBlock (h : Consistent params s) (ch : BlockChecks) (hb : b∈s.index)
    (hm : s.failed b=false)
    (hfit : s.haveData b=false → ch.check=.ok → params.branchTxs b<2^32)
    (hpa : s.haveData b=false → ch.check=.ok → s.nChainTx b.tail=0 → s.failed b.tail=false) :
    Consistent params (s.storeBlock params ch b) := by
  rw [BlockIndexState.storeBlock]
  split
  · exact h
  · rename_i hd
    rw [Bool.not_eq_true] at hd
    split
    · exact h
    · split
      · exact h.setFailedValid hd
      · exact h
      · rename_i ho
        split
        · exact Consistent.receivedBlockTransactions h hb hd hm (hfit hd ho) fun _ => hpa hd ho
        · exact h

/-- AcceptBlock keeps the invariant, unless it stores a block whose parent waits for data and
is marked, or one whose branch has too many transactions. -/
lemma Consistent.acceptBlock (h : Consistent params s) (ch : BlockChecks)
    (hfit : ¬(b∈s.index ∧ s.haveData b) → ch.check=.ok → params.branchTxs b<2^32)
    (hpa : s.haveData b=false → ch.check=.ok → s.nChainTx b.tail=0 → s.failed b.tail=false) :
    Consistent params (s.acceptBlock params ch b) := by
  have ho := acceptBlockHeader_outcome (b := b) ch.toHeaderChecks h.tree.genesis h.genesis_unmarked
  rw [BlockIndexState.acceptBlock]
  generalize s.acceptBlockHeader params ch.toHeaderChecks b=r at ho ⊢
  cases ho with
  | refused => exact h
  | known hb hm =>
    exact h.storeBlock ch hb hm (fun hd => hfit (by simp [hd])) hpa
  | marked hs hsu => exact h.markFailedChild hsu hs
  | added hb hp hm =>
    refine (Consistent.addToBlockIndex h hb hp).storeBlock ch ?_
      (addToBlockIndex_newEntry params hb).unmarked (fun _ ho => ?_) fun _ _ _ => ?_
    · rw [(addToBlockIndex_frame params hb).1]
      exact mem_cons_self
    · exact hfit (fun hk => hb hk.1) ho
    · rw [(addToBlockIndex_sameEntry params hb hp).failed]
      exact hm
end BlockIndexState
end Xero
