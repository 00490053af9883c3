import Xero.ChainSelection

/-! What activating the best chain can do to the block index, move by move, and the invariant of the
candidates that every move keeps. -/
namespace Xero
open Library List Function Bool
variable {B : Type}

/-- The index as AddToBlockIndex builds it. -/
structure IndexTree (params : ChainParams B) (index : List (List B))
    (nHeight nChainWork : List B → Nat) : Prop where
  nodup : index.Nodup
  genesis : [params.genesis]∈index
  root : ∀ b∈index, b.tail=[] → b=[params.genesis]
  parent : ∀ b∈index, b.tail≠[] → b.tail∈index
  height : ∀ b∈index, nHeight b+1=b.length
  work : ∀ b∈index, b.tail≠[] → nChainWork b=nChainWork b.tail+params.blockProof b

namespace IndexTree
variable {ps : ChainParams B} {ie : List (List B)} {nH ncw : List B → Nat}
variable {b q : List B}
section
variable (h : IndexTree ps ie nH ncw) (hb : b∈ie)
include h hb

lemma ne_nil : b≠[] := by
  rintro rfl
  cases h.root [] hb rfl

lemma suffix_mem (hq : q <:+ b) (hn : q≠[]) : q∈ie :=
  of_suffix (P := fun c => c∈ie) (fun c hc hn => h.parent c hc hn) hb hq hn

lemma genesis_suffix : [ps.genesis] <:+ b := by
  induction b with
  | nil => exact absurd rfl (h.ne_nil hb)
  | cons x p ih =>
    by_cases hp : p=[]
    · rw [h.root _ hb hp]
    · exact (ih (h.parent _ hb hp)).trans (suffix_cons x p)

lemma work_lt (hq : q <:+ b) (hn : q≠[]) (hqb : q≠b) : ncw q<ncw b := by
  induction b with
  | nil => exact absurd rfl (h.ne_nil hb)
  | cons x p ih =>
    have hq' := tail_suffix_of_ne hq hqb
    have hp : p≠[] := by
      rintro rfl
      exact hn (suffix_nil.mp hq')
    have hw := h.work _ hb hp
    have hpo := ps.blockProof_pos (x::p)
    rw [tail_cons] at hw hq'
    by_cases heq : q=p
    · subst heq
      omega
    · have hl := ih (h.parent _ hb hp) hq' heq
      omega
end
end IndexTree
namespace BlockIndexState
variable {b a : List B} {params : ChainParams B}

lemma workComparator_eq_true {n : List B → Nat} {sequence : List B → Int} :
    workComparator params n sequence a b ↔
      n a<n b ∨ n a=n b ∧
        (sequence b < sequence a ∨ sequence a=sequence b ∧
          params.address b<params.address a) := by
  simp only [workComparator]
  split_ifs <;> simp only [true_iff,false_iff] <;> omega

lemma workComparator_ranking (params : ChainParams B) (n : List B → Nat)
    (sequence : List B → Int) : Ranking (workComparator params n sequence) where
  irrefl a := by simp [workComparator]
  trans a b c hab hbc := by
    rw [workComparator_eq_true] at hab hbc ⊢
    omega
  total a b hn := by
    have ha : params.address a≠params.address b := fun h => hn (params.address_inj h)
    rw [workComparator_eq_true,workComparator_eq_true]
    omega

lemma sortsWorse_ranking (params : ChainParams B) (s : BlockIndexState B) :
    Ranking (s.sortsWorse params) :=
  workComparator_ranking params s.nChainWork s.nSequenceId

variable {s : BlockIndexState B}

lemma sortsWorse_of_work_lt (h : s.nChainWork a < s.nChainWork b) : s.sortsWorse params a b :=
  workComparator_eq_true.mpr (Or.inl h)

lemma work_le_of_not_sortsWorse
    (h : s.sortsWorse params a b=false) : s.nChainWork b ≤ s.nChainWork a := by
  by_contra hl
  rw [sortsWorse_of_work_lt (by omega)] at h
  cases h

/-- No block on the branch is marked, and ConnectBlock accepts every block above genesis. -/
def Clean (params : ChainParams B) (s : BlockIndexState B) (b : List B) : Prop :=
  ∀ q, q <:+ b → q≠[] → s.failed q=false ∧ (q.tail≠[] → params.connects q)

lemma Clean.suffix (h : Clean params s b) (ha : a <:+ b) : Clean params s a :=
  fun q hq hn => h q (hq.trans ha) hn

lemma Clean.of_marks {s' : BlockIndexState B}
    (h : Clean params s b) (hm : ∀ q, q <:+ b → q≠[] → s'.failed q=s.failed q) :
    Clean params s' b := by
  intro q hq hn
  rw [hm q hq hn]
  exact h q hq hn

/-- A block is marked as a failed one's child only on a branch with one. -/
def ChildMarks (s : BlockIndexState B) : Prop :=
  ∀ b∈s.index, s.failedChild b → ∃ a, a <:+ b ∧ a≠[] ∧ s.failedValid a

/-- Which blocks have to be candidates once their data is there: a property that marks can only take
away, and take from the block they are on. -/
structure Eligibility (eligible : BlockIndexState B → List B → Prop) : Prop where
  antitone : ∀ {s s' b}, eligible s' b → (∀ q, s.failedValid q → s'.failedValid q) →
    (∀ q, s.failedChild q → s'.failedChild q) → eligible s b
  unmarked : ∀ s b, ChildMarks s → b∈s.index → eligible s b → s.failed b=false
  clean : ∀ params s b, b≠[] → Clean params s b → eligible s b

/-- The candidates while the best chain is looked for: what is at least as good as `floor`, the best
tip so far. -/
structure Selecting (params : ChainParams B) (eligible : BlockIndexState B → List B → Prop)
    (floor : List B) (s : BlockIndexState B) : Prop where
  tree : IndexTree params s.index s.nHeight s.nChainWork
  linked : ∀ b∈s.index, s.nChainTx b≠0 →
    s.haveData b ∧ (b.tail≠[] → s.nChainTx b.tail≠0)
  child : ChildMarks s
  tip_mem : s.tip∈s.index
  tip_clean : Clean params s s.tip
  floor_mem : floor∈s.index
  floor_linked : s.nChainTx floor≠0
  floor_clean : Clean params s floor
  candidate_mem : ∀ c∈s.setBlockIndexCandidates, c∈s.index ∧ s.nChainTx c≠0
  candidate_floor : ∀ c∈s.setBlockIndexCandidates, s.sortsWorse params c floor=false
  complete : ∀ b∈s.index, s.nChainTx b≠0 → eligible s b → s.sortsWorse params b floor=false →
    b∈s.setBlockIndexCandidates
  tip_floor : s.tip=floor ∨ s.sortsWorse params s.tip floor

variable {el : BlockIndexState B → List B → Prop}

lemma Selecting.linked_suffix {floor : List B} (h : Selecting params el floor s) {q : List B}
    (hb : b∈s.index) (hl : s.nChainTx b≠0) (hq : q <:+ b) (hn : q≠[]) : q∈s.index ∧
    s.nChainTx q≠0 :=
  of_suffix (P := fun c => c∈s.index ∧ s.nChainTx c≠0)
    (fun c hc hn => ⟨h.tree.parent c hc.1 hn,(h.linked c hc.1 hc.2).2 hn⟩)
    ⟨hb,hl⟩ hq hn

lemma Selecting.floor_candidate (he : Eligibility el) {floor : List B}
    (h : Selecting params el floor s) : floor∈s.setBlockIndexCandidates :=
  h.complete floor h.floor_mem h.floor_linked
    (he.clean params s floor (h.tree.ne_nil h.floor_mem) h.floor_clean)
    ((sortsWorse_ranking params s).irrefl floor)

variable [DecidableEq B]

/- The state that FindMostWorkChain leaves when it drops a branch above a marked block. -/
def branchDropped (test new : List B) (bestInvalid : Option (List B)) (s : BlockIndexState B) :
    BlockIndexState B :=
  {s with
    bestInvalid := bestInvalid
    setBlockIndexCandidates :=
      s.setBlockIndexCandidates.filter (fun c => !decide (test <:+ c ∧ c <:+ new))
    failedChild := fun c => s.failedChild c || decide (Above test new c)}

lemma dropUnusable_eq {t new : List B} (hs : t <:+ new) (hf : s.failed t) :
    ∃ bestInvalid, s.dropUnusable t new=s.branchDropped t new bestInvalid := by
  have hc := dropUnusable_candidates hs s
  simp only [dropUnusable,hf,dropBranch_eq hs,eraseCandidate] at hc ⊢
  rw [hc]
  exact ⟨_,rfl⟩

inductive ChainMove (params : ChainParams B) : BlockIndexState B → BlockIndexState B → Prop where
  | drop {s : BlockIndexState B} {new test : List B} (hnew : new∈s.setBlockIndexCandidates)
      (hsuf : test <:+ new) (hne : test≠[]) (hfailed : s.failed test) :
      ChainMove params s (s.dropUnusable test new)
  | disconnect {s : BlockIndexState B} {fork : List B} (hfork : fork <:+ s.tip) (hne : fork≠[]) :
      ChainMove params s {s with tip := fork}
  | connect {s : BlockIndexState B} {b : List B} (hb : b∈s.index) (htip : b.tail=s.tip)
      (hlinked : s.nChainTx b≠0) (hmark : s.failed b=false) (hvalid : params.connects b) :
      ChainMove params s ((s.tipConnected b).withoutWorse params)
  | reject {s : BlockIndexState B} {b front : List B} (hb : b∈s.index) (htip : b.tail=s.tip)
      (hlinked : s.nChainTx b≠0) (hmark : s.failed b=false) (hinvalid : params.connects b=false)
      (hfront : b <:+ front) :
      ChainMove params s ((s.invalidBlockFound b).invalidChainFound front)

variable {params : ChainParams B} {el : BlockIndexState B → List B → Prop}
variable {floor : List B} {s s' : BlockIndexState B}

omit [DecidableEq B] in
lemma Clean.not_marked (h : Clean params s b) (hn : a≠[]) (hf : s.failed a) : ¬a <:+ b := by
  intro ha
  rw [(h a ha hn).1] at hf
  cases hf

omit [DecidableEq B] in
lemma ChildMarks.exists_failedValid (h : ChildMarks s) (hb : b∈s.index)
    (hn : b≠[]) (hf : s.failed b) : ∃ a, a <:+ b ∧ a≠[] ∧ s.failedValid a := by
  obtain hv | hc := or_eq_true_iff.mp hf
  · exact ⟨b,suffix_rfl,hn,hv⟩
  · exact h b hb hc

/-- Nothing recorded with the data of the blocks has changed. -/
structure SameData (s s' : BlockIndexState B) : Prop where
  index : s'.index=s.index
  nHeight : s'.nHeight=s.nHeight
  nChainWork : s'.nChainWork=s.nChainWork
  nTx : s'.nTx=s.nTx
  nChainTx : s'.nChainTx=s.nChainTx
  nSequenceId : s'.nSequenceId=s.nSequenceId
  haveData : s'.haveData=s.haveData
  blocksUnlinked : s'.blocksUnlinked=s.blocksUnlinked
  nBlockReverseSequenceId : s'.nBlockReverseSequenceId=s.nBlockReverseSequenceId

omit [DecidableEq B] in
lemma SameData.trans {s'' : BlockIndexState B} (h : SameData s s') (h' : SameData s' s'') :
    SameData s s'' where
  index := h'.index.trans h.index
  nHeight := h'.nHeight.trans h.nHeight
  nChainWork := h'.nChainWork.trans h.nChainWork
  nTx := h'.nTx.trans h.nTx
  nChainTx := h'.nChainTx.trans h.nChainTx
  nSequenceId := h'.nSequenceId.trans h.nSequenceId
  haveData := h'.haveData.trans h.haveData
  blocksUnlinked := h'.blocksUnlinked.trans h.blocksUnlinked
  nBlockReverseSequenceId := h'.nBlockReverseSequenceId.trans h.nBlockReverseSequenceId

omit [DecidableEq B] in
lemma SameData.sortsWorse (h : SameData s s') : s'.sortsWorse params=s.sortsWorse params := by
  simp only [BlockIndexState.sortsWorse,h.nChainWork,h.nSequenceId]

lemma ChainMove.sameData (hm : ChainMove params s s') : SameData s s' := by
  cases hm with
  | drop hn hs hne hf =>
    obtain ⟨_,heq⟩ := dropUnusable_eq hs hf
    rw [heq]
    exact ⟨rfl,rfl,rfl,rfl,rfl,rfl,rfl,rfl,rfl⟩
  | disconnect => exact ⟨rfl,rfl,rfl,rfl,rfl,rfl,rfl,rfl,rfl⟩
  | connect => exact ⟨rfl,rfl,rfl,rfl,rfl,rfl,rfl,rfl,rfl⟩
  | reject => exact ⟨rfl,rfl,rfl,rfl,rfl,rfl,rfl,rfl,rfl⟩

omit [DecidableEq B] in
/-- New marks that spare the clean branches keep the invariant, as long as a candidate that
is lost carries a mark. -/
lemma Selecting.of_marks (he : Eligibility el) (h : Selecting params el floor s)
    (hs : SameData s s') (ht : s'.tip=s.tip) (hv : ∀ q, s.failedValid q → s'.failedValid q)
    (hch : ∀ q, s.failedChild q → s'.failedChild q)
    (hcl : ∀ b, Clean params s b → Clean params s' b)
    (hm : ChildMarks s') (hk : ∀ c∈s'.setBlockIndexCandidates, c∈s.setBlockIndexCandidates)
    (hlo : ∀ c∈s.setBlockIndexCandidates, s'.failed c=false → c∈s'.setBlockIndexCandidates) :
    Selecting params el floor s' where
  tree := by
    rw [hs.index,hs.nHeight,hs.nChainWork]
    exact h.tree
  linked := by
    rw [hs.index,hs.nChainTx,hs.haveData]
    exact h.linked
  child := hm
  tip_mem := by
    rw [ht,hs.index]
    exact h.tip_mem
  tip_clean := by
    rw [ht]
    exact hcl s.tip h.tip_clean
  floor_mem := by
    rw [hs.index]
    exact h.floor_mem
  floor_linked := by
    rw [hs.nChainTx]
    exact h.floor_linked
  floor_clean := hcl floor h.floor_clean
  candidate_mem := by
    rw [hs.index,hs.nChainTx]
    exact fun c hc => h.candidate_mem c (hk c hc)
  candidate_floor := by
    rw [hs.sortsWorse]
    exact fun c hc => h.candidate_floor c (hk c hc)
  complete := by
    intro b hb hl hel hf
    have hu := he.unmarked s' b hm hb hel
    rw [hs.index] at hb
    rw [hs.nChainTx] at hl
    rw [hs.sortsWorse] at hf
    exact hlo b (h.complete b hb hl (he.antitone hel hv hch) hf) hu
  tip_floor := by
    rw [ht,hs.sortsWorse]
    exact h.tip_floor

lemma Selecting.drop (he : Eligibility el) (h : Selecting params el floor s) {new t : List B}
    (hn : new∈s.setBlockIndexCandidates) (hs : t <:+ new) (hne : t≠[]) (hf : s.failed t) :
    Selecting params el floor (s.dropUnusable t new) := by
  have hm : ChainMove params s (s.dropUnusable t new) := .drop hn hs hne hf
  have hsa := hm.sameData
  obtain ⟨_,heq⟩ := dropUnusable_eq hs hf
  rw [heq] at hsa ⊢
  refine h.of_marks he hsa rfl (fun _ hq => hq)
    (fun q hq => by simp only [branchDropped,hq,Bool.true_or]) ?_ ?_
    (fun c hc => mem_of_mem_filter hc) ?_
  · intro b hb
    refine hb.of_marks fun q hq _ => ?_
    have hab : ¬Above t new q := by
      rintro ⟨ht,_⟩
      exact hb.not_marked hne hf (ht.trans hq)
    simp only [branchDropped,failed,decide_eq_false hab,Bool.or_false]
  · intro b hb hc
    obtain hc | hc := or_eq_true_iff.mp hc
    · exact h.child b hb hc
    · have hab : Above t new b := of_decide_eq_true hc
      have ht := h.tree.suffix_mem (h.candidate_mem new hn).1 hs hne
      obtain ⟨a,ha,han,hv⟩ := h.child.exists_failedValid ht hne hf
      exact ⟨a,ha.trans hab.1,han,hv⟩
  · intro c hc hu
    simp only [branchDropped,failed,or_eq_false_iff,decide_eq_false_iff_not] at hu
    refine mem_filter.mpr ⟨hc,?_⟩
    simp only [not_eq_true',decide_eq_false_iff_not]
    rintro ⟨ht,hcn⟩
    by_cases heq : c=t
    · subst heq
      rw [failed,hu.1,hu.2.1] at hf
      cases hf
    · exact hu.2.2 ⟨ht,heq,hcn⟩

omit [DecidableEq B] in
lemma suffix_eq_or_sortsWorse (h : IndexTree params s.index s.nHeight s.nChainWork)
    (hb : b∈s.index) (ha : a <:+ b) (hn : a≠[]) : a=b ∨ s.sortsWorse params a b := by
  by_cases heq : a=b
  · exact Or.inl heq
  · exact Or.inr (sortsWorse_of_work_lt (h.work_lt hb ha hn heq))

omit [DecidableEq B] in
lemma Selecting.disconnect (he : Eligibility el) (h : Selecting params el floor s)
    {f : List B} (hf : f <:+ s.tip) (hn : f≠[]) : Selecting params el floor {s with tip := f} where
  tree := h.tree
  linked := h.linked
  child := h.child
  tip_mem := h.tree.suffix_mem h.tip_mem hf hn
  tip_clean := h.tip_clean.suffix hf
  floor_mem := h.floor_mem
  floor_linked := h.floor_linked
  floor_clean := h.floor_clean
  candidate_mem := h.candidate_mem
  candidate_floor := h.candidate_floor
  complete := fun b hb hl hel hfl =>
    h.complete b hb hl (he.antitone hel (fun _ hq => hq) (fun _ hq => hq)) hfl
  tip_floor := by
    obtain rfl | hw := suffix_eq_or_sortsWorse h.tree h.tip_mem hf hn
    · exact h.tip_floor
    · refine Or.inr ?_
      obtain heq | ht := h.tip_floor
      · rw [heq] at hw
        exact hw
      · exact (sortsWorse_ranking params s).trans _ _ _ hw ht

/-- The better of the floor and a newly connected tip. -/
def raisedFloor (params : ChainParams B) (s : BlockIndexState B) (floor b : List B) : List B :=
  if s.sortsWorse params floor b then b else floor

omit [DecidableEq B] in
lemma raisedFloor_eq_or (params : ChainParams B) (s : BlockIndexState B) (floor b : List B) :
    raisedFloor params s floor b=b ∨ raisedFloor params s floor b=floor := by
  rw [raisedFloor]
  split
  · exact Or.inl rfl
  · exact Or.inr rfl

omit [DecidableEq B] in
lemma not_sortsWorse_raisedFloor {c : List B} :
    s.sortsWorse params c (raisedFloor params s floor b)=false ↔
      s.sortsWorse params c floor=false ∧ s.sortsWorse params c b=false := by
  have hr := sortsWorse_ranking params s
  rw [raisedFloor]
  split
  · rename_i hw
    exact ⟨fun hc => ⟨hr.not_worse_trans hc (hr.asymm hw),hc⟩,fun hc => hc.2⟩
  · rename_i hw
    exact ⟨fun hc => ⟨hc,hr.not_worse_trans hc (not_eq_true _ ▸ hw)⟩,fun hc => hc.1⟩

omit [DecidableEq B] in
lemma eq_raisedFloor_or (params : ChainParams B) (s : BlockIndexState B) (floor b : List B) :
    b=raisedFloor params s floor b ∨ s.sortsWorse params b (raisedFloor params s floor b) := by
  have hr := sortsWorse_ranking params s
  by_cases heq : b=raisedFloor params s floor b
  · exact Or.inl heq
  · have hs := not_sortsWorse_raisedFloor.mp (hr.irrefl (raisedFloor params s floor b))
    exact Or.inr (hr.worse_of_not_worse (Ne.symm heq) hs.2)

lemma Selecting.connect (he : Eligibility el) (h : Selecting params el floor s) (hb : b∈s.index)
    (ht : b.tail=s.tip) (hl : s.nChainTx b≠0) (hm : s.failed b=false) (hv : params.connects b) :
    Selecting params el (raisedFloor params s floor b)
      ((s.tipConnected b).withoutWorse params) := by
  have hcl : Clean params s b := by
    intro q hq hn
    by_cases heq : q=b
    · subst heq
      exact ⟨hm,fun _ => hv⟩
    · exact h.tip_clean q (ht ▸ tail_suffix_of_ne hq heq) hn
  have hca : ∀ c, c∈((s.tipConnected b).withoutWorse params).setBlockIndexCandidates ↔
      c∈s.setBlockIndexCandidates ∧ s.sortsWorse params c b=false := by
    intro c
    rw [withoutWorse,mem_filter,not_eq_true']
    rfl
  have hf : raisedFloor params s floor b∈s.index ∧ s.nChainTx (raisedFloor params s floor b)≠0 ∧
      Clean params s (raisedFloor params s floor b) := by
    obtain heq | heq := raisedFloor_eq_or params s floor b
    · rw [heq]
      exact ⟨hb,hl,hcl⟩
    · rw [heq]
      exact ⟨h.floor_mem,h.floor_linked,h.floor_clean⟩
  exact {
    tree := h.tree
    linked := h.linked
    child := h.child
    tip_mem := hb
    tip_clean := hcl
    floor_mem := hf.1
    floor_linked := hf.2.1
    floor_clean := hf.2.2
    candidate_mem := fun c hc => h.candidate_mem c ((hca c).mp hc).1
    candidate_floor := fun c hc => not_sortsWorse_raisedFloor.mpr
      ⟨h.candidate_floor c ((hca c).mp hc).1,((hca c).mp hc).2⟩
    complete := fun c hc hli hel hw => by
      have hw' := not_sortsWorse_raisedFloor.mp hw
      have hel' : el s c := he.antitone hel (fun _ hq => hq) (fun _ hq => hq)
      exact (hca c).mpr ⟨h.complete c hc hli hel' hw'.1,hw'.2⟩
    tip_floor := eq_raisedFloor_or params s floor b}

lemma failedValid_setFailedValid {q : List B} :
    (s.setFailedValid b).failedValid q ↔ q=b ∨ s.failedValid q := by
  change update s.failedValid b true q ↔ _
  by_cases heq : q=b
  · simp [heq]
  · simp [heq]

lemma failedBlocks_setFailedValid (hb : b∈s.index)
    (h : ∀ c∈s.failedBlocks, c∈s.index ∧ s.failedValid c) :
    ∀ c∈s.failedBlocks.insert b, c∈s.index ∧ (s.setFailedValid b).failedValid c := by
  intro c hc
  obtain rfl | hc := mem_insert_iff.mp hc
  · exact ⟨hb,failedValid_setFailedValid.mpr (.inl rfl)⟩
  · obtain ⟨hm,hv⟩ := h c hc
    exact ⟨hm,failedValid_setFailedValid.mpr (.inr hv)⟩

lemma failed_setFailedValid {q : List B} (hn : q≠b) : (s.setFailedValid b).failed q=s.failed q := by
  change (update s.failedValid b true q || s.failedChild q)=_
  rw [update_of_ne hn,failed]

lemma failed_setFailedValid_self (s : BlockIndexState B) (b : List B) :
    (s.setFailedValid b).failed b :=
  or_eq_true_iff.mpr (Or.inl (failedValid_setFailedValid.mpr (Or.inl rfl)))

lemma ChildMarks.setFailedValid (h : ChildMarks s) (b : List B) :
    ChildMarks (s.setFailedValid b) := by
  intro c hc hch
  obtain ⟨a,ha,hn,hv⟩ := h c hc hch
  exact ⟨a,ha,hn,failedValid_setFailedValid.mpr (Or.inr hv)⟩

section
variable (he : Eligibility el) (h : Selecting params el floor s)
include he h

lemma Selecting.reject {f : List B} (hb : b∈s.index) (ht : b.tail=s.tip)
    (hi : params.connects b=false) :
    Selecting params el floor ((s.invalidBlockFound b).invalidChainFound f) := by
  have hbt : b.tail≠[] := ht ▸ h.tree.ne_nil h.tip_mem
  refine h.of_marks he ⟨rfl,rfl,rfl,rfl,rfl,rfl,rfl,rfl,rfl⟩ rfl
    (fun q hq => failedValid_setFailedValid.mpr (Or.inr hq)) (fun _ hq => hq) ?_
    (h.child.setFailedValid b) (fun c hc => mem_of_mem_filter hc) ?_
  · intro a ha
    refine ha.of_marks fun q hq hn => failed_setFailedValid ?_
    rintro rfl
    rw [(ha q hq hn).2 hbt] at hi
    cases hi
  · intro c hc hu
    refine mem_filter.mpr ⟨hc,?_⟩
    rw [not_eq_true',decide_eq_false_iff_not]
    rintro rfl
    cases (failed_setFailedValid_self s c).symm.trans hu

lemma Selecting.move (hm : ChainMove params s s') :
    ∃ floor', Selecting params el floor' s' ∧ s.sortsWorse params floor' floor=false := by
  have hr := sortsWorse_ranking params s
  cases hm with
  | drop hn hs hne hfl =>
    exact ⟨floor,h.drop he hn hs hne hfl,hr.irrefl floor⟩
  | disconnect hf hne => exact ⟨floor,h.disconnect he hf hne,hr.irrefl floor⟩
  | @connect b hb ht hl hma hv =>
    exact ⟨_,h.connect he hb ht hl hma hv,
      (not_sortsWorse_raisedFloor.mp (hr.irrefl (raisedFloor params s floor b))).1⟩
  | reject hb ht _ _ hi _ => exact ⟨floor,h.reject he hb ht hi,hr.irrefl floor⟩
end
end BlockIndexState
end Xero
