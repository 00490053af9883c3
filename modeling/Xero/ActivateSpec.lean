import Xero.ChainMoves

/-! ActivateBestChain makes only moves, always ends, and ends on the best candidate. -/
namespace Xero
open Library List
variable {B : Type} [DecidableEq B]
namespace BlockIndexState
variable {params : ChainParams B} {eligible : BlockIndexState B → List B → Prop}
variable {floor m : List B} {s s' : BlockIndexState B}

abbrev ChainMoves (params : ChainParams B) : BlockIndexState B → BlockIndexState B → Prop :=
  Relation.ReflTransGen (ChainMove params)

lemma Selecting.moves (he : Eligibility eligible) (h : Selecting params eligible floor s)
    (hm : ChainMoves params s s') :
    SameData s s' ∧ ∃ floor', Selecting params eligible floor' s' ∧
      s.sortsWorse params floor' floor=false := by
  induction hm with
  | refl =>
    exact ⟨⟨rfl,rfl,rfl,rfl,rfl,rfl,rfl,rfl,rfl⟩,floor,h,(sortsWorse_ranking params s).irrefl floor⟩
  | tail _ hl ih =>
    obtain ⟨hs,_,hmi,hw⟩ := ih
    obtain ⟨floor',hf',hw'⟩ := hmi.move he hl
    rw [hs.sortsWorse] at hw'
    exact ⟨hs.trans hl.sameData,floor',hf',(sortsWorse_ranking params s).not_worse_trans hw' hw⟩

/-- The best candidate, with nothing marked on its branch. -/
structure Target (params : ChainParams B) (m : List B) (s : BlockIndexState B) : Prop where
  candidate : m∈s.setBlockIndexCandidates
  best : ∀ c∈s.setBlockIndexCandidates, s.sortsWorse params m c=false
  unmarked : ∀ q, q <:+ m → q≠[] → s.failed q=false

lemma Selecting.firstUnusable (h : Selecting params eligible floor s) {new : List B}
    (hl : ∀ q, q <:+ new → q≠[] → q∈s.index ∧ s.nChainTx q≠0) :
    (s.firstUnusable new=some none ∧ ∀ q, q <:+ new → q≠[] → s.failed q=false) ∨
      ∃ test, s.firstUnusable new=some (some test) ∧ s.failed test := by
  induction new with
  | nil => exact .inl ⟨rfl,fun q hq hne => absurd (suffix_nil.mp hq) hne⟩
  | cons x p ih =>
    rw [BlockIndexState.firstUnusable]
    split
    · rename_i ha
      exact .inl ⟨rfl,fun q hq hne => (h.tip_clean q (hq.trans ha) hne).1⟩
    · obtain ⟨hme,ht⟩ := hl _ suffix_rfl (cons_ne_nil x p)
      have hass : (!s.haveTxsDownloaded (x::p) && s.nHeight (x::p) != 0)=false := by
        simp [haveTxsDownloaded,ht]
      rw [hass,(h.linked _ hme ht).1]
      cases hm : s.failed (x::p) with
      | true => exact .inr ⟨x::p,rfl,hm⟩
      | false =>
        rcases ih (fun q hq hne => hl q (hq.trans (suffix_cons x p)) hne) with
          ⟨hn,hu⟩ | hf
        · refine .inl ⟨hn,fun q hq hne => ?_⟩
          obtain rfl | hq := suffix_cons_iff.mp hq
          · exact hm
          · exact hu q hq hne
        · exact .inr hf

/-- FindMostWorkChain drops marked branches until it has a target. -/
lemma Selecting.findMostWorkChain (he : Eligibility eligible)
    (h : Selecting params eligible floor s) :
    ∃ m s', s.findMostWorkChain params=some (some m,s') ∧ ChainMoves params s s' ∧
      Target params m s' ∧ Selecting params eligible floor s' ∧ s'.tip=s.tip ∧
      s'.failedValid=s.failedValid := by
  induction hl : s.setBlockIndexCandidates.length using Nat.strong_induction_on
    generalizing s with
  | h n ih =>
    subst hl
    rw [findMostWorkChain]
    split
    · rename_i hno
      have hf := h.floor_candidate he
      rw [best_eq_none hno] at hf
      cases hf
    · rename_i nw hn
      have hm := mem_of_best hn
      obtain ⟨hi,htx⟩ := h.candidate_mem nw hm
      have hcs := h.firstUnusable (fun q hq hne => h.linked_suffix hi htx hq hne)
      split
      · rename_i hst
        rw [hst] at hcs
        simp at hcs
      · rename_i hc
        rw [hc] at hcs
        simp only [true_and,Option.some.injEq,reduceCtorEq,false_and,exists_false,or_false] at hcs
        exact ⟨nw,s,rfl,.refl,⟨hm,best_not_worse (sortsWorse_ranking params s) hn,hcs⟩,h,rfl,rfl⟩
      · rename_i t ht
        rw [ht] at hcs
        simp only [Option.some.injEq,reduceCtorEq,false_and,false_or,exists_eq_left'] at hcs
        obtain ⟨hne,hs⟩ := firstUnusable_suffix ht
        have hmo : ChainMove params s (s.dropUnusable t nw) := .drop hm hs hne hcs
        obtain ⟨m,s',hfi,hmv,htg,hse,hti,hmk⟩ :=
          ih _ (length_dropUnusable_lt hn ht) (h.drop he hm hs hne hcs) rfl
        obtain ⟨b,heq⟩ := dropUnusable_eq hs hcs
        rw [heq] at hti hmk
        exact ⟨m,s',hfi,.head hmo hmv,htg,hse,hti,hmk⟩

def unmarkedCount (s : BlockIndexState B) : Nat :=
  (s.index.filter (fun b => !s.failedValid b)).length

lemma unmarkedCount_reject_lt {b f : List B} (hb : b∈s.index) (hm : s.failed b=false) :
    ((s.invalidBlockFound b).invalidChainFound f).unmarkedCount < s.unmarkedCount := by
  have hf : s.index.filter (fun c => !((s.invalidBlockFound b).invalidChainFound f).failedValid c)=
      (s.index.filter (fun c => !s.failedValid c)).filter (fun c => !decide (c=b)) := by
    rw [filter_filter]
    congr 1
    funext c
    have hv : ((s.invalidBlockFound b).invalidChainFound f).failedValid c ↔
        c=b ∨ s.failedValid c := failedValid_setFailedValid
    rw [Bool.eq_iff_iff]
    simp [← Bool.not_eq_true,hv]
  have hu := (Bool.or_eq_false_iff.mp hm).1
  change (s.index.filter _).length<(s.index.filter _).length
  rw [hf]
  exact length_filter_lt_length_iff_exists.mpr ⟨b,by simp [hb,hu],by simp⟩

/-- Each block of the row sits on the one before it, and the first one on `tip`. -/
def Ascends : List B → List (List B) → Prop
  | _, [] => True
  | tip, b::bs => b.tail=tip ∧ Ascends b bs

/-- What connecting a row of blocks towards the target `m` leads to. -/
def ConnectSpec (params : ChainParams B) (m : List B) (bs : List (List B))
    (s : BlockIndexState B) : ConnectEnd×BlockIndexState B → Prop
  | (.invalidFound,s') => ChainMoves params s s' ∧ s'.unmarkedCount < s.unmarkedCount
  | (.improved,s') =>
    ChainMoves params s s' ∧ Target params m s' ∧ s'.failedValid=s.failedValid ∧ s'.tip∈bs
  | (.reached,s') =>
    ChainMoves params s s' ∧ Target params m s' ∧ s'.failedValid=s.failedValid ∧
      s'.tip=bs.getLastD s.tip

lemma ConnectSpec.append (row : List (List B)) {re : List (List B)}
    {r : ConnectEnd×BlockIndexState B}
    (hm : ChainMoves params s s') (hi : s'.index=s.index)
    (hmk : s'.failedValid=s.failedValid) (ht : s'.tip=row.getLastD s.tip)
    (h : ConnectSpec params m re s' r) : ConnectSpec params m (row++re) s r := by
  have hc : s'.unmarkedCount=s.unmarkedCount := by
    rw [unmarkedCount,unmarkedCount,hi,hmk]
  obtain ⟨e,_⟩ := r
  cases e with
  | invalidFound => exact ⟨hm.trans h.1,hc ▸ h.2⟩
  | improved =>
    obtain ⟨hm',htg,hmk',ht'⟩ := h
    exact ⟨hm.trans hm',htg,hmk'.trans hmk,mem_append_right row ht'⟩
  | reached =>
    obtain ⟨hm',htg,hmk',ht'⟩ := h
    refine ⟨hm.trans hm',htg,hmk'.trans hmk,?_⟩
    rw [ht',ht]
    simp only [getLastD_eq_getLast?,getLast?_append]
    cases re.getLast? <;> rfl

lemma Target.connect (ht : Target params m s) (h : Selecting params eligible floor s)
    {b : List B} (hb : b <:+ m) (hn : b≠[]) :
    Target params m ((s.tipConnected b).withoutWorse params) where
  candidate := by
    refine mem_filter.mpr ⟨ht.candidate,?_⟩
    have hm := (h.candidate_mem m ht.candidate).1
    rw [Bool.not_eq_true']
    obtain rfl | hw := suffix_eq_or_sortsWorse h.tree hm hb hn
    · exact (sortsWorse_ranking params s).irrefl b
    · exact (sortsWorse_ranking params s).asymm hw
  best := fun c hc => ht.best c (mem_of_mem_filter hc)
  unmarked := ht.unmarked

lemma Selecting.connectBlocks (he : Eligibility eligible) (h : Selecting params eligible floor s)
    {m f : List B} (ht : Target params m s) {bs : List (List B)} (ha : Ascends s.tip bs)
    (hbs : ∀ b∈bs, b≠[] ∧ b <:+ m ∧ b <:+ f) (ow : Nat) :
    ∃ r, connectBlocks params ow f bs s=some r ∧
      ConnectSpec params m bs s r := by
  induction bs generalizing s floor with
  | nil => exact ⟨_,rfl,.refl,ht,rfl,rfl⟩
  | cons b bs ih =>
    obtain ⟨hti,hre⟩ := ha
    obtain ⟨hn,hbm,hbf⟩ := hbs b mem_cons_self
    obtain ⟨hm,hmt⟩ := h.candidate_mem m ht.candidate
    obtain ⟨hb,htx⟩ := h.linked_suffix hm hmt hbm hn
    have hma := ht.unmarked b hbm hn
    rw [connectBlocks,connectTip,if_neg (not_not.mpr hti)]
    cases hv : params.connects b with
    | false =>
      exact ⟨_,rfl,.single (.reject hb hti htx hma hv hbf),unmarkedCount_reject_lt hb hma⟩
    | true =>
      have hmo : ChainMove params s ((s.tipConnected b).withoutWorse params) :=
        .connect hb hti htx hma hv
      have hse := h.connect he hb hti htx hma hv
      have ht' := ht.connect h hbm hn
      have hp : (s.tipConnected b).pruneBlockIndexCandidates params=
          some ((s.tipConnected b).withoutWorse params) := if_neg (ne_nil_of_mem ht'.candidate)
      simp only [if_true,hp]
      split
      · exact ⟨_,rfl,.single hmo,ht',rfl,mem_cons_self⟩
      · obtain ⟨r,hr,hs⟩ := ih hse ht' hre (fun c hc => hbs c (mem_cons_of_mem b hc))
        exact ⟨r,hr,ConnectSpec.append [b] (.single hmo) rfl rfl rfl hs⟩

omit [DecidableEq B] in
lemma ascends_append {tip : List B} {row r : List (List B)} :
    Ascends tip (row++r) ↔ Ascends tip row ∧ Ascends (row.getLastD tip) r := by
  induction row generalizing tip with
  | nil => simp [Ascends]
  | cons b row ih => rw [cons_append,Ascends,Ascends,ih,getLastD_cons,and_assoc]

omit [DecidableEq B] in
lemma Ascends.suffix_getLast {tip : List B} {row : List (List B)} (h : Ascends tip row)
    (hn : row≠[]) : ∀ b∈row, b <:+ row.getLast hn := by
  induction row generalizing tip with
  | nil => exact absurd rfl hn
  | cons b row ih =>
    intro c hc
    by_cases hr : row=[]
    · subst hr
      rw [mem_singleton.mp hc]
      exact suffix_rfl
    · rw [getLast_cons hr]
      obtain rfl | hc := mem_cons.mp hc
      · obtain ⟨d,r,rfl⟩ := exists_cons_of_ne_nil hr
        exact (h.2.1 ▸ tail_suffix d).trans (ih h.2 hr d mem_cons_self)
      · exact ih h.2 hr c hc

lemma Selecting.connectRows (he : Eligibility eligible)
    (h : Selecting params eligible floor s) (ht : Target params m s) {bl : List (List B)}
    (hasc : Ascends s.tip bl) (hbl : ∀ b∈bl, b≠[] ∧ b <:+ m) (ow : Nat) :
    ∃ r, connectRows params ow bl s=some r ∧
      ConnectSpec params m bl s r := by
  induction hl : bl.length using Nat.strong_induction_on generalizing s floor bl with
  | h n ih =>
    subst hl
    rw [connectRows]
    split
    · rename_i hn
      subst hn
      exact ⟨_,rfl,.refl,ht,rfl,rfl⟩
    · rename_i hne
      have hsp := take_append_drop 32 bl
      have hro : bl.take 32≠[] := by simp [hne]
      rw [← hsp] at hasc
      obtain ⟨ha,hac⟩ := ascends_append.mp hasc
      obtain ⟨r,hr,hs⟩ := h.connectBlocks he ht ha (fun b hb =>
        ⟨(hbl b (mem_of_mem_take hb)).1,(hbl b (mem_of_mem_take hb)).2,
          ha.suffix_getLast hro b hb⟩) ow
      simp only [hr]
      obtain ⟨e,s'⟩ := r
      cases e with
      | invalidFound => exact ⟨_,rfl,hs⟩
      | improved =>
        obtain ⟨hm,htg,hmk,hti⟩ := hs
        exact ⟨_,rfl,hm,htg,hmk,mem_of_mem_take hti⟩
      | reached =>
        obtain ⟨hm,htg,hmk,hti⟩ := hs
        obtain ⟨hsa,f',hse,_⟩ := h.moves he hm
        rw [← hti] at hac
        have hlt : (bl.drop 32).length<bl.length := by
          have := length_pos_iff.mpr hne
          simp only [length_drop]
          omega
        obtain ⟨r,hr,hs⟩ := ih _ hlt hse htg hac (fun b hb => hbl b (mem_of_mem_drop hb)) rfl
        refine ⟨r,hr,?_⟩
        have := ConnectSpec.append (bl.take 32) hm hsa.index hmk hti hs
        rwa [hsp] at this

lemma findFork_suffix (s : BlockIndexState B) (b : List B) :
    s.findFork b <:+ b ∧ s.findFork b <:+ s.tip := by
  induction b with
  | nil => exact ⟨suffix_rfl,nil_suffix⟩
  | cons x p ih =>
    rw [findFork]
    split
    · rename_i ha
      exact ⟨suffix_rfl,ha⟩
    · exact ⟨ih.1.trans (suffix_cons x p),ih.2⟩

lemma suffix_findFork {q b : List B} (hq : q <:+ b) (ha : q <:+ s.tip) : q <:+ s.findFork b := by
  induction b with
  | nil => exact hq
  | cons x p ih =>
    rw [findFork]
    split
    · exact hq
    · rename_i ho
      refine ih (suffix_of_suffix_cons hq ?_)
      rintro rfl
      exact ho ha

lemma disconnectTips_eq {f tip : List B} (h : f <:+ tip) : disconnectTips f tip=f := by
  induction tip with
  | nil => rw [suffix_nil.mp h,disconnectTips]
  | cons x p ih =>
    rw [disconnectTips]
    split
    · assumption
    · rename_i hn
      exact ih (suffix_of_suffix_cons h hn)

lemma blocksAbove_spec {f m : List B} (h : f <:+ m) :
    Ascends f (blocksAbove f m).reverse ∧ (blocksAbove f m).reverse.getLastD f=m ∧
      ∀ b∈blocksAbove f m, Above f m b := by
  induction m with
  | nil => simp [suffix_nil.mp h,blocksAbove,Ascends]
  | cons x p ih =>
    rw [blocksAbove]
    split
    · rename_i heq
      simp [heq,Ascends]
    · rename_i hn
      have hp := suffix_of_suffix_cons h hn
      obtain ⟨ha,hl,hab⟩ := ih hp
      rw [reverse_cons]
      refine ⟨ascends_append.mpr ⟨ha,hl.symm,trivial⟩,by simp,fun b hb => ?_⟩
      rw [above_cons_iff hp]
      obtain rfl | hb := mem_cons.mp hb
      · exact .inl rfl
      · exact .inr (hab b hb)

omit [DecidableEq B] in
lemma Selecting.target_off (h : Selecting params eligible floor s) (ht : Target params m s)
    (hn : m≠s.tip) : ¬m <:+ s.tip := by
  intro ha
  have hr := sortsWorse_ranking params s
  have hm := (h.candidate_mem m ht.candidate).1
  have hf := h.candidate_floor m ht.candidate
  obtain heq | hw := suffix_eq_or_sortsWorse h.tree h.tip_mem ha (h.tree.ne_nil hm)
  · exact hn heq
  · obtain hti | hti := h.tip_floor
    · rw [← hti,hw] at hf
      cases hf
    · rw [hr.trans _ _ _ hw hti] at hf
      cases hf

/-- One step either finds a block invalid or gets closer to the target. -/
lemma Selecting.activateBestChainStep (he : Eligibility eligible)
    (h : Selecting params eligible floor s) (ht : Target params m s) (hne : m≠s.tip) :
    ∃ invalidFound s', s.activateBestChainStep params m=some (invalidFound,s') ∧
      ChainMoves params s s' ∧
      (invalidFound ∧ s'.unmarkedCount < s.unmarkedCount ∨
        invalidFound=false ∧ Target params m s' ∧ s'.failedValid=s.failedValid ∧
          Above (s.findFork m) m s'.tip) := by
  obtain ⟨hfo,hf⟩ := findFork_suffix s m
  have hm := (h.candidate_mem m ht.candidate).1
  have hfr : s.findFork m≠[] := by
    intro hn
    have hro := suffix_findFork (h.tree.genesis_suffix hm) (h.tree.genesis_suffix h.tip_mem)
    rw [hn] at hro
    cases suffix_nil.mp hro
  have ho : s.findFork m≠m := by
    intro heq
    rw [heq] at hf
    exact h.target_off ht hne hf
  obtain ⟨hac,hl,ha⟩ := blocksAbove_spec hfo
  have hmo : ChainMove params s {s with tip := s.findFork m} := .disconnect hf hfr
  have ht' : Target params m {s with tip := s.findFork m} := ⟨ht.candidate,ht.best,ht.unmarked⟩
  obtain ⟨⟨e,s'⟩,hr,hs⟩ := (h.disconnect he hf hfr).connectRows he ht' hac
    (fun b hb => by
      have hb' := ha b (mem_reverse.mp hb)
      refine ⟨?_,hb'.2.2⟩
      rintro rfl
      exact hfr (suffix_nil.mp hb'.1)) (s.nChainWork s.tip)
  have hst : s.activateBestChainStep params m=some (decide (e=.invalidFound),s') := by
    simp only [BlockIndexState.activateBestChainStep,disconnectTips_eq hf,hr]
  refine ⟨_,s',hst,?_⟩
  cases e with
  | invalidFound => exact ⟨.head hmo hs.1,.inl ⟨rfl,hs.2⟩⟩
  | improved =>
    obtain ⟨hmv,htg,hmk,hti⟩ := hs
    exact ⟨.head hmo hmv,.inr ⟨rfl,htg,hmk,ha _ (mem_reverse.mp hti)⟩⟩
  | reached =>
    obtain ⟨hmv,htg,hmk,hti⟩ := hs
    rw [hl] at hti
    refine ⟨.head hmo hmv,.inr ⟨rfl,htg,hmk,?_⟩⟩
    rw [hti]
    exact ⟨hfo,Ne.symm ho,suffix_rfl⟩

structure Searching (params : ChainParams B) (eligible : BlockIndexState B → List B → Prop)
    (mostWork : Option (List B)) (s : BlockIndexState B) : Prop where
  selecting : ∃ floor, Selecting params eligible floor s
  target : ∀ m, mostWork=some m → Target params m s ∧ s.tip <:+ m

omit [DecidableEq B] in
lemma Selecting.searching (h : Selecting params eligible floor s) :
    Searching params eligible none s where
  selecting := ⟨floor,h⟩
  target := by
    intro m hm
    cases hm

/- A round without a target counts for one more mark, so that finding one is progress. -/
def searchRank (mostWork : Option (List B)) (s : BlockIndexState B) : Nat×Nat :=
  match mostWork with
  | none => (2*s.unmarkedCount+1,0)
  | some m => (2*s.unmarkedCount,m.length-s.tip.length)

lemma Searching.target_found (he : Eligibility eligible) {mw : Option (List B)}
    (h : Searching params eligible mw s) :
    ∃ m s1, s.nextTarget params mw=some (some m,s1) ∧
      ChainMoves params s s1 ∧ Target params m s1 ∧ (∃ floor, Selecting params eligible floor s1) ∧
      s1.unmarkedCount=s.unmarkedCount ∧ (mw=some m ∧ s1=s ∨ mw=none) := by
  obtain ⟨floor,hs⟩ := h.selecting
  cases mw with
  | some m => exact ⟨m,s,rfl,.refl,(h.target m rfl).1,⟨floor,hs⟩,rfl,.inl ⟨rfl,rfl⟩⟩
  | none =>
    obtain ⟨m,s1,hf,hm,ht,hs1,_,hmk⟩ := hs.findMostWorkChain he
    have hc : s1.unmarkedCount=s.unmarkedCount := by
      rw [unmarkedCount,unmarkedCount,hmk,(hs.moves he hm).1.index]
    exact ⟨m,s1,hf,hm,ht,⟨floor,hs1⟩,hc,.inr rfl⟩

/-- A round ends the loop on the best candidate, or leads to a round of lower rank. -/
lemma Searching.round (he : Eligibility eligible) {mw : Option (List B)}
    (h : Searching params eligible mw s) (st : List B) (c : Bool) :
    (∃ s', (∀ fuel, activateLoop params (fuel+1) mw st c s=some s') ∧
      ChainMoves params s s' ∧ Target params s'.tip s') ∨
    ∃ mostWork' startingTip' connected' s',
      (∀ fuel, activateLoop params (fuel+1) mw st c s=
        activateLoop params fuel mostWork' startingTip' connected' s') ∧
      ChainMoves params s s' ∧ Searching params eligible mostWork' s' ∧
      Prod.Lex (·<·) (·<·) (searchRank mostWork' s') (searchRank mw s) := by
  obtain ⟨m,s1,hf,hmv,ht,⟨_,hs⟩,hc,hca⟩ := h.target_found he
  by_cases hd : m=s1.tip
  · refine .inl ⟨s1,fun fuel => ?_,hmv,hd ▸ ht⟩
    rw [activateLoop,hf]
    simp only [if_pos hd]
  · obtain ⟨i,s',hst,hmv',hre⟩ := hs.activateBestChainStep he ht hd
    have ha := hmv.trans hmv'
    obtain ⟨hsa,f',hs',_⟩ := hs.moves he hmv'
    have hl : ∀ fuel, activateLoop params (fuel+1) mw st c s= if s'.sortsWorse params s'.tip st then
          activateLoop params fuel (if i then none else some m) st true s'
        else if (if i then none else some m)=some s'.tip then some s'
        else activateLoop params fuel (if i then none else some m) s'.tip false s' := by
      intro fuel
      rw [activateLoop,hf]
      simp only [if_neg hd,hst]
    obtain ⟨rfl,_⟩ | ⟨rfl,ht',hmk,hab⟩ := hre
    · -- a block was found invalid: the next round looks for another target
      have hr : Prod.Lex (·<·) (·<·) (searchRank none s') (searchRank mw s) := by
        cases mw <;> exact Prod.Lex.left _ _ (by omega)
      by_cases hw : s'.sortsWorse params s'.tip st
      · exact .inr ⟨none,st,true,s',fun fuel => by simp [hl,hw],ha,hs'.searching,hr⟩
      · exact .inr ⟨none,s'.tip,false,s',fun fuel => by simp [hl,hw],ha,hs'.searching,hr⟩
    · have hc' : s'.unmarkedCount=s.unmarkedCount := by
        rw [← hc,unmarkedCount,unmarkedCount,hmk,hsa.index]
      have hr : Prod.Lex (·<·) (·<·) (searchRank (some m) s') (searchRank mw s) := by
        obtain ⟨rfl,rfl⟩ | rfl := hca
        · have hfo := (suffix_findFork (h.target m rfl).2 suffix_rfl).length_le
          have hb := hab.1.length_le
          have hsr : (s1.findFork m).length≠s'.tip.length :=
            fun heq => hab.2.1 (hab.1.eq_of_length heq).symm
          have hu := hab.2.2.length_le
          refine Prod.lex_def.mpr (.inr ⟨by simp only [searchRank,hc'],?_⟩)
          simp only [searchRank]
          omega
        · exact Prod.Lex.left _ _ (by omega)
      have hn : Searching params eligible (some m) s' :=
        ⟨⟨f',hs'⟩,fun m' hm => by cases hm; exact ⟨ht',hab.2.2⟩⟩
      by_cases hw : s'.sortsWorse params s'.tip st
      · exact .inr ⟨some m,st,true,s',fun fuel => by simp [hl,hw],ha,hn,hr⟩
      · by_cases hti : m=s'.tip
        · exact .inl ⟨s',fun fuel => by simp [hl,hw,hti],ha,hti ▸ ht'⟩
        · exact .inr ⟨some m,s'.tip,false,s',fun fuel => by simp [hl,hw,hti],ha,hn,hr⟩

lemma Searching.terminates (he : Eligibility eligible) {mw : Option (List B)}
    {s : BlockIndexState B} (h : Searching params eligible mw s) (st : List B) (c : Bool) :
    ∃ fuel s', activateLoop params fuel mw st c s=some s' := by
  obtain ⟨s',hd,_⟩ | ⟨_,st',c',s',hn,_,h',hr⟩ := h.round he st c
  · exact ⟨1,s',hd 0⟩
  · obtain ⟨fuel,s'',hen⟩ := h'.terminates he st' c'
    exact ⟨fuel+1,s'',(hn fuel).trans hen⟩
termination_by searchRank mw s
decreasing_by exact hr

lemma Searching.loop (he : Eligibility eligible) {f : Nat} {mw : Option (List B)}
    (h : Searching params eligible mw s) {st : List B} {c : Bool}
    (hr : activateLoop params f mw st c s=some s') :
    ChainMoves params s s' ∧ Target params s'.tip s' := by
  induction f generalizing mw st c s with
  | zero => cases hr
  | succ f ih =>
    obtain ⟨s1,hd,hm,ht⟩ | ⟨_,_,_,s1,hn,hm,h',_⟩ := h.round he st c
    · rw [hd] at hr
      cases hr
      exact ⟨hm,ht⟩
    · rw [hn] at hr
      obtain ⟨hm',ht⟩ := ih h' hr
      exact ⟨hm.trans hm',ht⟩

section
variable (he : Eligibility eligible) (h : Selecting params eligible floor s)
include he h

lemma Selecting.activateBestChain_returns : ∃ fuel s', s.activateBestChain params fuel=some s' :=
  h.searching.terminates he s.tip false

lemma Selecting.activateBestChain {f : Nat} (hr : s.activateBestChain params f=some s') :
    ChainMoves params s s' ∧ Selecting params eligible s'.tip s' ∧
      s.sortsWorse params s'.tip floor=false := by
  obtain ⟨hm,ht⟩ := h.searching.loop he hr
  obtain ⟨_,f',hs,hw⟩ := h.moves he hm
  have hti : s'.tip=f' := by
    obtain heq | hwo := hs.tip_floor
    · exact heq
    · rw [ht.best f' (hs.floor_candidate he)] at hwo
      cases hwo
  rw [hti]
  exact ⟨hm,hs,hw⟩
end
end BlockIndexState
end Xero
