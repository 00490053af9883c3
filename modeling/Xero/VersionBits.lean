import Xero.Library.Memo
import Xero.ProofOfWork

/-! BIP9 deployments: GetStateFor with its cache, and the plain recursion over the periods that it
computes. Blocks are of any type `B` with a header; an index entry is the list of its blocks down to
genesis, empty for nullptr. -/
namespace Xero
open Library List Function Nat

inductive ThresholdState where
  | defined
  | started
  | lockedIn
  | active
  | failed
deriving Repr, DecidableEq

inductive ThresholdState.Next : ThresholdState → ThresholdState → Prop
  | start : Next .defined .started
  | lockIn : Next .started .lockedIn
  | timeout : Next .started .failed
  | activate : Next .lockedIn .active

def ThresholdState.Forward : ThresholdState → ThresholdState → Prop :=
  Relation.ReflTransGen ThresholdState.Next

lemma ThresholdState.forward_active {s : ThresholdState} (h : Forward .active s) : s=.active := by
  obtain heq | ⟨_,hn,_⟩ := h.cases_head
  · exact heq.symm
  · cases hn

lemma ThresholdState.forward_failed {s : ThresholdState} (h : Forward .failed s) : s=.failed := by
  obtain heq | ⟨_,hn,_⟩ := h.cases_head
  · exact heq.symm
  · cases hn

def ALWAYS_ACTIVE : Int := -1
def NEVER_ACTIVE : Int := -2

/-- What the subclasses of AbstractThresholdConditionChecker supply. -/
structure ThresholdConditionChecker (B : Type) where
  condition : List B → Bool
  beginTime : Int
  endTime : Int
  minActivationHeight : Int
  period : Nat
  threshold : Int
  period_pos : 0<period

structure BIP9Deployment where
  bit : Nat
  nStartTime : Int
  nTimeout : Int
  minActivationHeight : Int

def VERSIONBITS_TOP_BITS : Nat := 0x20000000
def VERSIONBITS_TOP_MASK : Nat := 0xE0000000
def BIP9Deployment.mask (dep : BIP9Deployment) : Nat := 1 <<< dep.bit%2^32
def signals (dep : BIP9Deployment) (header : BlockHeader) : Bool :=
  let nVersion := (header.nVersion%2^32).toNat
  nVersion &&& VERSIONBITS_TOP_MASK == VERSIONBITS_TOP_BITS && nVersion &&& dep.mask != 0

variable {B : Type}

def versionBitsConditionChecker (header : B → BlockHeader) (dep : BIP9Deployment)
    (nMinerConfirmationWindow : Nat) (nRuleChangeActivationThreshold : Int)
    (hwindow : 0<nMinerConfirmationWindow) : ThresholdConditionChecker B where
  condition pindex := pindex.head?.any (fun b => signals dep (header b))
  beginTime := dep.nStartTime
  endTime := dep.nTimeout
  minActivationHeight := dep.minActivationHeight
  period := nMinerConfirmationWindow
  threshold := nRuleChangeActivationThreshold
  period_pos := hwindow

/- GetAncestor of an index entry, nullptr outside the heights of its chain. -/
def ancestorAt (pindex : List B) (height : Int) : List B :=
  let nHeight := (pindex.length : Int)-1
  if nHeight<height ∨ height<0 then [] else pindex.drop (nHeight-height).toNat

lemma ancestorAt_sub (p : List B) (k : Nat) : ancestorAt p ((p.length : Int)-1-k)=p.drop k := by
  unfold ancestorAt
  by_cases h : k<p.length
  · have hk : ((p.length : Int)-1-(p.length-1-k)).toNat=k := by omega
    simp only [if_neg (show ¬((p.length : Int)-1<p.length-1-k ∨ (p.length : Int)-1-k<0) by omega),
        hk]
  · rw [drop_eq_nil_of_le (by omega),if_pos (by omega)]

def medianTimePast (header : B → BlockHeader) (pindex : List B) : Int :=
  HeaderChain.getMedianTimePast (pindex.map header)

namespace ThresholdConditionChecker
variable (header : B → BlockHeader) (checker : ThresholdConditionChecker B)

/- The blocks of the period that ends with `pindexPrev` and fulfil the condition. -/
def countConditions (pindexPrev : List B) : Nat :=
  (range checker.period).countP (fun i => checker.condition (pindexPrev.drop i))

/-- The switch of the forward walk: the state of the period after `pindexPrev`. -/
def stateNext (state : ThresholdState) (pindexPrev : List B) : ThresholdState :=
  match state with
  | .defined => if checker.beginTime ≤ medianTimePast header pindexPrev then .started else .defined
  | .started =>
    if checker.threshold≤(checker.countConditions pindexPrev : Int) then .lockedIn
    else if checker.endTime ≤ medianTimePast header pindexPrev then .failed
    else .started
  | .lockedIn =>
    if checker.minActivationHeight≤(pindexPrev.length : Int) then .active else .lockedIn
  | .active => .active
  | .failed => .failed

abbrev Cache (B : Type) := List B → Option ThresholdState

section
variable [DecidableEq B]

/- The walk backwards to an entry whose state is known: the cache, that entry, and the entries
   left to compute, the last one pushed first. -/
def walkBack (cache : Cache B) (pindexPrev : List B) (vToCompute : List (List B)) :
    Cache B×List B×List (List B) :=
  if (cache pindexPrev).isSome then (cache,pindexPrev,vToCompute)
  else if hnull : pindexPrev=[] then
    (update cache pindexPrev (some .defined),pindexPrev,vToCompute)
  else if medianTimePast header pindexPrev < checker.beginTime then
    (update cache pindexPrev (some .defined),pindexPrev,vToCompute)
  else walkBack cache (ancestorAt pindexPrev ((pindexPrev.length : Int)-1-checker.period))
    (pindexPrev::vToCompute)
termination_by pindexPrev.length
decreasing_by
  have hpos := checker.period_pos
  have hlen := length_pos_iff.2 hnull
  rw [ancestorAt_sub,length_drop]
  omega

def walkForward (cache : Cache B) (state : ThresholdState) : List (List B) → ThresholdState×Cache B
  | [] => (state,cache)
  | pindexPrev::vToCompute =>
    let next := checker.stateNext header state pindexPrev
    walkForward (update cache pindexPrev (some next)) next vToCompute

/-- GetStateFor: the state of the block after `pindexPrev`, and the cache afterwards. `none`
stands for the assert that the backwards walk ends at a cached entry. -/
def getStateFor (pindexPrev : List B) (cache : Cache B) : Option (ThresholdState×Cache B) :=
  if checker.beginTime=ALWAYS_ACTIVE then some (.active,cache)
  else if checker.beginTime=NEVER_ACTIVE then some (.failed,cache)
  else
    let pindexPrev := if pindexPrev=[] then [] else
      ancestorAt pindexPrev ((pindexPrev.length : Int)-1-(pindexPrev.length%checker.period : Nat))
    let (cache,known,vToCompute) := checker.walkBack header cache pindexPrev []
    match cache known with
    | none => none
    | some state => some (checker.walkForward header cache state vToCompute)
end

/-- The state of a period by plain recursion from genesis: the entry is the last of a period. -/
def periodState : List B → ThresholdState
  | [] => .defined
  | b::rest =>
    checker.stateNext header (periodState ((b::rest).drop checker.period)) (b::rest)
termination_by pindexPrev => pindexPrev.length
decreasing_by
  have hpos := checker.period_pos
  rw [length_drop,length_cons]
  omega

def plainState (pindexPrev : List B) : ThresholdState :=
  if checker.beginTime=ALWAYS_ACTIVE then .active
  else if checker.beginTime=NEVER_ACTIVE then .failed
  else checker.periodState header (pindexPrev.drop (pindexPrev.length%checker.period))

/- Entries at which a period ends; nullptr ends the period before genesis. -/
def PeriodEnd (pindex : List B) : Prop := checker.period ∣ pindex.length

lemma periodState_nil : checker.periodState header []=.defined := by
  rw [periodState]

lemma periodState_of_ne_nil {pp : List B} (h : pp≠[]) : checker.periodState header pp =
      checker.stateNext header (checker.periodState header (pp.drop checker.period)) pp := by
  cases pp with
  | nil => exact absurd rfl h
  | cons b r => rw [periodState]

lemma periodEnd_drop {p : List B} (h : checker.PeriodEnd p) :
    checker.PeriodEnd (p.drop checker.period) := by
  unfold PeriodEnd at h ⊢
  rw [length_drop]
  exact dvd_sub h (dvd_refl _)

lemma periodEnd_align (p : List B) : checker.PeriodEnd (p.drop (p.length%checker.period)) := by
  unfold PeriodEnd
  rw [length_drop]
  exact dvd_sub_mod _
end ThresholdConditionChecker

/-- A tree of index entries along whose chains the median time past never decreases. -/
structure MedianTimeTree (header : B → BlockHeader) where
  mem : List B → Prop
  mem_tail : ∀ p, mem p → mem p.tail
  mono : ∀ p, mem p → p.tail≠[] → medianTimePast header p.tail ≤ medianTimePast header p

namespace MedianTimeTree
variable {he : B → BlockHeader} (tr : MedianTimeTree he)

lemma mem_drop {p : List B} (h : tr.mem p) (k : Nat) : tr.mem (p.drop k) := by
  induction k generalizing p with
  | zero => exact h
  | succ k ih =>
    rw [← drop_tail]
    exact ih (tr.mem_tail p h)

lemma mono_drop {p : List B} (h : tr.mem p) (k : Nat) (hne : p.drop k≠[]) :
    medianTimePast he (p.drop k) ≤ medianTimePast he p := by
  induction k generalizing p with
  | zero => exact le_refl _
  | succ k ih =>
    rw [← drop_tail] at hne ⊢
    have ht : p.tail≠[] := by
      intro hn
      rw [hn] at hne
      exact hne drop_nil
    exact (ih (tr.mem_tail p h) hne).trans (tr.mono p h ht)
end MedianTimeTree
namespace ThresholdConditionChecker
variable {header : B → BlockHeader} (checker : ThresholdConditionChecker B)
    (tree : MedianTimeTree header)

/- The shortcut of the backwards walk: before the start time every earlier period is DEFINED. -/
lemma periodState_early {p : List B} (hp : tree.mem p)
    (he : medianTimePast header p < checker.beginTime) : checker.periodState header p=.defined := by
  induction hn : p.length using Nat.strong_induction_on generalizing p with
  | _ n ih =>
    by_cases hni : p=[]
    · rw [hni,periodState_nil]
    · have hpr : checker.periodState header (p.drop checker.period)=.defined := by
        by_cases hd : p.drop checker.period=[]
        · rw [hd,periodState_nil]
        · have hl := length_pos_iff.2 hni
          have hpo := checker.period_pos
          refine ih _ ?_ (tree.mem_drop hp _) ((tree.mono_drop hp _ hd).trans_lt he) rfl
          rw [length_drop]
          omega
      rw [periodState_of_ne_nil header checker hni,hpr,stateNext,if_neg (by omega)]

lemma stateNext_forward (s : ThresholdState) (p : List B) :
    s.Forward (checker.stateNext header s p) := by
  cases s with
  | defined =>
    unfold stateNext
    dsimp only
    split
    · exact .single .start
    · exact .refl
  | started =>
    unfold stateNext
    dsimp only
    split
    · exact .single .lockIn
    · split
      · exact .single .timeout
      · exact .refl
  | lockedIn =>
    unfold stateNext
    dsimp only
    split
    · exact .single .activate
    · exact .refl
  | active => exact .refl
  | failed => exact .refl

lemma periodState_forward (p : List B) (n : Nat) :
    (checker.periodState header (p.drop (checker.period*n))).Forward
    (checker.periodState header p) := by
  induction n with
  | zero =>
    exact .refl
  | succ n ih =>
    refine Relation.ReflTransGen.trans ?_ ih
    rw [mul_succ,← drop_drop]
    by_cases hn : p.drop (checker.period*n)=[]
    · rw [hn,drop_nil]
    · rw [periodState_of_ne_nil header checker hn]
      exact checker.stateNext_forward _ _

/- The last entry of the period before the one an ancestor's successor is in lies a whole number
   of periods below the descendant's. -/
lemma align_suffix {p q : List B} (h : p <:+ q) : p.drop (p.length%checker.period) =
      (q.drop (q.length%checker.period)).drop
      (checker.period*(q.length/checker.period-p.length/checker.period)) := by
  obtain ⟨f,rfl⟩ := h
  have hp := div_add_mod p.length checker.period
  have hq := div_add_mod (f++p).length checker.period
  have hl : p.length/checker.period≤(f++p).length/checker.period :=
    Nat.div_le_div_right (by rw [length_append]; omega)
  obtain ⟨d,hd⟩ := Nat.exists_eq_add_of_le hl
  rw [hd] at hq ⊢
  rw [Nat.mul_add] at hq
  rw [drop_drop,Nat.add_sub_cancel_left]
  have hs : (f++p).length%checker.period+checker.period*d=f.length+p.length%checker.period := by
    rw [length_append] at hq ⊢
    omega
  rw [hs,← drop_drop,drop_left]

lemma plainState_forward (header : B → BlockHeader) {p q : List B} (h : p <:+ q) :
    (checker.plainState header p).Forward (checker.plainState header q) := by
  unfold plainState
  split
  · exact .refl
  · split
    · exact .refl
    · rw [checker.align_suffix h]
      exact checker.periodState_forward _ _

/-- The blocks after the two entries lie in one period of one chain: they share an ancestor
entry whose successor is in that period too. -/
def SamePeriod (p q : List B) : Prop :=
  ∃ r, r <:+ p ∧ r <:+ q ∧ r.length/checker.period=p.length/checker.period ∧
    r.length/checker.period=q.length/checker.period

lemma plainState_samePeriod {p q : List B} (h : checker.SamePeriod p q) :
    checker.plainState header p=checker.plainState header q := by
  obtain ⟨r,hp,hq,hr,hrq⟩ := h
  have ha : ∀ x, r <:+ x → r.length/checker.period=x.length/checker.period →
      r.drop (r.length%checker.period)=x.drop (x.length%checker.period) := by
    intro x hx hl
    rw [checker.align_suffix hx,hl,Nat.sub_self,Nat.mul_zero,drop_zero]
  unfold plainState
  rw [← ha p hp hr,← ha q hq hrq]

/- The entries the backwards walk leaves to compute: from a known entry up to `top`, one period
   at a time. -/
inductive Climb : List B → List (List B) → List B → Prop
  | here (top : List B) : Climb top [] top
  | up {p q top : List B} {vToCompute : List (List B)} (hne : q≠[]) (hend : checker.PeriodEnd q)
      (hdrop : q.drop checker.period=p) (hclimb : Climb q vToCompute top) :
      Climb p (q::vToCompute) top

/- The cache invariant: keys end a period and hold the state of the plain recursion. -/
abbrev CacheSound (header : B → BlockHeader) (cache : Cache B) : Prop :=
  TableSound checker.PeriodEnd (checker.periodState header) cache

variable [DecidableEq B] {cache : Cache B}

lemma walkBack_spec {p top : List B} {vs : List (List B)} (hc : checker.CacheSound header cache)
    (hp : tree.mem p) (he : checker.PeriodEnd p) (hcl : checker.Climb p vs top) :
    ∃ cache' known left, checker.walkBack header cache p vs=(cache',known,left) ∧
      checker.CacheSound header cache' ∧ cache' known=some (checker.periodState header known) ∧
      checker.Climb known left top := by
  fun_induction walkBack header checker cache p vs with
  | case1 p vs hk =>
    obtain ⟨s,hs⟩ := Option.isSome_iff_exists.1 hk
    rw [(hc p s hs).2] at hs
    exact ⟨cache,p,vs,rfl,hc,hs,hcl⟩
  | case2 vs hm =>
    have hs : some ThresholdState.defined=some (checker.periodState header []) := by
      rw [periodState_nil]
    rw [hs]
    exact ⟨_,[],vs,rfl,hc.insert he,update_self _ _ _,hcl⟩
  | case3 p vs hm hn hea =>
    have hs : some ThresholdState.defined=some (checker.periodState header p) := by
      rw [checker.periodState_early tree hp hea]
    rw [hs]
    exact ⟨_,p,vs,rfl,hc.insert he,update_self _ _ _,hcl⟩
  | case4 p vs hm hn hea ih =>
    rw [ancestorAt_sub] at ih ⊢
    exact ih (tree.mem_drop hp _) (checker.periodEnd_drop he) (.up hn he rfl hcl)

lemma walkForward_spec {p top : List B} {vs : List (List B)}
    (hc : checker.CacheSound header cache) (hcl : checker.Climb p vs top) :
    ∃ cache', checker.walkForward header cache (checker.periodState header p) vs =
      (checker.periodState header top,cache') ∧ checker.CacheSound header cache' := by
  induction hcl generalizing cache with
  | here top => exact ⟨cache,rfl,hc⟩
  | @up p q top vs hne he hd _ ih =>
    have hn : checker.stateNext header (checker.periodState header p) q =
        checker.periodState header q := by
      rw [periodState_of_ne_nil header checker hne,hd]
    rw [walkForward,hn]
    exact ih (hc.insert he)

lemma getStateFor_spec {p : List B} (hp : tree.mem p) (hc : checker.CacheSound header cache) :
    ∃ cache', checker.getStateFor header p cache=some (checker.plainState header p,cache') ∧
      checker.CacheSound header cache' := by
  unfold getStateFor plainState
  split
  · exact ⟨cache,rfl,hc⟩
  · split
    · exact ⟨cache,rfl,hc⟩
    · have ha : (if p=[] then [] else
          ancestorAt p ((p.length : Int)-1-(p.length%checker.period : Nat))) =
          p.drop (p.length%checker.period) := by
        split
        · rename_i hn
          rw [hn,drop_nil]
        · exact ancestorAt_sub p _
      obtain ⟨c1,k,l,hb,hc1,hk,hcl⟩ := checker.walkBack_spec tree hc
        (tree.mem_drop hp _) (checker.periodEnd_align p) (.here _)
      obtain ⟨c2,hf,hc2⟩ := checker.walkForward_spec hc1 hcl
      refine ⟨c2,?_,hc2⟩
      simp only [ha,hb,hk,hf]

theorem getStateFor_eq_plainState (tree : MedianTimeTree header) {queries : List (List B)}
    (hqueries : ∀ p∈queries, tree.mem p) :
    ∃ answers cache,
      askAll (checker.getStateFor header) queries (fun _ => none)=some (answers,cache) ∧
      answers=queries.map (checker.plainState header) ∧
      ∀ p s q t, (p,s)∈queries.zip answers → (q,t)∈queries.zip answers →
        (checker.SamePeriod p q → s=t) ∧
        (p <:+ q → s.Forward t ∧ (s=.active → t=.active) ∧ (s=.failed → t=.failed)) := by
  obtain ⟨cache,hr,_⟩ := askAll_eq (fun _ _ => checker.getStateFor_spec tree) hqueries
    (tableSound_empty checker.PeriodEnd (checker.periodState header))
  refine ⟨_,cache,hr,rfl,?_⟩
  intro p s q t hs ht
  rw [← map_prod_left_eq_zip] at hs ht
  obtain ⟨p,_,⟨⟩⟩ := mem_map.1 hs
  obtain ⟨q,_,⟨⟩⟩ := mem_map.1 ht
  refine ⟨checker.plainState_samePeriod,fun hsu => ?_⟩
  have hf := checker.plainState_forward header hsu
  refine ⟨hf,fun ha => ?_,fun hfa => ?_⟩
  · rw [ha] at hf
    exact ThresholdState.forward_active hf
  · rw [hfa] at hf
    exact ThresholdState.forward_failed hf

section
def sampleHeader (b : Bool) : BlockHeader := ⟨if b then 0x20000001 else 4,1000,0⟩

def sampleChecker : ThresholdConditionChecker Bool :=
  versionBitsConditionChecker sampleHeader ⟨0,500,2000,0⟩ 2 2 (by decide)
def sampleEntries : List (List Bool) :=
  [false,false,true,true,false,false].tails++[false,false,false,false].tails
def sampleMedianTree : MedianTimeTree sampleHeader where
  mem p := p∈sampleEntries
  mem_tail := by decide
  mono := by decide +kernel

def sampleQueries : List (List Bool) :=
  [[false,false,true,true,false,false],[false,false,false,false],[true,true,false,false],[false]]

theorem getStateFor_eq_plainState_sample :
    (askAll (sampleChecker.getStateFor sampleHeader) sampleQueries (fun _ => none)).map Prod.fst =
      some (sampleQueries.map (sampleChecker.plainState sampleHeader)) := by
  obtain ⟨_,_,hr,ha,_⟩ := sampleChecker.getStateFor_eq_plainState sampleMedianTree
    (show ∀ p∈sampleQueries, p∈sampleEntries by decide)
  rw [hr,ha]
  rfl
end
end ThresholdConditionChecker
end Xero
