import Xero.VersionBits

/-! Unanimous signalling under the window and the threshold that each network ships: it locks in
unless the threshold is above the window. -/
namespace Xero
open Library List

inductive ChainType where
  | main
  | test
  | signet
  | regtest
deriving DecidableEq, Repr

def ChainType.nMinerConfirmationWindow : ChainType → Nat
  | .main | .test | .signet => 12
  | .regtest => 144
def ChainType.nRuleChangeActivationThreshold : ChainType → Int
  | .main | .signet => 11
  | .test => 1512
  | .regtest => 108

namespace ThresholdConditionChecker
variable {B : Type} {header : B → BlockHeader} {checker : ThresholdConditionChecker B}
  {last pindexPrev : List B}

/- The state of a period follows from the one before by the switch of the forward walk. -/
lemma plainState_next {s : ThresholdState} (hb : checker.beginTime≠ALWAYS_ACTIVE)
    (hnv : checker.beginTime≠NEVER_ACTIVE) (hne : last≠[]) (he : checker.PeriodEnd last)
    (hn : pindexPrev.drop (pindexPrev.length%checker.period)=last)
    (hs : checker.plainState header (last.drop checker.period)=s) :
    checker.plainState header pindexPrev=checker.stateNext header s last := by
  have hp := Nat.mod_eq_zero_of_dvd (checker.periodEnd_drop he)
  rw [plainState,if_neg hb,if_neg hnv] at hs ⊢
  rw [hp,drop_zero] at hs
  rw [hn,periodState_of_ne_nil header checker hne,hs]

lemma countConditions_unanimous (h : ∀ i < checker.period, checker.condition (last.drop i)) :
    checker.countConditions last=checker.period := by
  rw [countConditions,countP_eq_length.2 fun i hi => h i (mem_range.1 hi),length_range]

variable [DecidableEq B]

/-- A period that is STARTED and ends at `last` is followed by one that is LOCKED_IN if all its
blocks signal, whichever block of that one is asked about. -/
def UnanimousLocksIn (header : B → BlockHeader) (checker : ThresholdConditionChecker B) : Prop :=
  ∀ (tree : MedianTimeTree header) (cache : Cache B) (last pindexPrev : List B),
    tree.mem pindexPrev → checker.CacheSound header cache → last≠[] → checker.PeriodEnd last →
    pindexPrev.drop (pindexPrev.length%checker.period)=last →
    checker.plainState header (last.drop checker.period)=.started →
    (∀ i < checker.period, checker.condition (last.drop i)) →
    ∃ cache', checker.getStateFor header pindexPrev cache=some (.lockedIn,cache')

lemma unanimousLocksIn_of_le (hl : checker.threshold ≤ checker.period) :
    checker.UnanimousLocksIn header := by
  intro t _ _ _ hm hc hne he hn hs ha
  obtain ⟨c',han,_⟩ := checker.getStateFor_spec t hm hc
  have hal : checker.beginTime≠ALWAYS_ACTIVE := fun h => by simp [plainState,h] at hs
  have hnv : checker.beginTime≠NEVER_ACTIVE := fun h => by
    simp [plainState,h,ALWAYS_ACTIVE,NEVER_ACTIVE] at hs
  refine ⟨c',?_⟩
  rw [han,plainState_next hal hnv hne he hn hs,stateNext,countConditions_unanimous ha,if_pos hl]
end ThresholdConditionChecker

open ThresholdConditionChecker

/-- Whatever is deployed with the window and the threshold of the network. -/
def ChainType.LocksIn (net : ChainType) : Prop :=
  ∀ (B : Type) [DecidableEq B] (header : B → BlockHeader) (checker : ThresholdConditionChecker B),
    checker.period=net.nMinerConfirmationWindow →
    checker.threshold=net.nRuleChangeActivationThreshold → checker.UnanimousLocksIn header

/-- The state changes of a checker that is open from the first period on and whose threshold no
period can reach: STARTED follows DEFINED and stays. -/
lemma ThresholdConditionChecker.plainState_stuck {B : Type} {header : B → BlockHeader}
    {checker : ThresholdConditionChecker B} (hover : (checker.period : Int) < checker.threshold)
    (hbegin : checker.beginTime=0)
    (htime : ∀ p≠[], 0 ≤ medianTimePast header p ∧ medianTimePast header p < checker.endTime)
    {last : List B} (hlast : last≠[]) (hend : checker.PeriodEnd last) :
    checker.plainState header last=.started := by
  have hperiod : ∀ p≠[], checker.periodState header p=.started := by
    intro p
    induction hn : p.length using Nat.strong_induction_on generalizing p with
    | _ n ih =>
      intro hne
      obtain ⟨hlo,hhi⟩ := htime p hne
      rw [periodState_of_ne_nil header checker hne]
      by_cases hprev : p.drop checker.period=[]
      · rw [hprev,periodState_nil,stateNext,if_pos (by omega)]
      · have hpos := checker.period_pos
        have hlen := length_pos_iff.2 hne
        have hcount : checker.countConditions p ≤ checker.period := by
          rw [countConditions]
          exact countP_le_length.trans_eq length_range
        rw [ih _ (by rw [length_drop]; omega) _ rfl hprev,stateNext,if_neg (by omega),
            if_neg (by omega)]
  rw [plainState,hbegin,if_neg (by decide),if_neg (by decide),Nat.mod_eq_zero_of_dvd hend,drop_zero]
  exact hperiod last hlast

section
variable {B : Type}

/- ComputeBlockVersion: the top bits and the bit of each deployment that is STARTED or LOCKED_IN.
   The cache is left out, since it never changes an answer. -/
def computeBlockVersion (header : B → BlockHeader) (deployments : List BIP9Deployment)
    (net : ChainType) (pindexPrev : List B) : Nat :=
  deployments.foldl (fun nVersion dep =>
    let state := (versionBitsConditionChecker header dep net.nMinerConfirmationWindow
      net.nRuleChangeActivationThreshold (by cases net <;> decide)).plainState header pindexPrev
    if state=.lockedIn ∨ state=.started then nVersion ||| dep.mask
        else nVersion) VERSIONBITS_TOP_BITS

/-- Blocks that signal on a bit for which the node itself would not signal, from the height on at
which the network looks at unknown bits. -/
def warningBitsConditionChecker (header : B → BlockHeader) (deployments : List BIP9Deployment)
    (net : ChainType) (minBIP9WarningHeight : Int) (bit : Nat) : ThresholdConditionChecker B where
  beginTime := 0
  endTime := 2^63-1
  minActivationHeight := 0
  period := net.nMinerConfirmationWindow
  threshold := net.nRuleChangeActivationThreshold
  condition pindex :=
    decide (minBIP9WarningHeight≤(pindex.length : Int)-1) &&
    pindex.head?.any (fun b =>
      let nVersion := ((header b).nVersion%2^32).toNat
      nVersion &&& VERSIONBITS_TOP_MASK == VERSIONBITS_TOP_BITS && (nVersion >>> bit) &&& 1 != 0) &&
    (computeBlockVersion header deployments net pindex.tail >>> bit) &&& 1 == 0
  period_pos := by cases net <;> decide

/- What the test network ships: a dummy that is never active, and taproot, always active. -/
def testDeployments : List BIP9Deployment :=
  [⟨28,NEVER_ACTIVE,2^63-1,0⟩,⟨2,ALWAYS_ACTIVE,2^63-1,0⟩]

def unknownHeader (_ : Unit) : BlockHeader := ⟨0x20000001,1765296310,0⟩

/- The checker the test network runs for bit 0, under a chain that signals on it in every block. -/
def testWarning : ThresholdConditionChecker Unit :=
  warningBitsConditionChecker unknownHeader testDeployments .test 836640 0

lemma unknown_median {p : List Unit} (hp : p≠[]) : medianTimePast unknownHeader p=1765296310 := by
  have hr : p=replicate p.length () := eq_replicate_iff.2 ⟨rfl,fun _ _ => rfl⟩
  have hlen := length_pos_iff.2 hp
  have hsorted : (replicate (min nMedianTimeSpan p.length) (1765296310 : Int)).insertionSort (·≤·) =
      replicate (min nMedianTimeSpan p.length) 1765296310 :=
    (pairwise_replicate.2 (.inr le_rfl)).insertionSort_eq
  have ht : (unknownHeader ()).getBlockTime=1765296310 := by decide
  unfold medianTimePast HeaderChain.getMedianTimePast
  rw [hr,map_replicate,take_replicate,map_replicate,ht]
  simp only [length_replicate,hsorted]
  rw [getD_replicate]
  unfold nMedianTimeSpan
  omega

def unknownTree : MedianTimeTree unknownHeader where
  mem _ := True
  mem_tail _ _ := trivial
  mono p _ hp := by
    have hne : p≠[] := by
      rintro rfl
      exact hp rfl
    rw [unknown_median hp,unknown_median hne]

lemma test_computeBlockVersion (p : List Unit) :
    computeBlockVersion unknownHeader testDeployments .test p=VERSIONBITS_TOP_BITS := by
  simp [computeBlockVersion,testDeployments,plainState,versionBitsConditionChecker,ALWAYS_ACTIVE,
    NEVER_ACTIVE]

lemma testWarning_condition {n : Nat} (hn : 836640<n) : testWarning.condition (replicate n ()) := by
  obtain ⟨m,rfl⟩ := Nat.exists_eq_add_of_lt hn
  have hheight : decide ((836640 : Int)≤((replicate (836640+m+1) ()).length : Int)-1) := by
    rw [length_replicate,decide_eq_true_iff]
    omega
  have hhead : (replicate (836640+m+1) ()).head? = some () := by
    rw [replicate_succ,head?_cons]
  simp only [testWarning,warningBitsConditionChecker,test_computeBlockVersion,hheight,hhead]
  decide

lemma testWarning_started {n : Nat} (hpos : 0<n) (hn : 12∣n) :
    testWarning.plainState unknownHeader (replicate n ())=.started := by
  refine plainState_stuck (by decide) rfl (fun p hp => ?_) ?_ ?_
  · rw [unknown_median hp]
    decide
  · rw [ne_eq,replicate_eq_nil_iff]
    omega
  · rw [PeriodEnd,length_replicate]
    exact hn

/- The period of heights 836640 to 836651. -/
lemma testWarning_unanimous (i : Nat) (hi : i<testWarning.period) :
    testWarning.condition ((replicate 836652 ()).drop i) := by
  have hp : testWarning.period=12 := rfl
  rw [drop_replicate]
  exact testWarning_condition (by omega)

lemma testWarning_not_locksIn : ¬testWarning.UnanimousLocksIn unknownHeader := by
  intro h
  have hc := tableSound_empty testWarning.PeriodEnd (testWarning.periodState unknownHeader)
  have hend : testWarning.PeriodEnd (replicate 836652 ()) := by
    rw [PeriodEnd,length_replicate]
    exact Dvd.intro 69721 rfl
  have hlast : (replicate 836652 ()).drop ((replicate 836652 ()).length%testWarning.period) =
      replicate 836652 () := by
    rw [Nat.mod_eq_zero_of_dvd hend,drop_zero]
  have hbefore : testWarning.plainState unknownHeader
      ((replicate 836652 ()).drop testWarning.period)=.started := by
    rw [drop_replicate]
    exact testWarning_started (by decide) (Dvd.intro 69720 rfl)
  obtain ⟨_,hl⟩ := h unknownTree _ _ _ trivial hc
      (ne_nil_of_length_pos (by rw [length_replicate]; decide)) hend hlast hbefore
      testWarning_unanimous
  obtain ⟨_,ha,_⟩ := testWarning.getStateFor_spec unknownTree trivial hc
  have hstuck : testWarning.plainState unknownHeader (replicate 836652 ())=.started :=
    testWarning_started (by decide) (Dvd.intro 69721 rfl)
  rw [ha,hstuck] at hl
  cases hl
end

theorem ChainType.locksIn_iff (net : ChainType) :
    net.LocksIn ↔ net.nRuleChangeActivationThreshold≤net.nMinerConfirmationWindow := by
  constructor
  · intro h
    cases net with
    | main | signet | regtest => decide
    | test => exact absurd (h Unit unknownHeader testWarning rfl rfl) testWarning_not_locksIn
  · intro hl B _ _ _ hp ht
    exact unanimousLocksIn_of_le (by rw [hp,ht]; exact hl)

/- The checker behind the warning about unknown rules stays STARTED after a period of twelve blocks
that all signal. -/
theorem testnet_never_locksIn : ¬ChainType.test.LocksIn ∧
    (∀ i<testWarning.period, testWarning.condition ((replicate 836652 ()).drop i)) ∧
    testWarning.plainState unknownHeader (replicate 836640 ())=.started ∧
    testWarning.plainState unknownHeader (replicate 836652 ())=.started :=
  ⟨fun h =>
      testWarning_not_locksIn (h Unit unknownHeader testWarning rfl rfl),testWarning_unanimous,
    testWarning_started (by decide) (Dvd.intro 69720 rfl),
    testWarning_started (by decide) (Dvd.intro 69721 rfl)⟩
end Xero
