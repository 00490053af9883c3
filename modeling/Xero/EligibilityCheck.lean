import Xero.OutputGroups

/-! AutomaticCoinSelection before the filters: the groups that GroupOutputs discards for every
filter, and the check that the other coins reach the target. -/
namespace Xero
open List

structure CoinEligibilityFilter where
  confMine : Int
  confTheirs : Int
  maxAncestors : Nat
  maxDescendants : Nat
  includePartialGroups : Bool

/-- A COutput with its counts from getTransactionAncestry. The script stands for the pair of
scriptPubKey and type. -/
structure COutput (S : Type) where
  outpoint : Nat
  script : S
  value : Int
  effectiveValue : Int
  depth : Int
  fromMe : Bool
  ancestors : Nat
  descendants : Nat
deriving DecidableEq

section
variable {S : Type} (group : List (COutput S))

/-! The fields of an OutputGroup after its inserts. -/

def groupDepth : Int :=
  group.foldl (fun depth o => min depth o.depth) 999
def groupAncestors : Nat :=
  (group.map COutput.ancestors).sum
def groupDescendants : Nat :=
  group.foldl (fun descendants o => max descendants o.descendants) 0

def eligibleForSpending (filter : CoinEligibilityFilter) : Bool :=
  (if group.all COutput.fromMe then filter.confMine else filter.confTheirs)≤groupDepth group &&
    groupAncestors group≤filter.maxAncestors && groupDescendants group≤filter.maxDescendants
end
variable {S : Type}

def groupsOf [DecidableEq S] (coins : List (COutput S)) : S → List (List (COutput S)) :=
  spkToGroupsMap (coins.map fun o => (o.script,o))

/-- The groups of one script that no filter accepts, the last group first. -/
def discardGroups (filters : List CoinEligibilityFilter) :
    List (List (COutput S)) → List (List (COutput S))
  | [] => []
  | group::groups =>
    (if filters.any fun f =>
        eligibleForSpending group f && (groups.isEmpty || f.includePartialGroups)
      then [] else [group])++groups.filter fun g => !filters.any (eligibleForSpending g)

/-- The parameters that the check reads. -/
structure CoinSelectionParams where
  avoidPartialSpends : Bool
  subtractFeeOutputs : Bool
  filters : List CoinEligibilityFilter
  maxAncestors : Nat
  maxDescendants : Nat

inductive PreCheck
  | walkThrough
  | longChain
  | insufficientFunds
deriving DecidableEq

namespace CoinSelectionParams
variable (params : CoinSelectionParams)

def selectionAmount (o : COutput S) : Int :=
  if params.subtractFeeOutputs then o.value else o.effectiveValue
def getSelectionAmount (group : List (COutput S)) : Int :=
  (group.map params.selectionAmount).sum
def isLongChain (group : List (COutput S)) : Bool :=
  params.maxAncestors≤groupAncestors group || params.maxDescendants≤groupDescendants group

variable [DecidableEq S] (coins : List (COutput S))

/-- The ret_discarded_groups of GroupOutputs: with avoid_partial_spends those of all groups, then of
the positive ones. -/
def discardedGroups : List (List (COutput S)) :=
  let push := fun outs : List (COutput S) =>
    (outs.map COutput.script).dedup.flatMap fun s => discardGroups params.filters (groupsOf outs s)
  if !params.avoidPartialSpends then
    (coins.map fun o => [o]).filter fun g => !params.filters.any (eligibleForSpending g)
  else push coins++push (coins.filter fun o => 0<o.effectiveValue)

def totalDiscarded : Int :=
  ((params.discardedGroups coins).map params.getSelectionAmount).sum
def totalUnconfLongChain : Int :=
  (((params.discardedGroups coins).filter params.isLongChain).map params.getSelectionAmount).sum

def preCheck (valueToSelect : Int) : PreCheck :=
  -- the variable declared in the condition takes the value of the comparison
  let totalAmount : Int :=
    if (coins.map COutput.value).sum-params.totalDiscarded coins<valueToSelect then 1 else 0
  if totalAmount≠0 then
    if totalAmount+params.totalUnconfLongChain coins>valueToSelect then .longChain
    else .insufficientFunds
  else .walkThrough

/-- The value of the coins that are in no discarded group. -/
def eligibleAmount : Int :=
  ((coins.filter fun o => (params.discardedGroups coins).all (o∉·)).map COutput.value).sum

def PreCheckExact (valueToSelect : Int) : Prop :=
  params.preCheck coins valueToSelect≠.walkThrough →
    params.eligibleAmount coins<valueToSelect ∧
      (params.preCheck coins valueToSelect=.longChain ↔
        valueToSelect<params.eligibleAmount coins+params.totalUnconfLongChain coins)

variable {params coins}

lemma discardedGroups_single (hp : params.avoidPartialSpends=false) : params.discardedGroups coins=
      (coins.filter fun o => !params.filters.any (eligibleForSpending [o])).map fun o => [o] := by
  simp only [discardedGroups,hp,Bool.not_false,if_true]
  exact filter_map

/-- A discarded coin is counted once, so the difference of the totals is the eligible amount. -/
lemma eligibleAmount_single (hp : params.avoidPartialSpends=false)
    (hv : ∀ o∈coins, params.selectionAmount o=o.value) :
    (coins.map COutput.value).sum-params.totalDiscarded coins=params.eligibleAmount coins := by
  have hk : coins.filter (fun o => (params.discardedGroups coins).all (o∉·))=
      coins.filter fun o => params.filters.any (eligibleForSpending [o]) := by
    refine filter_congr fun o ho => ?_
    rw [discardedGroups_single hp,Bool.eq_iff_iff]
    simp only [all_eq_true,decide_eq_true_eq,forall_mem_map,mem_filter,mem_singleton]
    grind
  rw [totalDiscarded,eligibleAmount,hk,discardedGroups_single hp]
  clear hk
  induction coins with
  | nil => rfl
  | cons o coins ih =>
    have ho := hv o mem_cons_self
    have hr := ih fun o ho => hv o (mem_cons_of_mem _ ho)
    cases he : params.filters.any (eligibleForSpending [o]) <;>
      simp [he,getSelectionAmount,ho] at hr ⊢ <;> omega

/- The outputs that GroupOutputs groups by script: all of them, and the positive ones. -/
def groupedOutputs (coins : List (COutput S)) : List (List (COutput S)) :=
  [coins,coins.filter fun o => 0<o.effectiveValue]

/-- A filter that takes partial groups and every group that is formed. -/
def AcceptsAllGroups (filter : CoinEligibilityFilter) (coins : List (COutput S)) : Prop :=
  filter.includePartialGroups ∧
    ∀ outs∈groupedOutputs coins, ∀ s, ∀ g∈groupsOf outs s, eligibleForSpending g filter

omit [DecidableEq S] in
lemma discardGroups_accepted {f : CoinEligibilityFilter} (hf : f∈params.filters)
    (hp : f.includePartialGroups) {groups : List (List (COutput S))}
    (hg : ∀ g∈groups, eligibleForSpending g f) : discardGroups params.filters groups=[] := by
  cases groups with
  | nil => rfl
  | cons g gr =>
    obtain ⟨hg,hr⟩ := forall_mem_cons.mp hg
    rw [discardGroups,if_pos,nil_append,filter_eq_nil_iff]
    · simpa using fun g hg => ⟨f,hf,hr g hg⟩
    · exact any_eq_true.mpr ⟨f,hf,by simp [hg,hp]⟩

lemma discardedGroups_grouped {f : CoinEligibilityFilter} (hp : params.avoidPartialSpends)
    (hf : f∈params.filters) (ha : AcceptsAllGroups f coins) : params.discardedGroups coins=[] := by
  obtain ⟨htakes,hgroups⟩ := ha
  have hall s := discardGroups_accepted hf htakes (hgroups coins (by simp [groupedOutputs]) s)
  have hpositive s := discardGroups_accepted hf htakes
    (hgroups (coins.filter fun o => 0<o.effectiveValue) (by simp [groupedOutputs]) s)
  simp [discardedGroups,hp,hall,hpositive]

lemma preCheckExact_iff {valueToSelect : Int} : params.PreCheckExact coins valueToSelect ↔
    valueToSelect≤(coins.map COutput.value).sum-params.totalDiscarded coins ∨
      params.eligibleAmount coins<valueToSelect ∧
        (valueToSelect≤params.totalUnconfLongChain coins ↔
          valueToSelect<params.eligibleAmount coins+params.totalUnconfLongChain coins) := by
  unfold PreCheckExact preCheck
  by_cases hstop : (coins.map COutput.value).sum-params.totalDiscarded coins<valueToSelect
  · have hgo : ¬valueToSelect≤(coins.map COutput.value).sum-params.totalDiscarded coins := by omega
    by_cases hlong : 1+params.totalUnconfLongChain coins>valueToSelect
    · have hle : valueToSelect≤params.totalUnconfLongChain coins := by omega
      simp [hstop,hgo,hlong,hle]
    · have hle : ¬valueToSelect≤params.totalUnconfLongChain coins := by omega
      simp [hstop,hgo,hlong,hle]
  · have hgo : valueToSelect≤(coins.map COutput.value).sum-params.totalDiscarded coins := by omega
    simp [hstop,hgo]

end CoinSelectionParams
end Xero
