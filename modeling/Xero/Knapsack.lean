import Xero.Library.StdSort
import Mathlib.Algebra.BigOperators.Group.List.Lemmas
import Mathlib.Algebra.Order.Ring.Int

/-! KnapsackSolver of the wallet's coin selection, for an arbitrary source of randomness. What it
selects leaves no change or enough of it, where the groups allow that. -/
namespace Xero
open Library List

structure OutputGroup where
  value : Int
  effectiveValue : Int
  subtractFeeOutputs : Bool
  deriving DecidableEq, Repr

namespace OutputGroup
def getSelectionAmount (g : OutputGroup) : Int :=
  if g.subtractFeeOutputs then g.value else g.effectiveValue

def descending (a b : OutputGroup) : Bool := decide (a.getSelectionAmount>b.getSelectionAmount)
end OutputGroup
open OutputGroup

def amounts (groups : List OutputGroup) : Int := (groups.map getSelectionAmount).sum

/-- FastRandomContext, of which nothing is known. -/
structure SelectionRng (ρ : Type) where
  randbool : ρ → Bool×ρ
  shuffle : ρ → List OutputGroup → List OutputGroup×ρ
  shuffle_perm : ∀ r l, (shuffle r l).1.Perm l

/-- The flags of vfIncluded or vfBest, each with its group. -/
abbrev Flagged := List (OutputGroup×Bool)

def Flagged.groups (vf : Flagged) : List OutputGroup := (vf.filter Prod.snd).map Prod.fst
def Flagged.total (vf : Flagged) : Int := amounts vf.groups

/- The variables of ApproximateBestSubset. -/
structure SubsetState (ρ : Type) where
  vfIncluded : Flagged
  nTotal : Int
  fReachedTarget : Bool
  vfBest : Flagged
  nBest : Int
  rand : ρ

variable {ρ : Type}

/- A total between the target and the best one is the new best one. -/
def SubsetState.reach (st : SubsetState ρ) (nTotal : Int) (vfIncluded : Flagged) : SubsetState ρ :=
  if nTotal < st.nBest then {st with fReachedTarget := true, nBest := nTotal, vfBest := vfIncluded}
  else {st with fReachedTarget := true}

section
variable (rng : SelectionRng ρ)

/-- A pass over the groups from the first of `todo` on. The first pass draws; the second one takes
what was left out. -/
def subsetPass (nPass : Nat) (nTargetValue : Int) : Flagged → Flagged →
    SubsetState ρ → SubsetState ρ
  | done,[],st => {st with vfIncluded := done}
  | done,(group,included)::todo,st =>
    let draw := if nPass=0 then rng.randbool st.rand else (!included,st.rand)
    let st := {st with rand := draw.2}
    if draw.1 then
      let nTotal := st.nTotal+group.getSelectionAmount
      if nTotal≥nTargetValue then
        subsetPass nPass nTargetValue (done++[(group,false)]) todo
          (st.reach nTotal (done++(group,true)::todo))
      else subsetPass nPass nTargetValue (done++[(group,true)]) todo {st with nTotal := nTotal}
    else subsetPass nPass nTargetValue (done++[(group,included)]) todo st

def subsetRepetition (groups : List OutputGroup) (nTargetValue : Int) (st : SubsetState ρ) :
    SubsetState ρ :=
  let st := subsetPass rng 0 nTargetValue [] (groups.map fun g => (g,false))
    {st with nTotal := 0, fReachedTarget := false}
  if st.fReachedTarget then st else subsetPass rng 1 nTargetValue [] st.vfIncluded st

def subsetRepetitions (groups : List OutputGroup) (nTargetValue : Int) :
    Nat → SubsetState ρ → SubsetState ρ
  | 0,st => st
  | n+1,st =>
    if st.nBest=nTargetValue then st
    else subsetRepetitions groups nTargetValue n (subsetRepetition rng groups nTargetValue st)
def approximateBestSubset (groups : List OutputGroup) (nTotalLower nTargetValue : Int) (rand : ρ) :
    SubsetState ρ :=
  subsetRepetitions rng groups nTargetValue 1000
    ⟨[],0,false,groups.map fun g => (g,true),nTotalLower,rand⟩

/- The search of KnapsackSolver, a second time for the change as well. -/
def bestSubset (groups : List OutputGroup)
    (nTotalLower nTargetValue changeTarget : Int) (rand : ρ) :
    SubsetState ρ :=
  let best := approximateBestSubset rng groups nTotalLower nTargetValue rand
  if best.nBest≠nTargetValue ∧ nTotalLower≥nTargetValue+changeTarget then
    approximateBestSubset rng groups nTotalLower (nTargetValue+changeTarget) best.rand
  else best

/- What KnapsackSolver gathers from the groups. -/
structure KnapsackScan where
  lowestLarger : Option OutputGroup
  applicableGroups : List OutputGroup
  nTotalLower : Int

/- On the left the first group that has just the target. -/
def knapsackScan (nTargetValue changeTarget : Int) :
    List OutputGroup → KnapsackScan → OutputGroup ⊕ KnapsackScan
  | [],scan => .inr scan
  | group::groups,scan =>
    if group.getSelectionAmount=nTargetValue then .inl group
    else if group.getSelectionAmount<nTargetValue+changeTarget then
      knapsackScan nTargetValue changeTarget groups {scan with
        applicableGroups := scan.applicableGroups++[group]
        nTotalLower := scan.nTotalLower+group.getSelectionAmount}
    else if scan.lowestLarger.all fun g => group.getSelectionAmount<g.getSelectionAmount then
      knapsackScan nTargetValue changeTarget groups {scan with lowestLarger := some group}
    else knapsackScan nTargetValue changeTarget groups scan

/-- The groups that are added to the result. -/
def knapsackSolver (sorting : StdSort OutputGroup) (groups : List OutputGroup)
    (nTargetValue changeTarget : Int) (rand : ρ) : Option (List OutputGroup) :=
  let shuffled := rng.shuffle rand groups
  match knapsackScan nTargetValue changeTarget shuffled.1 ⟨none,[],0⟩ with
  | .inl group => some [group]
  | .inr scan =>
    if scan.nTotalLower=nTargetValue then some scan.applicableGroups
    else if scan.nTotalLower<nTargetValue then scan.lowestLarger.map fun g => [g]
    else
      let best := bestSubset rng (sorting.sort descending scan.applicableGroups) scan.nTotalLower
        nTargetValue changeTarget shuffled.2
      match scan.lowestLarger with
      | some larger =>
        if (best.nBest≠nTargetValue ∧ best.nBest<nTargetValue+changeTarget) ∨
            larger.getSelectionAmount≤best.nBest then some [larger] else some best.vfBest.groups
      | none => some best.vfBest.groups

variable {rng} {done todo : Flagged} {groups : List OutputGroup} {target changeTarget total : Int}
  {st : SubsetState ρ} {nPass : Nat}

lemma total_split (g : OutputGroup) (b : Bool) : Flagged.total (done++(g,b)::todo)=
    Flagged.total (done++todo)+if b then g.getSelectionAmount else 0 := by
  cases b <;> simp [Flagged.total,amounts,Flagged.groups,Int.add_comm,Int.add_left_comm]

lemma groups_flagged (groups : List OutputGroup) (b : Bool) :
    Flagged.groups (groups.map fun g => (g,b))=if b then groups else [] := by
  induction groups with
  | nil => cases b <;> rfl
  | cons g groups ih => cases b <;> simp_all [Flagged.groups]

/-- The best choice has the total that is kept for it, which reaches the target. -/
def SubsetState.Inv (target total : Int) (st : SubsetState ρ) : Prop :=
  st.nBest=st.vfBest.total ∧ target ≤ st.nBest ∧ st.nBest≤total

lemma SubsetState.Inv.reach {nt : Int} (hst : st.Inv target total) (hg : target≤nt)
    (hs : nt=done.total) :
    (st.reach nt done).Inv target total ∧ (st.reach nt done).nTotal=st.nTotal := by
  unfold SubsetState.reach
  split
  case isTrue hl => exact ⟨⟨hs,hg,hl.le.trans hst.2.2⟩,rfl⟩
  case isFalse => exact ⟨hst,rfl⟩

/- With the total that is kept for the included groups as well. -/
def SubsetState.Summed (target total : Int) (st : SubsetState ρ) : Prop :=
  st.Inv target total ∧ st.nTotal=st.vfIncluded.total

lemma subsetPass_summed (rng : SelectionRng ρ) (nPass : Nat) (done todo : Flagged)
    (hst : st.Inv target total)
    (ht : st.nTotal=Flagged.total (done++todo)) (hf : nPass=0 → ∀ p∈todo, p.2=false) :
    (subsetPass rng nPass target done todo st).Summed target total := by
  induction todo generalizing done st with
  | nil => exact ⟨hst,by simpa [subsetPass] using ht⟩
  | cons p todo ih =>
    obtain ⟨g,b⟩ := p
    have hl (h : nPass=0) : ∀ q∈todo, q.2=false := fun q hq =>
      hf h q (mem_cons_of_mem _ hq)
    have hs c : Flagged.total (done++[(g,c)]++todo)=
        Flagged.total (done++todo)+if c then g.getSelectionAmount else 0 := by
      rw [append_assoc]
      exact total_split g c
    rw [total_split] at ht
    rw [subsetPass]
    generalize hd : (if nPass=0 then rng.randbool st.rand else (!b,st.rand))=draw
    have hst' : ({st with rand := draw.2} : SubsetState ρ).Inv target total := hst
    dsimp only
    split
    case isFalse => exact ih _ hst' (by rw [hs,ht]) hl
    case isTrue hta =>
      -- what is drawn or taken was left out before
      have ho : b=false := by
        by_cases hp : nPass=0
        · exact hf hp _ mem_cons_self
        · rw [if_neg hp] at hd
          simpa [← hd] using hta
      subst ho
      have hsu : st.nTotal=Flagged.total (done++todo) := by simpa using ht
      split
      case isFalse => exact ih _ hst (by rw [hs,hsu,if_pos rfl]) hl
      case isTrue hg =>
        obtain ⟨hi,hsa⟩ := hst'.reach hg (by rw [total_split,hsu,if_pos rfl])
        exact ih _ hi (by rw [hsa,hs,ht]) hl

lemma subsetRepetitions_inv (n : Nat) (hs : st.Inv target total) :
    (subsetRepetitions rng groups target n st).Inv target total := by
  induction n generalizing st with
  | zero => exact hs
  | succ n ih =>
    rw [subsetRepetitions]
    split
    · exact hs
    refine ih ?_
    have hs' : ({st with nTotal := 0, fReachedTarget := false} :
        SubsetState ρ).Inv target total := hs
    obtain ⟨hi,ht⟩ := subsetPass_summed rng 0 [] (groups.map fun g => (g,false)) hs'
      (congrArg amounts (groups_flagged groups false)).symm (by simp)
    unfold subsetRepetition
    dsimp only
    split
    · exact hi
    · exact (subsetPass_summed rng 1 [] _ hi ht (by simp)).1

/-- The subset found reaches the target when all groups together do. -/
lemma approximateBestSubset_inv (rng : SelectionRng ρ) (hl : target≤amounts groups) (r : ρ) :
    (approximateBestSubset rng groups (amounts groups) target r).Inv target (amounts groups) :=
  subsetRepetitions_inv 1000 ⟨(congrArg amounts (groups_flagged groups true)).symm,hl,le_rfl⟩

lemma strictWeak_descending : StrictWeak descending :=
  .of_key (fun g => -g.getSelectionAmount) fun a b => by simp [descending]

/-- The best choice leaves no change or enough of it, unless the total does not. -/
def SubsetState.Good (target changeTarget total : Int) (st : SubsetState ρ) : Prop :=
  st.Inv target total ∧
    (st.nBest=target ∨ target+changeTarget ≤ st.nBest ∨ total<target+changeTarget)

lemma bestSubset_good (rng : SelectionRng ρ) (hc : 0 ≤ changeTarget) (hl : target≤amounts groups)
    (r : ρ) : (bestSubset rng groups (amounts groups) target changeTarget r).Good target
      changeTarget (amounts groups) := by
  have hf := approximateBestSubset_inv rng hl r
  unfold bestSubset
  dsimp only
  split
  case isTrue hm =>
    have hs := approximateBestSubset_inv rng hm.2
      (approximateBestSubset rng groups (amounts groups) target r).rand
    have hg := hs.2.1
    exact ⟨⟨hs.1,by omega,hs.2.2⟩,.inr (.inl hg)⟩
  case isFalse hd => exact ⟨hf,by omega⟩

/-- What is gathered from the groups that were seen. -/
structure Scanned (target changeTarget : Int) (seen : List OutputGroup)
    (scan : KnapsackScan) : Prop where
  total : scan.nTotalLower=amounts scan.applicableGroups
  applicable : scan.applicableGroups=seen.filter (·.getSelectionAmount<target+changeTarget)
  larger : ∀ g∈scan.lowestLarger, target+changeTarget≤g.getSelectionAmount
  noLarger : scan.lowestLarger=none → ∀ g∈seen, g.getSelectionAmount<target+changeTarget

lemma Scanned.knapsackScan {s : KnapsackScan} {se : List OutputGroup}
    (h : Scanned target changeTarget se s) :
    Sum.elim (fun g => g.getSelectionAmount=target) (Scanned target changeTarget (se++groups))
      (knapsackScan target changeTarget groups s) := by
  induction groups generalizing se s with
  | nil => simpa [Xero.knapsackScan] using h
  | cons g groups ih =>
    rw [Xero.knapsackScan,append_cons]
    split
    case isTrue he => exact he
    split
    case isTrue hl =>
      refine ih ⟨by simp [amounts,h.total],by simp [h.applicable,hl],h.larger,fun hn x hx => ?_⟩
      obtain hx | hx := mem_append.mp hx
      · exact h.noLarger hn x hx
      · rwa [mem_singleton.mp hx]
    case isFalse hg =>
      have hs : s.applicableGroups= (se++[g]).filter
          (·.getSelectionAmount<target+changeTarget) := by
        simp [h.applicable,hg]
      split
      · exact ih ⟨h.total,hs,by simpa using hg,nofun⟩
      case isFalse ha =>
        exact ih ⟨h.total,hs,h.larger,fun hn => absurd (by simp [hn]) ha⟩

/-- A selection has the target or leaves the change that is wanted, unless no group and not all of
the smaller groups together reach both. -/
theorem knapsackSolver_avoidsSmallChange (rng : SelectionRng ρ) (sorting : StdSort OutputGroup)
    (groups : List OutputGroup) (nTargetValue changeTarget : Int) (hchange : 0 ≤ changeTarget)
    (rand : ρ) (selected : List OutputGroup)
    (h : knapsackSolver rng sorting groups nTargetValue changeTarget rand=some selected) :
    nTargetValue≤amounts selected ∧ (amounts selected=nTargetValue ∨
      nTargetValue+changeTarget≤amounts selected ∨
      (∀ g∈groups, g.getSelectionAmount<nTargetValue+changeTarget) ∧
        amounts (groups.filter (·.getSelectionAmount<nTargetValue+changeTarget))<
          nTargetValue+changeTarget) := by
  have hperm := rng.shuffle_perm rand groups
  unfold knapsackSolver at h
  generalize rng.shuffle rand groups=shuffled at h hperm
  have hone g : amounts [g]=g.getSelectionAmount := by simp [amounts]
  have hspec : Sum.elim _ (Scanned nTargetValue changeTarget ([]++shuffled.1))
      (knapsackScan nTargetValue changeTarget shuffled.1 ⟨none,[],0⟩) :=
    Scanned.knapsackScan ⟨rfl,rfl,nofun,nofun⟩
  dsimp only at h
  generalize knapsackScan nTargetValue changeTarget shuffled.1 ⟨none,[],0⟩=found at h hspec
  obtain g | scan := found
  · rw [← Option.some_inj.mp h,hone,show g.getSelectionAmount=nTargetValue from hspec]
    exact ⟨le_rfl,.inl rfl⟩
  obtain ⟨htot,happ,hlarge,hnone⟩ := hspec
  dsimp only at h
  split at h
  case isTrue heq =>
    rw [← Option.some_inj.mp h,← htot,heq]
    exact ⟨le_rfl,.inl rfl⟩
  split at h
  case isTrue hlt =>
    obtain ⟨g,hg,rfl⟩ := Option.map_eq_some_iff.mp h
    have hle := hlarge g hg
    rw [hone]
    exact ⟨by omega,.inr (.inl hle)⟩
  case isFalse hne hge =>
    have hsort := sorting.perm strictWeak_descending scan.applicableGroups
    have hsum : amounts (sorting.sort descending scan.applicableGroups)=scan.nTotalLower :=
      (hsort.map _).sum_eq.trans htot.symm
    have hsmall : amounts (groups.filter (·.getSelectionAmount<nTargetValue+changeTarget))=
        scan.nTotalLower := by
      rw [htot,happ]
      exact ((hperm.filter _).map _).sum_eq.symm
    generalize sorting.sort descending scan.applicableGroups=sorted at h hsum
    obtain ⟨⟨hbest,hle,-⟩,hgood⟩ := bestSubset_good rng hchange
        (hsum.symm ▸ not_lt.mp hge) shuffled.2
    rw [hsum] at hbest hle hgood
    generalize bestSubset rng sorted scan.nTotalLower nTargetValue changeTarget shuffled.2=best at *
    cases hcase : scan.lowestLarger with
    | none =>
      simp only [hcase,Option.some.injEq] at h
      rw [← h,hsmall,show amounts _=_ from hbest.symm]
      refine ⟨hle,hgood.imp_right (Or.imp_right fun hlt => ⟨fun g hg => ?_,hlt⟩)⟩
      exact hnone hcase g (hperm.mem_iff.mpr hg)
    | some larger =>
      have hl := hlarge larger hcase
      simp only [hcase] at h
      split at h
      case isTrue =>
        rw [← Option.some_inj.mp h,hone]
        exact ⟨by omega,.inr (.inl hl)⟩
      case isFalse hno =>
        rw [← Option.some_inj.mp h,show amounts _=_ from hbest.symm]
        exact ⟨hle,by omega⟩

theorem knapsackSolver_avoidsSmallChange_subset :
    let rng : SelectionRng Unit := ⟨fun r => (true,r),fun r l => (l,r),fun _ _ => .refl _⟩
    let groups : List OutputGroup := [⟨5,5,true⟩,⟨4,4,true⟩,⟨2,2,true⟩]
    let selected : List OutputGroup := [⟨5,5,true⟩,⟨2,2,true⟩]
    knapsackSolver rng .merge groups 7 3 ()=some selected ∧ 7≤amounts selected := by
  intro rng groups selected
  have hsort : StdSort.merge.sort descending groups=groups := by
    simp [groups,StdSort.merge,List.mergeSort,descending,getSelectionAmount]
  have hsolve : knapsackSolver rng .merge groups 7 3 ()=some selected := by
    change some (Flagged.groups (bestSubset rng (StdSort.merge.sort descending groups)
      11 7 3 ()).vfBest)=_
    rw [hsort]
    rfl
  exact ⟨hsolve,(knapsackSolver_avoidsSmallChange rng .merge groups 7 3 (by decide) () _ hsolve).1⟩
end
end Xero
