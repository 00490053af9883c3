import Xero.Mempool

/-! The spend relation of the pool, the packages it gives, and the two walks along the cached links
that compute them. -/
namespace Xero
open Library Relation Finset
variable {d h it : Uint256}
namespace TxMemPool
variable {s t : TxMemPool}

def Spends (s : TxMemPool) (child parent : Uint256) : Prop :=
  child∈s.mapTx ∧ parent∈s.mapTx ∧ ∃ o∈(s.entry child).prevouts, o.hash=parent

section
open Classical

noncomputable def ancestors (s : TxMemPool) (h : Uint256) : Finset Uint256 :=
  s.mapTx.filter fun a => ReflTransGen s.Spends h a

noncomputable def descendants (s : TxMemPool) (h : Uint256) : Finset Uint256 :=
  s.mapTx.filter fun d => ReflTransGen s.Spends d h
end

lemma mem_ancestors {a : Uint256} : a∈s.ancestors h ↔ a∈s.mapTx ∧ ReflTransGen s.Spends h a := by
  simp [ancestors]

lemma mem_descendants : d∈s.descendants h ↔ d∈s.mapTx ∧ ReflTransGen s.Spends d h := by
  simp [descendants]

/-- The links to parents are those of the spend relation. -/
def ParentsCorrect (s : TxMemPool) : Prop :=
  ∀ h∈s.mapTx, ∀ p, p∈(s.entry h).parents ↔ s.Spends h p

/-- The links to children are those of the spend relation. -/
def ChildrenCorrect (s : TxMemPool) : Prop :=
  ∀ h∈s.mapTx, ∀ c, c∈(s.entry h).children ↔ s.Spends c h

def Acyclic (s : TxMemPool) : Prop := ∀ h, ¬TransGen s.Spends h h

lemma Spends.left_mem {c p : Uint256} (h : ReflTransGen s.Spends c p) (hp : p∈s.mapTx) :
    c∈s.mapTx := by
  induction h using ReflTransGen.head_induction_on with
  | refl => exact hp
  | head hc _ _ => exact hc.1

lemma Spends.right_mem {c p : Uint256} (h : ReflTransGen s.Spends c p) (hc : c∈s.mapTx) :
    p∈s.mapTx := by
  induction h with
  | refl => exact hc
  | tail _ hd _ => exact hd.2.1

section
variable (hch : s.ChildrenCorrect)
include hch

lemma ChildrenCorrect.reaches_children (hh : h∈s.mapTx) :
    Reaches (fun h => (s.entry h).children) h d ↔ ReflTransGen s.Spends d h := by
  constructor
  · intro hr
    induction hr with
    | refl => exact .refl
    | tail hhb hb ih => exact .head ((hch _ (Spends.left_mem ih hh) _).mp hb) ih
  · intro hs
    induction hs using ReflTransGen.head_induction_on with
    | refl => exact .refl
    | head ha _ ih => exact .tail ih ((hch _ ha.2.1 _).mpr ha)

lemma ChildrenCorrect.mem_calculateDescendants (hi : it∈s.mapTx)
    {se : Finset Uint256} (hcl : ∀ h∈se, (s.entry h).children⊆se) (d : Uint256) :
    d∈s.calculateDescendants it se ↔ d∈se ∨ d∈s.descendants it := by
  have hn : ∀ h∈s.mapTx, (s.entry h).children⊆s.mapTx := fun h hh c hc => ((hch h hh c).mp hc).1
  have hco stage : ∀ h∈se, (s.entry h).children⊆se ∪ stage :=
    fun h hh => (hcl h hh).trans subset_union_left
  have hf : (s.mapTx \ se).card ≤ s.mapTx.card := card_le_card sdiff_subset
  unfold calculateDescendants
  by_cases hs : it∈se
  · rw [if_pos hs,mem_explore hn _ (empty_subset _) (disjoint_empty_left _) (hco ∅) hf]
    have hin (hd : d∈s.descendants it) : d∈se := by
      have hr := (hch.reaches_children hi).mpr (mem_descendants.mp hd).2
      have ho := Reaches.seen_or_waiting (hco ∅) hr hs
      simpa using ho
    constructor
    · intro ho
      exact .inl (by simpa using ho)
    · intro ho
      exact .inl (ho.elim id hin)
  · rw [if_neg hs,mem_explore hn _ (singleton_subset_iff.mpr hi)
      (disjoint_singleton_left.mpr hs) (hco {it}) hf]
    simp only [mem_singleton,exists_eq_left,hch.reaches_children hi]
    have hm : ReflTransGen s.Spends d it ↔ d∈s.descendants it :=
      ⟨fun h => mem_descendants.mpr ⟨Spends.left_mem h hi,h⟩,fun h => (mem_descendants.mp h).2⟩
    rw [hm]

lemma ChildrenCorrect.calculateDescendants_eq (hi : it∈s.mapTx) :
    s.calculateDescendants it ∅=s.descendants it := by
  ext d
  simp [hch.mem_calculateDescendants hi]

lemma ChildrenCorrect.descendants_closed (hd : d∈s.descendants h) :
    (s.entry d).children⊆s.descendants h := by
  intro c hc
  obtain ⟨hdp,hs⟩ := mem_descendants.mp hd
  have hcd := (hch d hdp c).mp hc
  exact mem_descendants.mpr ⟨hcd.1,.head hcd hs⟩

lemma ChildrenCorrect.mem_calculateAllDescendants {its : Finset Uint256} (hits : its⊆s.mapTx)
    (d : Uint256) : d∈s.calculateAllDescendants its ↔ ∃ it∈its, d∈s.descendants it := by
  -- Every set of whole packages that the loop has collected grows by one more package.
  have hf (todo : List Uint256) (ht : ∀ it∈todo, it∈s.mapTx) (seen : Finset Uint256)
      (hcl : ∀ h∈seen, (s.entry h).children⊆seen) :
      d∈todo.foldl (fun seen it => s.calculateDescendants it seen) seen ↔
        d∈seen ∨ ∃ it∈todo, d∈s.descendants it := by
    induction todo generalizing seen with
    | nil => simp
    | cons it todo ih =>
      have hit := ht it (by simp)
      have hm := hch.mem_calculateDescendants hit hcl
      have hcl' : ∀ h∈s.calculateDescendants it seen,
          (s.entry h).children⊆s.calculateDescendants it seen := by
        intro h hh c hc
        rw [hm] at hh ⊢
        cases hh with
        | inl hs => exact .inl (hcl h hs hc)
        | inr hd => exact .inr (hch.descendants_closed hd hc)
      rw [List.foldl_cons,ih (fun x hx => ht x (by simp [hx])) _ hcl',hm]
      simp only [List.mem_cons,exists_eq_or_imp]
      tauto
  have h := hf its.sort (fun it hit => hits ((its.mem_sort _).mp hit)) ∅ (by simp)
  simpa [calculateAllDescendants] using h
end

lemma ancestorsWithinLimits_noLimits {es ec : Nat} (n ts : Nat) (st f : Finset Uint256) :
    s.ancestorsWithinLimits .noLimits es ec n ts st f=
      .ok (explore (fun h => (s.entry h).parents) n st f) := by
  induction n generalizing ts st f with
  | zero => rfl
  | succ n ih =>
    unfold ancestorsWithinLimits explore
    split
    · simp only [checkLimit,MemPoolLimits.noLimits] at ih ⊢
      split <;> exact ih ..
    · rfl

section
variable (hpr : s.ParentsCorrect)
include hpr

lemma ParentsCorrect.reaches_parents {a : Uint256} (hh : h∈s.mapTx) :
    Reaches (fun h => (s.entry h).parents) h a ↔ ReflTransGen s.Spends h a := by
  constructor
  · intro hr
    induction hr with
    | refl => exact .refl
    | tail hhb hb ih => exact .tail ih ((hpr _ (Spends.right_mem ih hh) _).mp hb)
  · intro hs
    induction hs with
    | refl => exact .refl
    | tail hhb hb ih => exact .tail ih ((hpr _ hb.1 _).mpr hb)

lemma ParentsCorrect.mem_explore_parents {st : Finset Uint256} (hs : st⊆s.mapTx)
    (a : Uint256) : a∈explore (fun h => (s.entry h).parents) s.mapTx.card st ∅ ↔
      ∃ p∈st, a∈s.ancestors p := by
  have hn : ∀ h∈s.mapTx, (s.entry h).parents⊆s.mapTx := fun h hh p hp => ((hpr h hh p).mp hp).2.1
  rw [mem_explore hn _ hs (disjoint_empty_right _) (by simp) (card_le_card sdiff_subset)]
  simp only [notMem_empty,false_or]
  refine exists_congr fun p => and_congr_right fun hp => ?_
  rw [hpr.reaches_parents (hs hp),mem_ancestors]
  exact ⟨fun h => ⟨Spends.right_mem h (hs hp),h⟩,And.right⟩

lemma ParentsCorrect.assumeCalculateMemPoolAncestors_eq (hac : s.Acyclic) (hi : it∈s.mapTx) :
    s.assumeCalculateMemPoolAncestors (s.entry it) false=(s.ancestors it).erase it := by
  have ho : s.calculateMemPoolAncestors (s.entry it) .noLimits false=
      .ok (explore (fun h => (s.entry h).parents) s.mapTx.card (s.entry it).parents ∅) := by
    exact ancestorsWithinLimits_noLimits ..
  have hin : (s.entry it).parents⊆s.mapTx := fun p hp => ((hpr it hi p).mp hp).2.1
  ext a
  rw [assumeCalculateMemPoolAncestors,ho]
  simp only [hpr.mem_explore_parents hin,mem_erase,mem_ancestors]
  constructor
  · rintro ⟨p,hp,ha,hpa⟩
    have hs := (hpr it hi p).mp hp
    refine ⟨?_,ha,.head hs hpa⟩
    rintro rfl
    exact hac a (.head' hs hpa)
  · rintro ⟨hn,ha,hia⟩
    cases hia.cases_head with
    | inl he => exact absurd he.symm hn
    | inr hso =>
      obtain ⟨p,hs,hpa⟩ := hso
      exact ⟨p,(hpr it hi p).mpr hs,ha,hpa⟩
end
end TxMemPool
end Xero
