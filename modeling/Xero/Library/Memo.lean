import Mathlib.Logic.Function.Basic

/-! Memoized computations: a table that only holds right answers, and a run of queries that
share one table. -/
namespace Xero.Library
open Function
variable {κ α σ : Type}

/-- Every entry of the table has an allowed key and holds the answer of `spec` there. -/
def TableSound (allowed : κ → Prop) (spec : κ → α) (table : κ → Option α) : Prop :=
  ∀ k a, table k=some a → allowed k ∧ a=spec k

lemma tableSound_empty (al : κ → Prop) (s : κ → α) : TableSound al s (fun _ => none) := by
  intro k a h
  cases h

lemma TableSound.insert [DecidableEq κ] {al : κ → Prop} {s : κ → α} {t : κ → Option α}
    (h : TableSound al s t) {k : κ} (hk : al k) : TableSound al s (update t k (some (s k))) := by
  intro k' a ha
  by_cases he : k'=k
  · subst he
    rw [update_self] at ha
    exact ⟨hk,(Option.some.inj ha).symm⟩
  · rw [update_of_ne he] at ha
    exact h k' a ha

/-- The answers of a sequence of queries that thread one state. -/
def askAll (ask : κ → σ → Option (α×σ)) : List κ → σ → Option (List α×σ)
  | [], s => some ([],s)
  | q::qs, s => do
    let (a,s) ← ask q s
    let (as,s) ← askAll ask qs s
    pure (a::as,s)

/-- When each query answers by `spec` and keeps the invariant, so does every sequence. -/
lemma askAll_eq {ask : κ → σ → Option (α×σ)} {sp : κ → α} {I : σ → Prop} {P : κ → Prop}
    (hst : ∀ q s, P q → I s → ∃ s', ask q s=some (sp q,s') ∧ I s') {qs : List κ} {s : σ}
    (hq : ∀ q∈qs, P q) (hs : I s) : ∃ s', askAll ask qs s=some (qs.map sp,s') ∧ I s' := by
  induction qs generalizing s with
  | nil => exact ⟨s,rfl,hs⟩
  | cons q qs ih =>
    obtain ⟨_,ha,hs1⟩ := hst q s (hq q List.mem_cons_self) hs
    obtain ⟨s2,hal,hs2⟩ := ih (fun r hr => hq r (List.mem_cons_of_mem _ hr)) hs1
    refine ⟨s2,?_,hs2⟩
    simp [askAll,ha,hal]
end Xero.Library
