import Xero.Library.Ensures

/-! Loops that end: a body that gives a result or the next state, a measure that falls, and rules
for what a run returns. -/
namespace Xero.Library
variable {σ α ε : Type}

/-- A loop body and the measure that makes it end. -/
structure Loop (σ α ε : Type) where
  body : σ → Except ε (α ⊕ σ)
  measure : σ → Nat
  decreases : ∀ s s', body s=.ok (.inr s') → measure s' < measure s

namespace Loop
variable (l : Loop σ α ε)

def run (s : σ) : Except ε α :=
  match _h : l.body s with
  | .error e => .error e
  | .ok (.inl a) => .ok a
  | .ok (.inr s') => run s'
termination_by l.measure s
decreasing_by exact l.decreases s s' _h

variable {l} {s s' : σ} {a : α}

lemma run_of_done (h : l.body s=.ok (.inl a)) : l.run s=.ok a := by
  unfold run
  split
  all_goals simp_all

lemma run_of_next (h : l.body s=.ok (.inr s')) : l.run s=l.run s' := by
  rw [run]
  split
  all_goals simp_all

lemma run_of_error {e : ε} (h : l.body s=.error e) : l.run s=.error e := by
  unfold run
  split
  all_goals simp_all

/-- The rule with an invariant: the body keeps it or gives a result. -/
lemma run_ensures {al : ε → Prop} {p : α → Prop} {inv : σ → Prop}
    (hbo : ∀ s, inv s → Ensures al (Sum.elim p inv) (l.body s)) (hs : inv s) :
    Ensures al p (l.run s) := by
  induction hm : l.measure s using Nat.strongRecOn generalizing s with
  | ind m ih =>
    have hst := hbo s hs
    cases hb : l.body s with
    | error e =>
      rw [run_of_error hb]
      exact hst.error hb
    | ok r =>
      have hr := hst.ok hb
      cases r with
      | inl a =>
        rw [run_of_done hb]
        exact hr
      | inr s' =>
        rw [run_of_next hb]
        exact ih (l.measure s') (hm ▸ l.decreases s s' hb) hr rfl

/-- What holds where the loop returns, and of a state when it holds of the next, holds wherever the
run returns. -/
lemma run_backward {P : σ → Prop} (hd : ∀ s, l.body s=.ok (.inl a) → P s)
    (hn : ∀ s s', l.body s=.ok (.inr s') → P s' → P s) (hs : l.run s=.ok a) : P s := by
  induction hm : l.measure s using Nat.strongRecOn generalizing s with
  | ind m ih =>
    cases hb : l.body s with
    | error e =>
      rw [run_of_error hb] at hs
      cases hs
    | ok r =>
      cases r with
      | inl a' =>
        rw [run_of_done hb] at hs
        cases hs
        exact hd s hb
      | inr s' =>
        rw [run_of_next hb] at hs
        exact hn s s' hb (ih (l.measure s') (hm ▸ l.decreases s s' hb) hs rfl)
end Loop

/-- A loop whose body need not end everywhere; none without rounds left. -/
def runRounds (body : σ → Except ε (α ⊕ σ)) : Nat → σ → Option (Except ε α)
  | 0, _ => none
  | n+1, s =>
    match body s with
    | .error e => some (.error e)
    | .ok (.inl a) => some (.ok a)
    | .ok (.inr s') => runRounds body n s'

section
variable {bo : σ → Except ε (α ⊕ σ)} {s : σ}

/-- More rounds do not change what the loop returns. -/
lemma runRounds_of_le {r : Except ε α} {n m : Nat} (hn : runRounds bo n s=some r) (hl : n ≤ m) :
    runRounds bo m s=some r := by
  induction n generalizing s m with
  | zero => cases hn
  | succ n ih =>
    obtain ⟨m,rfl⟩ : ∃ k, m=k+1 := ⟨m-1,by omega⟩
    simp only [runRounds] at hn ⊢
    cases hb : bo s with
    | error e => simpa [hb] using hn
    | ok nx =>
      cases nx with
      | inl a => simpa [hb] using hn
      | inr s' =>
        simp only [hb] at hn ⊢
        exact ih hn (by omega)

/-- The rule with an invariant and a measure that falls where the invariant holds: the loop ends. -/
lemma runRounds_ensures {al : ε → Prop} {p : α → Prop} {inv : σ → Prop} {m : σ → Nat}
    (hbo : ∀ s, inv s → Ensures al (Sum.elim p fun s' => inv s' ∧ m s' < m s) (bo s)) (hs : inv s)
    {n : Nat} (hn : m s<n) : ∃ r, runRounds bo n s=some r ∧ Ensures al p r := by
  induction n generalizing s with
  | zero => omega
  | succ n ih =>
    have hst := hbo s hs
    simp only [runRounds]
    cases hb : bo s with
    | error e => exact ⟨.error e,rfl,hst.error hb⟩
    | ok nx =>
      have hne := hst.ok hb
      cases nx with
      | inl a => exact ⟨.ok a,rfl,hne⟩
      | inr s' => exact ih hne.1 (by have := hne.2; omega)
end
end Xero.Library
