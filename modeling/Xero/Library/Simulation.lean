import Mathlib.Logic.Relation

/-! Runs of fallible machines: invariants, and forward simulation by a total machine. -/
namespace Xero.Library
open List
variable {σ τ ι ε : Type*}

/-- Every input of the run is allowed in the abstract state it meets. -/
def AllowedRun (ok : τ → ι → Prop) (spec : τ → ι → τ) : τ → List ι → Prop
  | _, [] => True
  | t, i::is => ok t i ∧ AllowedRun ok spec (spec t i) is

variable {st : σ → ι → Except ε σ}

/-- A step lemma under the relation `R` gives that allowed runs never fail and end in
related states. -/
lemma foldlM_simulates {sp : τ → ι → τ} {ok : τ → ι → Prop} {R : σ → τ → Prop}
    (hs : ∀ s t i, R s t → ok t i → ∃ s', st s i=.ok s' ∧ R s' (sp t i))
    (is : List ι) (s : σ) (t : τ) (h : R s t) (ho : AllowedRun ok sp t is) :
    ∃ s', is.foldlM st s=.ok s' ∧ R s' (is.foldl sp t) := by
  induction is generalizing s t with
  | nil => exact ⟨s,rfl,h⟩
  | cons i is ih =>
    obtain ⟨s1,h1,hr⟩ := hs s t i h ho.1
    obtain ⟨s',h',hr'⟩ := ih s1 (sp t i) hr ho.2
    exact ⟨s',by simp [foldlM_cons,h1,h',bind,Except.bind],hr'⟩

/-- When no step of the run fails from a state of `I`, and each leads back to `I`, it does not
fail. -/
lemma foldlM_succeeds {I : σ → Prop} (is : List ι)
    (hst : ∀ s, ∀ i∈is, I s → ∃ s', st s i=.ok s' ∧ I s') (s : σ) (hs : I s) :
    ∃ s', is.foldlM st s=.ok s' ∧ I s' := by
  induction is generalizing s with
  | nil => exact ⟨s,rfl,hs⟩
  | cons i is ih =>
    obtain ⟨s1,h1,hi⟩ := hst s i (by simp) hs
    obtain ⟨s',h',hi'⟩ := ih (fun s i hm => hst s i (mem_cons_of_mem _ hm)) s1 hi
    exact ⟨s',by simp [foldlM_cons,h1,h',bind,Except.bind],hi'⟩

variable {I : List ι → σ → Prop}

/-- What every successful step keeps, of the inputs so far and the state, holds after a run. -/
lemma foldlM_tracks (hst : ∀ d i s s', I d s → st s i=.ok s' → I (d++[i]) s') (is : List ι)
    {d : List ι} {s s' : σ} (hs : I d s) (h : is.foldlM st s=.ok s') : I (d++is) s' := by
  induction is generalizing d s with
  | nil =>
    cases h
    rw [append_nil]
    exact hs
  | cons i is ih =>
    rw [foldlM_cons] at h
    cases h1 : st s i with
    | error e => simp [h1,bind,Except.bind] at h
    | ok s1 =>
      rw [h1] at h
      have ht := ih (hst d i s s1 hs h1) h
      rw [append_assoc] at ht
      exact ht

/-- A run over inputs each of which succeeds after those before it. -/
lemma foldlM_completes {all : List ι}
    (hst : ∀ d i s, d++[i] <+: all → I d s → ∃ s', st s i=.ok s' ∧ I (d++[i]) s')
    (is : List ι) {d : List ι} {s : σ} (ha : d++is=all) (hs : I d s) :
    ∃ s', is.foldlM st s=.ok s' ∧ I all s' := by
  induction is generalizing d s with
  | nil =>
    rw [append_nil] at ha
    exact ⟨s,rfl,ha ▸ hs⟩
  | cons i is ih =>
    have hass : d++[i]++is=all := by rw [append_assoc]; exact ha
    obtain ⟨_,h1,hi⟩ := hst d i s ⟨is,hass⟩ hs
    obtain ⟨s',h',hi'⟩ := ih hass hi
    exact ⟨s',by simp [foldlM_cons,h1,h',bind,Except.bind],hi'⟩

/-- What every successful step keeps holds after every successful run. -/
lemma foldlM_invariant {st : σ → ι → Option σ} {I : σ → Prop}
    (hst : ∀ s i s', I s → st s i=some s' → I s') (is : List ι) (s s' : σ) (hs : I s)
    (h : is.foldlM st s=some s') : I s' := by
  induction is generalizing s with
  | nil =>
    cases h
    exact hs
  | cons i is ih =>
    obtain ⟨s1,h1,hr⟩ := Option.bind_eq_some_iff.mp h
    exact ih s1 (hst s i s1 hs h1) hr
end Xero.Library
