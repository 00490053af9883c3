import Mathlib.Data.List.Basic

/-! Strict total orders given by a Boolean comparator, as an ordered container takes them,
and the best member of a list. -/
namespace Xero.Library
open List
variable {α : Type*}

/-- `worse a b` says that `a` sorts before `b`; distinct values never tie. -/
structure Ranking (worse : α → α → Bool) : Prop where
  irrefl : ∀ a, worse a a=false
  trans : ∀ a b c, worse a b → worse b c → worse a c
  total : ∀ a b, a≠b → worse a b ∨ worse b a

namespace Ranking
variable {wo : α → α → Bool} {a b c : α}

lemma asymm (h : Ranking wo) (hab : wo a b) : wo b a=false := by
  by_contra hb
  rw [Bool.not_eq_false] at hb
  have ha := h.trans a b a hab hb
  rw [h.irrefl] at ha
  cases ha

lemma worse_of_not_worse (h : Ranking wo) (hn : a≠b) (ha : wo a b=false) : wo b a := by
  obtain hw | hw := h.total a b hn
  · rw [ha] at hw
    cases hw
  · exact hw

lemma not_worse_trans (h : Ranking wo) (hab : wo a b=false) (hb : wo b c=false) : wo a c=false := by
  by_contra ha
  rw [Bool.not_eq_false] at ha
  by_cases he : a=b
  · subst he
    rw [hb] at ha
    cases ha
  · have hb' := h.trans b a c (h.worse_of_not_worse he hab) ha
    rw [hb] at hb'
    cases hb'
end Ranking

def best (worse : α → α → Bool) : List α → Option α
  | [] => none
  | a::as =>
    match best worse as with
    | none => some a
    | some b => if worse a b then some b else some a

variable {wo : α → α → Bool}

lemma best_eq_none {as : List α} (h : best wo as=none) : as=[] := by
  cases as with
  | nil => rfl
  | cons a as =>
    rw [best] at h
    split at h
    · cases h
    · split at h <;> cases h

lemma mem_of_best {as : List α} {m : α} (h : best wo as=some m) : m∈as := by
  induction as generalizing m with
  | nil => cases h
  | cons a as ih =>
    rw [best] at h
    split at h
    · cases h
      exact mem_cons_self
    · rename_i b hb
      split at h
      · cases h
        exact mem_cons_of_mem a (ih hb)
      · cases h
        exact mem_cons_self

lemma best_not_worse (hr : Ranking wo) {as : List α} {m : α} (h : best wo as=some m) :
    ∀ a∈as, wo m a=false := by
  induction as generalizing m with
  | nil => cases h
  | cons a as ih =>
    rw [best] at h
    split at h
    · rename_i hb
      cases h
      rw [best_eq_none hb]
      intro c hc
      rw [mem_singleton.mp hc]
      exact hr.irrefl a
    · rename_i b hb
      split at h
      · rename_i ha
        cases h
        exact forall_mem_cons.mpr ⟨hr.asymm ha,ih hb⟩
      · rename_i ha
        cases h
        refine forall_mem_cons.mpr ⟨hr.irrefl _,fun c hc => ?_⟩
        exact hr.not_worse_trans (by simpa using ha) (ih hb c hc)
end Xero.Library
