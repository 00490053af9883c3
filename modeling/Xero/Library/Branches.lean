import Mathlib.Data.List.Infix

/-! Trees whose nodes are named by their path to the root, the root last: the parent of a
node is its tail, and its ancestors are its suffixes. -/
namespace Xero.Library
open List
variable {α : Type*}

/-- The nodes strictly above `stop` on the way up to `top`. -/
def Above (stop top c : List α) : Prop := stop <:+ c ∧ c≠stop ∧ c <:+ top

instance [DecidableEq α] (stop top c : List α) : Decidable (Above stop top c) :=
  inferInstanceAs (Decidable (_ ∧ _ ∧ _))

lemma lawfulBEq_path [DecidableEq α] : LawfulBEq (List α) := inferInstance

lemma not_above_self (b c : List α) : ¬Above b b c := by
  rintro ⟨hb,hn,hc⟩
  exact hn (hc.eq_of_length_le hb.length_le)

lemma suffix_of_suffix_cons {x : α} {p s : List α} (h : s <:+ x::p) (hn : x::p≠s) : s <:+ p := by
  obtain rfl | h := suffix_cons_iff.mp h
  · exact absurd rfl hn
  · exact h

lemma above_cons_iff {x : α} {p s c : List α} (h : s <:+ p) : Above s (x::p) c ↔ c=x::p ∨
    Above s p c := by
  constructor
  · rintro ⟨hs,hn,hc⟩
    obtain rfl | hc := suffix_cons_iff.mp hc
    · exact Or.inl rfl
    · exact Or.inr ⟨hs,hn,hc⟩
  · rintro (rfl | ⟨hs,hn,hc⟩)
    · refine ⟨h.trans (suffix_cons x p),?_,suffix_rfl⟩
      rintro rfl
      have hl := h.length_le
      simp only [length_cons] at hl
      omega
    · exact ⟨hs,hn,hc.trans (suffix_cons x p)⟩

/-- The highest common ancestor of two nodes, the empty path if there is none. -/
def LastCommon (a b r : List α) : Prop := r <:+ a ∧ r <:+ b ∧ ∀ c, c <:+ a → c <:+ b → c <:+ r

lemma LastCommon.refl (a : List α) : LastCommon a a a :=
  ⟨suffix_rfl,suffix_rfl,fun _ h _ => h⟩

lemma LastCommon.symm {a b r : List α} (h : LastCommon a b r) : LastCommon b a r :=
  ⟨h.2.1,h.1,fun c hb ha => h.2.2 c ha hb⟩

lemma LastCommon.unique {a b r r' : List α} (h : LastCommon a b r)
    (h' : LastCommon a b r') : r=r' :=
  (h'.2.2 r h.1 h.2.1).eq_of_length_le (h.2.2 r' h'.1 h'.2.1).length_le

/-- An ancestor that is no lower than the other node takes the place of the first one. -/
lemma LastCommon.of_drop {a b r : List α} {k : Nat} (h : LastCommon (a.drop k) b r)
    (hk : b.length≤(a.drop k).length) : LastCommon a b r := by
  refine ⟨h.1.trans (drop_suffix k a),h.2.1,fun c ha hb => h.2.2 c ?_ hb⟩
  exact suffix_of_suffix_length_le ha (drop_suffix k a) (hb.length_le.trans hk)

/-- What passes from a node to its parent passes to all its ancestors. -/
lemma of_suffix {P : List α → Prop} (hp : ∀ b, P b → b.tail≠[] → P b.tail) {b q : List α}
    (hb : P b) (hq : q <:+ b) (hn : q≠[]) : P q := by
  induction b with
  | nil => exact absurd (suffix_nil.mp hq) hn
  | cons x p ih =>
    obtain rfl | hq := suffix_cons_iff.mp hq
    · exact hb
    · refine ih (hp _ hb ?_) hq
      rintro rfl
      exact hn (suffix_nil.mp hq)

lemma tail_suffix_of_ne {b q : List α} (h : q <:+ b) (hn : q≠b) : q <:+ b.tail := by
  cases b with
  | nil => exact absurd (suffix_nil.mp h) hn
  | cons x p => exact suffix_of_suffix_cons h (Ne.symm hn)

lemma tail_suffix_tail {b q : List α} (h : q <:+ b) : q.tail <:+ b.tail := by
  by_cases he : q=b
  · rw [he]
  · exact (tail_suffix q).trans (tail_suffix_of_ne h he)
end Xero.Library
