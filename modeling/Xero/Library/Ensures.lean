import Xero.Library.Checks

/-! Pre- and postconditions of fallible functions: how one may fail, and what holds of what it
returns. -/
namespace Xero.Library
variable {ε α β : Type}

/-- The function fails only with an allowed error, and what it returns satisfies `post`. -/
def Ensures (allowed : ε → Prop) (post : α → Prop) : Except ε α → Prop
  | .ok a => post a
  | .error e => allowed e

namespace Ensures
variable {alw : ε → Prop} {po po' : α → Prop} {r r' : Except ε α}

@[simp] lemma pure_ok {a : α} : Ensures alw po (Pure.pure a) ↔ po a := Iff.rfl

lemma rejectIf {b : Bool} {e : ε} (h : b → alw e) :
    Ensures alw (fun _ => b=false) (Library.rejectIf b e) := by
  cases b with
  | false => exact rfl
  | true => exact h rfl

/-- The rule for a sequence: what the first part ensures is what the second may assume. -/
lemma bind {po : β → Prop} {mid : α → Prop} {f : α → Except ε β} (h : Ensures alw mid r)
    (hf : ∀ a, mid a → Ensures alw po (f a)) : Ensures alw po (r >>= f) := by
  cases r with
  | ok a => exact hf a h
  | error e => exact h

lemma ite {p : Prop} [Decidable p] (h : p → Ensures alw po r) (h' : ¬p → Ensures alw po r') :
    Ensures alw po (if p then r else r') := by
  split
  · exact h ‹_›
  · exact h' ‹_›

lemma mono (h : Ensures alw po r) (hp : ∀ a, po a → po' a) : Ensures alw po' r := by
  cases r with
  | ok a => exact hp a h
  | error e => exact h

lemma allow {a' : ε → Prop} (h : Ensures alw po r) (ha : ∀ e, alw e → a' e) : Ensures a' po r := by
  cases r with
  | ok a => exact h
  | error e => exact ha e h

lemma foldlM_keeps {ι : Type} {s : α → ι → Except ε α} {inv : α → Prop} {is : List ι} {a : α}
    (hs : ∀ a, ∀ i∈is, inv a → Ensures alw inv (s a i)) (ha : inv a) :
    Ensures alw inv (is.foldlM s a) := by
  induction is generalizing a with
  | nil => exact ha
  | cons i is ih =>
    refine bind (hs a i (by simp) ha) fun a' ha' => ?_
    exact ih (fun b j hj => hs b j (List.mem_cons_of_mem _ hj)) ha'

lemma of_ok (ha : ∀ e, alw e) (h : ∀ a, r=.ok a → po a) : Ensures alw po r := by
  cases r with
  | ok a => exact h a rfl
  | error e => exact ha e

lemma ok {a : α} (h : Ensures alw po r) (hr : r=.ok a) : po a := by
  rw [hr] at h
  exact h

lemma exists_ok (h : Ensures alw po r) (hn : ∀ e, alw e → r≠.error e) : ∃ a, r=.ok a ∧ po a := by
  cases r with
  | ok a => exact ⟨a,rfl,h⟩
  | error e => exact absurd rfl (hn e h)

lemma error {e : ε} (h : Ensures alw po r) (hr : r=.error e) : alw e := by
  rw [hr] at h
  exact h
end Ensures
end Xero.Library
