import Mathlib.Logic.Basic

/-! Fallible computations built from guards, and what their success says. -/
namespace Xero.Library
variable {ε δ α β : Type}

def rejectIf (b : Bool) (e : ε) : Except ε Unit := if b then .error e else .ok ()

@[simp] lemma rejectIf_eq_ok {b : Bool} {e : ε} {u : Unit} : rejectIf b e=.ok u ↔ b=false := by
  cases b <;> simp [rejectIf]

variable {x : Except ε α}

lemma ok_bind {a : α} {f : α → Except ε β} : (.ok a >>= f)=f a := rfl

lemma pure_ok {a : α} : (pure a : Except ε α)=.ok a := rfl

@[simp] lemma bind_eq_ok {f : α → Except ε β} {r : β} : (x >>= f)=.ok r ↔ ∃ a, x=.ok a ∧
    f a=.ok r := by
  cases x <;> simp [bind,Except.bind]

@[simp] lemma pure_eq_ok {a b : α} : (pure a : Except ε α)=.ok b ↔ a=b := by
  simp [pure,Except.pure]

@[simp] lemma mapError_ok {f : ε → δ} {a : α} : (Except.ok a).mapError f=.ok a := rfl

@[simp] lemma mapError_error {f : ε → δ} {e : ε} :
    (Except.error e : Except ε α).mapError f=.error (f e) := rfl

@[simp] lemma mapError_eq_ok {f : ε → δ} {a : α} : x.mapError f=.ok a ↔ x=.ok a := by
  cases x <;> simp

@[simp] lemma map_eq_ok {f : α → β} {b : β} : x.map f=.ok b ↔ ∃ a, x=.ok a ∧ f a=b := by
  cases x <;> simp [Except.map]
end Xero.Library
