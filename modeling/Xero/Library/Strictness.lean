import Xero.Library.Checks

/-! One fallible computation is stricter than another when it only refuses more: whatever it
returns, the other returns too. -/
namespace Xero.Library
variable {ε α β : Type}

def Stricter (x y : Except ε α) : Prop := ∀ a, x=.ok a → y=.ok a

namespace Stricter
variable {x y : Except ε α}

lemma refl (x : Except ε α) : Stricter x x := fun _ h => h

lemma bind {f g : α → Except ε β} (hx : Stricter x y) (hf : ∀ a, Stricter (f a) (g a)) :
    Stricter (x >>= f) (y >>= g) := by
  intro b hb
  obtain ⟨a,ha,hfa⟩ := bind_eq_ok.1 hb
  exact bind_eq_ok.2 ⟨a,hx a ha,hf a b hfa⟩

lemma bind_right (hx : Stricter x y) (f : α → Except ε β) : Stricter (x >>= f) (y >>= f) :=
  hx.bind (fun a => refl (f a))

lemma bind_left (x : Except ε α) {f g : α → Except ε β} (hf : ∀ a, Stricter (f a) (g a)) :
    Stricter (x >>= f) (x >>= g) := (refl x).bind hf

lemma rejectIf {b c : Bool} {e : ε} (h : c → b) : Stricter (rejectIf b e) (rejectIf c e) := by
  intro u hu
  rw [rejectIf_eq_ok] at hu ⊢
  cases c with
  | false => rfl
  | true =>
    rw [h rfl] at hu
    cases hu

lemma ite {p : Prop} [Decidable p] {x' y' : Except ε α} (hx : Stricter x y) (hy : Stricter x' y') :
    Stricter (if p then x else x') (if p then y else y') := by
  split
  · exact hx
  · exact hy

/-- A branch taken under more conditions, whose other side imposes nothing. -/
lemma gate {b c : Bool} {z : Except ε α} (h : c → b) (hx : Stricter x y)
    (hs : Stricter x z) : Stricter (if b then x else z) (if c then y else z) := by
  cases b with
  | true =>
    cases c with
    | true => exact hx
    | false => exact hs
  | false =>
    cases c with
    | true => cases h rfl
    | false => exact refl z
end Stricter
end Xero.Library
