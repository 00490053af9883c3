import Mathlib.Data.Nat.Size
import Mathlib.Tactic.Positivity
import Mathlib.Tactic.NormNum

/-! Truncation of a natural number to its leading bytes, as base-256 floating formats do it:
the top byte keeps its high bit free, so `m` bytes hold at least `8*(m-1)` significant bits. -/
namespace Xero.Library
open Nat
variable {m x y : Nat}

/-- The number of low bytes a mantissa of `m` bytes cannot hold. -/
def droppedBytes (m x : Nat) : Nat := x.size/8+1-m

/-- `x` with the low bytes a mantissa of `m` bytes cannot hold set to zero. -/
def keepBytes (m x : Nat) : Nat := x/256^droppedBytes m x*256^droppedBytes m x

lemma pow_256 (d : Nat) : 256^d=2^(8*d) := by
  rw [pow_mul]
  norm_num

lemma droppedBytes_mono (m : Nat) (h : x≤y) : droppedBytes m x≤droppedBytes m y := by
  have hs := size_le_size h
  unfold droppedBytes
  omega

lemma keepBytes_le (m x : Nat) : keepBytes m x≤x := div_mul_le_self _ _

@[simp] lemma keepBytes_zero (m : Nat) : keepBytes m 0=0 := by
  simp [keepBytes]

/- With two bytes or more in the mantissa the top byte is never dropped. -/
lemma pow_droppedBytes_le (hm : 2 ≤ m) (hx : 0<x) : 256^droppedBytes m x≤x := by
  have hs : 0<x.size := size_pos.2 hx
  rw [pow_256]
  apply lt_size.1
  unfold droppedBytes
  omega

lemma keepBytes_pos (hm : 2 ≤ m) (hx : 0<x) : 0<keepBytes m x :=
  mul_pos (div_pos (pow_droppedBytes_le hm hx) (by positivity)) (by positivity)

lemma keepBytes_eq_zero (hm : 2 ≤ m) : keepBytes m x=0 ↔ x=0 := by
  constructor
  · intro h
    by_contra hx
    have := keepBytes_pos hm (pos_of_ne_zero hx)
    omega
  · rintro rfl
    exact keepBytes_zero m

/- A power of two that divides out of the dropped bytes survives truncation. -/
lemma pow_le_keepBytes {k : Nat} (hk : 8*droppedBytes m y≤k) (hy : 2^k≤y) : 2^k≤keepBytes m y := by
  have hs : 2^k=2^(k-8*droppedBytes m y)*256^droppedBytes m y := by
    rw [pow_256,← pow_add,Nat.sub_add_cancel hk]
  rw [hs] at hy ⊢
  exact mul_le_mul_right _ ((le_div_iff_mul_le (by positivity)).2 hy)

/-- Truncation keeps the order: rounding never turns a smaller number into a larger one. -/
lemma keepBytes_mono (hm : 2 ≤ m) (h : x≤y) : keepBytes m x≤keepBytes m y := by
  obtain hl | he := lt_or_eq_of_le (droppedBytes_mono m h)
  · -- The larger number has the larger exponent, and a power of two separates the two.
    have hs : x.size≤8*(y.size/8)-1 := by
      unfold droppedBytes at hl
      omega
    have hx : x<2^(8*(y.size/8)-1) := size_le.1 hs
    have hy : 2^(8*(y.size/8)-1)≤y := by
      apply lt_size.1
      unfold droppedBytes at hl
      omega
    have hk : 2^(8*(y.size/8)-1)≤keepBytes m y := by
      apply pow_le_keepBytes _ hy
      unfold droppedBytes at hl ⊢
      omega
    have hle := keepBytes_le m x
    omega
  · unfold keepBytes
    rw [he]
    exact Nat.mul_le_mul_right _ (Nat.div_le_div_right h)

lemma div_droppedBytes_lt (hm : 0 < m) (x : Nat) : x/256^droppedBytes m x<2^(8*m-1) := by
  rw [div_lt_iff_lt_mul (by positivity),pow_256,← pow_add]
  apply size_le.1
  unfold droppedBytes
  omega

/-- No number with a mantissa of `m` bytes lies between the truncated number and the number. -/
lemma le_keepBytes {k e : Nat} (hm : 2 ≤ m) (hk : k<2^(8*m-1)) (hl : k*256^e≤x) :
    k*256^e≤keepBytes m x := by
  by_cases he : droppedBytes m x≤e
  · obtain ⟨r,rfl⟩ := Nat.exists_eq_add_of_le he
    rw [Nat.add_comm,pow_add,← mul_assoc] at hl ⊢
    exact mul_le_mul_right _ ((le_div_iff_mul_le (by positivity)).2 hl)
  · have hs : 8*m+8*e≤x.size := by
      unfold droppedBytes at he
      omega
    have hb : k*256^e<2^(x.size-1) := by
      calc k*256^e<2^(8*m-1)*256^e := mul_lt_mul_of_pos_right hk (by positivity)
        _=2^(8*m-1+8*e) := by rw [pow_256,← pow_add]
        _≤2^(x.size-1) := Nat.pow_le_pow_right (by decide) (by omega)
    refine hb.le.trans (pow_le_keepBytes ?_ (Nat.lt_size.1 (by omega)))
    unfold droppedBytes
    omega
end Xero.Library
