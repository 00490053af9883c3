import Mathlib.Data.List.Basic
import Mathlib.Tactic.Ring

/-! Buffers that are filled piece by piece, and functions folded over blocks of a fixed size. -/
namespace Xero.Library
open List Nat
variable {α σ : Type}

/-- `src` copied over what `buf` holds from `pos` on. -/
def writeAt (buf : List α) (pos : Nat) (src : List α) : List α :=
  buf.take pos++src++buf.drop (pos+src.length)

lemma length_writeAt {buf src : List α} {pos : Nat} (h : pos+src.length≤buf.length) :
    (writeAt buf pos src).length=buf.length := by
  simp only [writeAt,length_append,length_take,length_drop]
  omega

lemma take_writeAt {buf fi : List α} (h : buf.take fi.length=fi) (src : List α) :
    (writeAt buf fi.length src).take (fi.length+src.length)=fi++src := by
  rw [writeAt,h,append_assoc,← append_assoc,← length_append,take_left]

def resize (zero : α) (buf : List α) (n : Nat) : List α :=
  buf.take n++replicate (n-buf.length) zero

lemma length_resize (z : α) (buf : List α) (n : Nat) : (resize z buf n).length=n := by
  simp only [resize,length_append,length_take,length_replicate]
  omega

lemma take_resize {z : α} {buf : List α} {n k : Nat} (hk : k≤buf.length) (hn : k≤n) :
    (resize z buf n).take k=buf.take k := by
  rw [resize,take_append_of_le_length (by rw [length_take]; omega),take_take,min_eq_left hn]

def foldBlocks (f : σ → List α → σ) (n : Nat) : Nat → σ → List α → σ
  | 0, s, _ => s
  | k+1, s, data => foldBlocks f n k (f s (data.take n)) (data.drop n)

section
variable {f : σ → List α → σ} {n : Nat}

lemma foldBlocks_add (j k : Nat) (s : σ) (d : List α) :
    foldBlocks f n (j+k) s d=foldBlocks f n k (foldBlocks f n j s d) (d.drop (j*n)) := by
  induction j generalizing s d with
  | zero => rw [zero_add,zero_mul,drop_zero,foldBlocks]
  | succ j ih =>
    rw [succ_add,foldBlocks,foldBlocks,ih,drop_drop]
    congr 2
    ring

lemma foldBlocks_append {k : Nat} {d : List α} (h : k*n≤d.length) (s : σ) (m : List α) :
    foldBlocks f n k s (d++m)=foldBlocks f n k s d := by
  induction k generalizing s d with
  | zero => rfl
  | succ k ih =>
    rw [succ_mul] at h
    have hn : n≤d.length := by omega
    rw [foldBlocks,take_append_of_le_length hn,drop_append_of_le_length hn]
    exact ih (by rw [length_drop]; omega) _

lemma foldBlocks_take {k : Nat} {d : List α} (h : k*n≤d.length) (s : σ) :
    foldBlocks f n k s (d.take (k*n))=foldBlocks f n k s d := by
  have hl : k*n≤(d.take (k*n)).length := by
    rw [length_take]
    omega
  rw [← foldBlocks_append hl s (d.drop (k*n)),take_append_drop]
end
end Xero.Library
