import Mathlib.Data.Set.Insert

/-! Labelled intervals that cover a range of addresses without overlap. -/
namespace Xero.Library
variable {κ : Type*} {d lo hi : Nat}

/-- A labelled interval. -/
structure Piece (κ : Type*) where
  start : Nat
  size : Nat
  label : κ

def Piece.Has (c : Piece κ) (a : Nat) : Prop := c.start≤a ∧ a < c.start+c.size

/-- Pieces of `C` cover the range from `lo` to `hi` once, and start and end at multiples of `d`. -/
structure Tiles (d lo hi : Nat) (C : Set (Piece κ)) : Prop where
  covers : ∀ a, (lo≤a ∧ a<hi) ↔ ∃ c∈C, c.Has a
  disjoint : ∀ a, ∀ c∈C, ∀ e∈C, c.Has a → e.Has a → c=e
  whole : ∀ c∈C, d∣c.start ∧ d∣c.size

/- Pieces are exchanged for others that have the same members. -/
lemma Tiles.replace {C D E : Set (Piece κ)} (h : Tiles d lo hi C) (hD : D ⊆ C)
    (hc : ∀ a, (∃ c∈D, c.Has a) ↔ ∃ c∈E, c.Has a) (hE : ∀ a, ∀ c∈E, ∀ e∈E, c.Has a → e.Has a → c=e)
    (hw : ∀ c∈E, d∣c.start ∧ d∣c.size) : Tiles d lo hi (C \ D ∪ E) := by
  have hx {a : Nat} {c e : Piece κ} (hd : c∈C \ D) (he : e∈E) (ha : c.Has a) (hb :
      e.Has a) : c=e := by
    obtain ⟨f,hf,haf⟩ := (hc a).mpr ⟨e,he,hb⟩
    exact absurd (h.disjoint a c hd.1 f (hD hf) ha haf ▸ hf) hd.2
  refine ⟨fun a => ?_,fun a c hd e he ha hb => ?_,fun c hd => ?_⟩
  · rw [h.covers a]
    constructor
    · rintro ⟨c,hm,ha⟩
      by_cases hd : c∈D
      · obtain ⟨e,he,hb⟩ := (hc a).mp ⟨c,hd,ha⟩
        exact ⟨e,.inr he,hb⟩
      · exact ⟨c,.inl ⟨hm,hd⟩,ha⟩
    · rintro ⟨c,hm | hm,ha⟩
      · exact ⟨c,hm.1,ha⟩
      · obtain ⟨e,he,hb⟩ := (hc a).mpr ⟨c,hm,ha⟩
        exact ⟨e,hD he,hb⟩
  · obtain hd | hd := hd <;> obtain he | he := he
    · exact h.disjoint a c hd.1 e he.1 ha hb
    · exact hx hd he ha hb
    · exact (hx he hd hb ha).symm
    · exact hE a c hd e he ha hb
  · obtain hd | hd := hd
    · exact h.whole c hd.1
    · exact hw c hd

namespace Tiles
variable {C : Set (Piece κ)} {p q n m : Nat} {k l : κ}

lemma unique (h : Tiles d lo hi C) (hc : ⟨p,n,k⟩∈C) (hd : ⟨q,m,l⟩∈C) {a : Nat} (ha : p≤a ∧ a<p+n)
    (hb : q≤a ∧ a<q+m) : p=q ∧ n=m ∧ k=l := by
  simpa using h.disjoint a _ hc _ hd ha hb

lemma eq_of_start (h : Tiles d lo hi C) (hc : ⟨p,n,k⟩∈C) (hd : ⟨p,m,l⟩∈C) (hn : 0<n)
    (hm : 0 < m) : n=m ∧ k=l :=
  (h.unique hc hd (a := p) (by omega) (by omega)).2

lemma eq_of_end (h : Tiles d lo hi C) (hc : ⟨p,n,k⟩∈C) (hd : ⟨q,m,l⟩∈C) (hn : 0<n) (hm : 0 < m)
    (he : p+n=q+m) :
    p=q ∧ n=m ∧ k=l :=
  h.unique hc hd (a := p+n-1) (by omega) (by omega)

/- A part at the end of a piece gets another label. -/
lemma take (h : Tiles d lo hi C) (hc : ⟨p,n,k⟩∈C) (hm : m≤n) (hd : d∣m) (l : κ) :
    ∃ C', Tiles d lo hi C' ∧
    ∀ c, c∈C' ↔ c∈C ∧ c≠⟨p,n,k⟩ ∨ c=⟨p+(n-m),m,l⟩ ∨ m<n ∧ c=⟨p,n-m,k⟩ := by
  refine ⟨_,h.replace (D := {⟨p,n,k⟩})
    (E := {c | c=⟨p+(n-m),m,l⟩ ∨ m<n ∧ c=⟨p,n-m,k⟩}) (by simpa using hc) (fun a => ?_)
    (fun a c hc e he ha hb => ?_) ?_,by simp⟩
  · simp only [Set.mem_singleton_iff,exists_eq_left,Set.mem_ofPred_eq,Piece.Has]
    constructor
    · intro ha
      by_cases hl : a<p+(n-m)
      · exact ⟨_,.inr ⟨by omega,rfl⟩,by simp; omega⟩
      · exact ⟨_,.inl rfl,by simp; omega⟩
    · rintro ⟨c,rfl | ⟨hl,rfl⟩,ha⟩
      · simp only at ha
        omega
      · simp only at ha
        omega
  · simp only [Piece.Has] at ha hb
    obtain rfl | ⟨hl,rfl⟩ := hc <;> obtain rfl | ⟨-,rfl⟩ := he
    · rfl
    · simp only at ha hb
      omega
    · simp only at ha hb
      omega
    · rfl
  · obtain ⟨hp,hn⟩ := h.whole _ hc
    have hr := Nat.dvd_sub hn hd
    rintro c (rfl | ⟨-,rfl⟩)
    · exact ⟨Nat.dvd_add hp hr,hd⟩
    · exact ⟨hp,hr⟩

/- Two pieces next to each other become one. -/
lemma merge (h : Tiles d lo hi C) (hc : ⟨p,n,k⟩∈C) (hd : ⟨p+n,m,l⟩∈C) (j : κ) :
    ∃ C', Tiles d lo hi C' ∧
    ∀ c, c∈C' ↔ c∈C ∧ c≠⟨p,n,k⟩ ∧ c≠⟨p+n,m,l⟩ ∨ c=⟨p,n+m,j⟩ := by
  refine ⟨_,h.replace (D := {⟨p,n,k⟩,⟨p+n,m,l⟩}) (E := {⟨p,n+m,j⟩}) ?_ (fun a =>
      ?_) ?_ ?_,by simp [or_comm]⟩
  · rintro c (rfl | rfl)
    · exact hc
    · exact hd
  · simp only [Set.mem_insert_iff,Set.mem_singleton_iff,exists_eq_or_imp,exists_eq_left,Piece.Has]
    omega
  · rintro a c rfl e rfl - -
    rfl
  · rintro c rfl
    exact ⟨(h.whole _ hc).1,Nat.dvd_add (h.whole _ hc).2 (h.whole _ hd).2⟩
end Tiles
end Xero.Library
