import Mathlib.Data.Finset.Insert
import Mathlib.Data.Finset.Erase

/-! A list of keys without order, with the position of every key. A key is removed by moving the
last one into its place. -/
namespace Xero.Library
open List Function Finset Option
variable {K : Type*} [DecidableEq K]

/-- The list holds the keys of a set, each at the position recorded for it and nowhere else. -/
structure Indexed (S : Finset K) (L : List K) (idx : K → Nat) : Prop where
  at_idx : ∀ k∈S, L[idx k]?=some k
  idx_of : ∀ i k, L[i]?=some k → k∈S ∧ idx k=i

namespace Indexed
variable {S : Finset K} {L : List K} {idx id' : K → Nat} {k back : K}

omit [DecidableEq K] in
lemma congr (h : Indexed S L idx) (hid : ∀ k∈S, id' k=idx k) : Indexed S L id' := by
  refine ⟨fun k hk => ?_,fun i k hi => ?_⟩
  · rw [hid k hk]
    exact h.at_idx k hk
  · obtain ⟨hk,he⟩ := h.idx_of i k hi
    exact ⟨hk,(hid k hk).trans he⟩

lemma append (h : Indexed S L idx) (hk : k∉S) :
    Indexed (insert k S) (L++[k]) (update idx k L.length) := by
  refine ⟨fun j hj => ?_,fun i j hi => ?_⟩
  · by_cases he : j=k
    · simp [he]
    have ha := h.at_idx j ((mem_insert.mp hj).resolve_left he)
    rw [update_of_ne he,List.getElem?_append_left (List.getElem?_eq_some_iff.mp ha).1]
    exact ha
  · by_cases hl : i<L.length
    · rw [getElem?_append_left hl] at hi
      obtain ⟨hj,he⟩ := h.idx_of i j hi
      have hn : j≠k := fun h => hk (h ▸ hj)
      exact ⟨mem_insert_of_mem hj,by rw [update_of_ne hn,he]⟩
    · rw [getElem?_append_right (not_lt.mp hl)] at hi
      obtain ⟨_,rfl⟩ : i-L.length=0 ∧ k=j := by
        simpa [getElem?_singleton] using hi
      refine ⟨mem_insert_self ..,?_⟩
      rw [update_self]
      omega

lemma swapRemove (h : Indexed S L idx) (hk : k∈S) (hb : L.getLast?=some back) :
    Indexed (S.erase k) ((L.set (idx k) back).dropLast) (update idx back (idx k)) := by
  have hl : L[L.length-1]?=some back := by rw [← List.getLast?_eq_getElem?,hb]
  have hba := (h.idx_of _ _ hl).2
  have hkl := (List.getElem?_eq_some_iff.mp (h.at_idx k hk)).1
  refine ⟨fun j hj => ?_,fun i j hi => ?_⟩
  · obtain ⟨hne,hj⟩ := mem_erase.mp hj
    have hja := h.at_idx j hj
    have hjl := (List.getElem?_eq_some_iff.mp hja).1
    have hjk : idx j≠idx k := by
      intro he
      rw [he,h.at_idx k hk] at hja
      exact hne (some.inj hja).symm
    by_cases he : j=back
    · subst he
      rw [update_self,getElem?_dropLast,length_set,getElem?_set_self hkl,if_pos (by omega)]
    · have hn : idx j≠L.length-1 := by
        intro hid
        rw [hid,hl] at hja
        exact he (some.inj hja).symm
      rw [update_of_ne he,getElem?_dropLast,length_set,getElem?_set_ne hjk.symm,if_pos (by omega)]
      exact hja
  · rw [getElem?_dropLast,length_set] at hi
    split at hi
    case isFalse => cases hi
    case isTrue hlt =>
      by_cases hik : idx k=i
      · rw [hik,getElem?_set_self (by omega)] at hi
        obtain rfl := some.inj hi
        refine ⟨mem_erase.mpr ⟨?_,(h.idx_of _ _ hl).1⟩,?_⟩
        · rintro rfl
          omega
        · rw [update_self,hik]
      · rw [getElem?_set_ne hik] at hi
        obtain ⟨hj,he⟩ := h.idx_of i j hi
        have hjk : j≠k := by
          rintro rfl
          exact hik he
        have hjb : j≠back := by
          rintro rfl
          omega
        exact ⟨mem_erase.mpr ⟨hjk,hj⟩,by rw [update_of_ne hjb,he]⟩

lemma swap {i j : Nat} {a b : K} (h : Indexed S L idx) (ha : L[i]?=some a) (hb : L[j]?=some b) :
    Indexed S ((L.set i b).set j a) (update (update idx a j) b i) := by
  have hi := (List.getElem?_eq_some_iff.mp ha).1
  have hj := (List.getElem?_eq_some_iff.mp hb).1
  obtain ⟨_,_⟩ := h.idx_of i a ha
  obtain ⟨_,_⟩ := h.idx_of j b hb
  have hat : ∀ n, ((L.set i b).set j a)[n]?=
      if n=j then some a else if n=i then some b else L[n]? := by
    intro n
    by_cases hnj : n=j
    · subst hnj
      rw [if_pos rfl,getElem?_set_self (by rw [length_set]; exact hj)]
    · rw [if_neg hnj,getElem?_set_ne (fun he => hnj he.symm)]
      by_cases hni : n=i
      · subst hni
        rw [if_pos rfl,getElem?_set_self hi]
      · rw [if_neg hni,getElem?_set_ne (fun he => hni he.symm)]
  refine ⟨fun k hk => ?_,fun n k hn => ?_⟩
  · have hka := h.at_idx k hk
    grind
  · have hko := h.idx_of n k
    grind

omit [DecidableEq K] in
lemma nodup (h : Indexed S L idx) : L.Nodup := by
  rw [nodup_iff_injective_getElem]
  intro i j he
  have hi := (h.idx_of i _ (getElem?_eq_getElem i.2)).2
  have hj := (h.idx_of j _ (getElem?_eq_getElem j.2)).2
  refine Fin.ext ?_
  rw [← hi,← hj]
  exact congrArg idx he

lemma dropLast (h : Indexed S L idx) (hk : L.getLast?=some k) :
    Indexed (S.erase k) L.dropLast idx := by
  have hl : L[L.length-1]?=some k := by rw [← getLast?_eq_getElem?,hk]
  obtain ⟨_,_⟩ := h.idx_of _ _ hl
  refine ⟨fun j hj => ?_,fun i j hi => ?_⟩
  · obtain ⟨hne,hj⟩ := mem_erase.mp hj
    have hja := h.at_idx j hj
    have hjl := (List.getElem?_eq_some_iff.mp hja).1
    have hn : idx j≠L.length-1 := by
      intro he
      rw [he,hl] at hja
      exact hne (some.inj hja).symm
    rw [getElem?_dropLast,if_pos (by omega)]
    exact hja
  · rw [getElem?_dropLast] at hi
    split at hi
    case isFalse => cases hi
    case isTrue hlt =>
      obtain ⟨hj,he⟩ := h.idx_of i j hi
      refine ⟨mem_erase.mpr ⟨?_,hj⟩,he⟩
      rintro rfl
      omega
end Indexed
end Xero.Library
