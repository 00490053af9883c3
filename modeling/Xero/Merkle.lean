import Xero.Primitives
import Xero.Library.PairLevels
import Mathlib.Data.Nat.Pairing

/-! ComputeMerkleRoot: the root of a block's transactions, and the detection of lists that have
the root of another list. -/
namespace Xero
open Library List Function Nat

/- `SHA256D64`, over any hash of two hashes. -/
def hashPairs (hash : Uint256 → Uint256 → Uint256) : List Uint256 → List Uint256
  | a::b::hashes => hash a b::hashPairs hash hashes
  | _ => []

/- An odd level gets its last hash twice. -/
def padLevel (hashes : List Uint256) : List Uint256 :=
  if hashes.length%2=1 then hashes++hashes.getLast?.toList else hashes

def nextLevel (hash : Uint256 → Uint256 → Uint256) (hashes : List Uint256) : List Uint256 :=
  hashPairs hash (padLevel hashes)

lemma nextLevel_eq (hash : Uint256 → Uint256 → Uint256) (hashes : List Uint256) :
    nextLevel hash hashes=pairUp hash hashes := by
  induction hashes using pairUp.induct with
  | case1 => rfl
  | case2 a => rfl
  | case3 a b L ih =>
    have hp : padLevel (a::b::L)=a::b::padLevel L := by
      cases L with
      | nil => simp [padLevel]
      | cons c L =>
        simp only [padLevel,length_cons]
        split_ifs <;> first | rfl | omega
    rw [nextLevel,hp,hashPairs,pairUp,← ih]
    rfl

/- The loop over the levels, for a caller that asks for the mutation flag. -/
def merkleLoop (hash : Uint256 → Uint256 → Uint256) (hashes : List Uint256) (mutation : Bool) :
    List Uint256×Bool :=
  if 1<hashes.length then
    merkleLoop hash (nextLevel hash hashes) (mutation || hasTwins hashes)
  else (hashes,mutation)
termination_by hashes.length
decreasing_by
  rw [nextLevel_eq,length_pairUp]
  omega

/-- The root and whether a mutation was found. -/
def computeMerkleRoot (hash : Uint256 → Uint256 → Uint256) (hashes : List Uint256) : Uint256×Bool :=
  let (hashes,mutation) := merkleLoop hash hashes false
  (hashes.head?.getD 0,mutation)

variable (hash : Uint256 → Uint256 → Uint256) {L M : List Uint256}

lemma merkleLoop_fst (L : List Uint256) (m : Bool) :
    ∃ k, (merkleLoop hash L m).1=(pairUp hash)^[k] L ∧
      (merkleLoop hash L m).1.length≤1 ∧
      ∀ j<k, 1<((pairUp hash)^[j] L).length := by
  fun_induction merkleLoop hash L m with
  | case1 L m h ih =>
    rw [nextLevel_eq] at ih ⊢
    obtain ⟨k,hk,hl,hf⟩ := ih
    refine ⟨k+1,hk,hl,fun j hj => ?_⟩
    cases j with
    | zero => exact h
    | succ j => exact hf j (lt_of_succ_lt_succ hj)
  | case2 L m h => exact ⟨0,rfl,not_lt.mp h,fun j hj => absurd hj (not_lt_zero j)⟩

lemma length_iterate_pairUp_le (k : Nat) (hL : L.length≤1) : ((pairUp hash)^[k] L).length≤1 := by
  induction k with
  | zero => exact hL
  | succ k ih =>
    rw [iterate_succ_apply',length_pairUp]
    omega

lemma hasTwins_of_length (hL : L.length≤1) : hasTwins L=false := by
  match L with
  | [] => rfl
  | [a] => rfl
  | a::b::L => simp at hL

/-- No mutation is reported exactly when no level has equal neighbours. -/
lemma merkleLoop_snd (L : List Uint256) (m : Bool) : (merkleLoop hash L m).2=false ↔
      m=false ∧ ∀ k, hasTwins ((pairUp hash)^[k] L)=false := by
  fun_induction merkleLoop hash L m with
  | case1 L m h ih =>
    rw [ih,Bool.or_eq_false_iff,and_assoc,nextLevel_eq]
    refine and_congr_right fun _ => ⟨fun ⟨hz,hs⟩ k => ?_,fun ha => ⟨ha 0,fun k => ?_⟩⟩
    · cases k with
      | zero => exact hz
      | succ k => exact hs k
    · exact ha (k+1)
  | case2 L m h =>
    refine (and_iff_left fun k => ?_).symm
    exact hasTwins_of_length (length_iterate_pairUp_le hash k (not_lt.mp h))

lemma iterate_pairUp_ne_nil (k : Nat) (hL : L≠[]) : (pairUp hash)^[k] L≠[] := by
  induction k with
  | zero => exact hL
  | succ k ih =>
    rw [iterate_succ_apply',← length_pos_iff,length_pairUp]
    have hp := length_pos_iff.mpr ih
    omega

lemma computeMerkleRoot_level (hL : L≠[]) :
    ∃ k, (pairUp hash)^[k] L=[(computeMerkleRoot hash L).1] ∧
      ∀ j<k, 1<((pairUp hash)^[j] L).length := by
  obtain ⟨k,hk,_,hf⟩ := merkleLoop_fst hash L false
  have hn := iterate_pairUp_ne_nil hash k hL
  rw [← hk] at hn
  refine ⟨k,?_,hf⟩
  have ho : (merkleLoop hash L false).1.length=1 := by
    have hp := length_pos_iff.mpr hn
    omega
  obtain ⟨x,hx⟩ := length_eq_one_iff.mp ho
  simp [computeMerkleRoot,← hk,hx]

variable {hash}

/- Of two lists without twins in any level that meet in some level, one is a level of the other. -/
lemma level_of_meet (hh : Function.Injective2 hash) (hL : ∀ k, hasTwins ((pairUp hash)^[k] L)=false)
    (hM : ∀ k, hasTwins ((pairUp hash)^[k] M)=false) {j k : Nat}
    (h : (pairUp hash)^[j] L=(pairUp hash)^[k] M) :
    (∃ i, L=(pairUp hash)^[i] M) ∨ ∃ i, M=(pairUp hash)^[i] L := by
  induction j generalizing k with
  | zero => exact Or.inl ⟨k,h⟩
  | succ j ih =>
    cases k with
    | zero => exact Or.inr ⟨j+1,h.symm⟩
    | succ k =>
      rw [iterate_succ_apply',iterate_succ_apply'] at h
      exact ih (pairUp_injective hh h (hL j) (hM k))

/- A level of hashes has no leaf in it. -/
lemma eq_of_level {i : Nat} (hL : L≠[]) (hl : ∀ x∈L, ∀ a b, hash a b≠x)
    (h : L=(pairUp hash)^[i] M) : L=M := by
  cases i with
  | zero => exact h
  | succ i =>
    obtain ⟨x,hx⟩ := exists_mem_of_ne_nil L hL
    have hx' := hx
    rw [h,iterate_succ_apply'] at hx'
    obtain ⟨a,b,he,-⟩ := exists_of_mem_pairUp hash hx'
    exact absurd he.symm (hl x hx a b)

/-- Of two different lists of leaves with the same root one is reported as mutated, and a list of
different leaves is not. -/
theorem computeMerkleRoot_detects_mutation (hhash : Function.Injective2 hash) :
    (∀ L M : List Uint256, L≠[] → M≠[] → (∀ x∈L++M, ∀ a b, hash a b≠x) → L≠M →
      (computeMerkleRoot hash L).1=(computeMerkleRoot hash M).1 →
      (computeMerkleRoot hash L).2 ∨ (computeMerkleRoot hash M).2) ∧
    ∀ L : List Uint256, L≠[] → L.Nodup → (computeMerkleRoot hash L).2=false := by
  constructor
  · intro L M hL hM hl hne hr
    by_contra hn
    rw [not_or,Bool.not_eq_true,Bool.not_eq_true] at hn
    have hLlevels := ((merkleLoop_snd hash L false).mp hn.1).2
    have hMlevels := ((merkleLoop_snd hash M false).mp hn.2).2
    obtain ⟨j,hj,-⟩ := computeMerkleRoot_level hash hL
    obtain ⟨k,hk,-⟩ := computeMerkleRoot_level hash hM
    have hm : (pairUp hash)^[j] L=(pairUp hash)^[k] M := by rw [hj,hk,hr]
    obtain ⟨i,hi⟩ | ⟨i,hi⟩ := level_of_meet hhash hLlevels hMlevels hm
    · exact hne (eq_of_level hL (fun x hx => hl x (by simp [hx])) hi)
    · exact hne (eq_of_level hM (fun x hx => hl x (by simp [hx])) hi).symm
  · intro L _ hno
    refine (merkleLoop_snd hash L false).mpr ⟨rfl,fun k => hasTwins_of_nodup ?_⟩
    induction k with
    | zero => exact hno
    | succ k ih =>
      rw [iterate_succ_apply']
      exact nodup_pairUp hhash ih

def oddPairHash (a b : Uint256) : Uint256 := 2*Nat.pair a b+1

lemma oddPairHash_injective : Function.Injective2 oddPairHash := by
  intro a c b d h
  have ho : 2*pair a b+1=2*pair c d+1 := h
  have hp : pair a b=pair c d := by omega
  exact pair_eq_pair.mp hp

theorem computeMerkleRoot_detects_mutation_repeated_leaf :
    (computeMerkleRoot oddPairHash [2,4,6]).1=(computeMerkleRoot oddPairHash [2,4,6,6]).1 ∧
      ((computeMerkleRoot oddPairHash [2,4,6]).2 ∨
        (computeMerkleRoot oddPairHash [2,4,6,6]).2) := by
  have hr : (computeMerkleRoot oddPairHash [2,4,6]).1=
      (computeMerkleRoot oddPairHash [2,4,6,6]).1 := by decide +kernel
  refine ⟨hr,(computeMerkleRoot_detects_mutation oddPairHash_injective).1 _ _ (by decide)
    (by decide) (fun x hx a b h => ?_) (by decide) hr⟩
  have he : ∀ x∈[2,4,6]++[2,4,6,6], x%2=0 := by decide
  have hx' := he x hx
  have ho : 2*Nat.pair a b+1=x := h
  omega
end Xero
