import Xero.Arena

/-! The pool of arenas in locked memory: which memory-lock limits let every allocation succeed. -/
namespace Xero
open List

def ARENA_SIZE : Nat := 256*1024
def ARENA_ALIGN : Nat := 16

/-- What the page allocator and the callback answer: the address of a page, 0 on failure, whether it
was locked, and what a callback for failed locking returns. -/
structure Pages where
  addr : Nat
  aligned : ARENA_ALIGN∣addr
  locked : Bool
  lfCb : Option Bool

/-- Pages are there and the callback does not refuse them. -/
def Pages.Succeeds (w : Pages) : Prop := w.addr≠0 ∧ (w.locked ∨ w.lfCb≠some false)

instance (w : Pages) : Decidable w.Succeeds := inferInstanceAs (Decidable (_ ∧ _))

namespace LockedPool
/- The loop of alloc over the arenas. -/
def allocEach (size : BitVec 64) : List Arena → Nat×List Arena
  | [] => (0,[])
  | a::arenas =>
    let (addr,a) := a.alloc size
    if addr≠0 then (addr,a::arenas)
    else
      let (addr,arenas) := allocEach size arenas
      (addr,a::arenas)

def newArena (limit : Nat) (w : Pages) (arenas : List Arena) (size : Nat) (align : BitVec 64) :
    Option Arena :=
  let size := if arenas.isEmpty ∧ 0<limit then min size limit else size
  if w.Succeeds then some (Arena.new w.addr size align) else none

def alloc (limit : Nat) (w : Pages) (arenas : List Arena) (size : BitVec 64) : Nat×List Arena :=
  if size=0 ∨ ARENA_SIZE < size.toNat then (0,arenas)
  else
    let (addr,arenas) := allocEach size arenas
    if addr≠0 then (addr,arenas)
    else match newArena limit w arenas ARENA_SIZE ARENA_ALIGN with
    | none => (0,arenas)
    | some a => ((a.alloc size).1,arenas++[(a.alloc size).2])

/-- What the pool or the arena throws, and the arenas after the call. -/
def free (ptr : Nat) : List Arena → Except String Unit×List Arena
  | [] => (.error "LockedPool: invalid address not pointing to any arena",[])
  | a::arenas =>
    if a.base≤ptr ∧ ptr<a.stop then ((a.free ptr).1,(a.free ptr).2::arenas)
    else ((free ptr arenas).1,a::(free ptr arenas).2)

inductive Call where
  | alloc (w : Pages) (size : BitVec 64)
  | free (ptr : Nat)

def call (limit : Nat) (arenas : List Arena) : Call → List Arena
  | .alloc w size => (alloc limit w arenas size).2
  | .free ptr => (free ptr arenas).2
end LockedPool

/-- The rounding of the source is to the next multiple of 16. -/
lemma alignUp_sixteen {x : BitVec 64} (h : x.toNat≤ARENA_SIZE) :
    (alignUp x ARENA_ALIGN).toNat=(x.toNat+15)/16*16 := by
  have hb : ∀ i : Fin 64, (~~~15#64).getLsbD i=decide (4 ≤ i.val) := by decide
  have hs : alignUp x ARENA_ALIGN=(x+15)>>>4<<<4 := by
    have hx : x+16-1=x+15 := by bv_omega
    show (x+16-1) &&& ~~~15#64=_
    rw [hx]
    ext i hi
    have hb := hb ⟨i,hi⟩
    grind
  rw [hs]
  unfold ARENA_SIZE at h
  rw [BitVec.toNat_shiftLeft,BitVec.toNat_ushiftRight,BitVec.toNat_add,Nat.shiftLeft_eq,
    Nat.shiftRight_eq_div_pow]
  simp
  omega

/-- Every chunk starts and ends at a multiple of the alignment. -/
def Arena.Aligned (s : Arena) : Prop := s.alignment=ARENA_ALIGN ∧ ∃ C, s.Partitioned ARENA_ALIGN C

lemma Arena.Aligned.call {s : Arena} (h : s.Aligned) {c : Arena.Call} {C : Set (Library.Piece Bool)}
    (hC : (s.call c).Partitioned ARENA_ALIGN C) : (s.call c).Aligned :=
  ⟨(s.call_bounds c).2.2.trans h.1,C,hC⟩

lemma Arena.Aligned.alloc {s : Arena} {size : BitVec 64} (h : s.Aligned)
    (hs : size.toNat≤ARENA_SIZE) :
    (s.alloc size).2.Aligned ∧ ARENA_ALIGN∣(s.alloc size).1 := by
  have hk : ARENA_ALIGN∣(alignUp size s.alignment).toNat := by
    rw [h.1,alignUp_sixteen hs]
    exact Nat.dvd_mul_left _ _
  obtain ⟨-,C,hC⟩ := id h
  obtain ⟨D,hD,hd⟩ := hC.alloc hk
  exact ⟨h.call (c := .alloc size) hD,hd⟩

lemma Arena.Aligned.free {s : Arena} (h : s.Aligned) (ptr : Nat) : (s.free ptr).2.Aligned := by
  obtain ⟨-,C,hC⟩ := id h
  obtain ⟨D,hD⟩ := hC.free_call ptr
  exact h.call (c := .free ptr) hD

namespace LockedPool
variable {limit : Nat} {w : Pages} {ar : List Arena} {size : BitVec 64}

lemma allocEach_aligned (h : ∀ a∈ar, a.Aligned) (hs : size.toNat≤ARENA_SIZE) :
    (∀ a∈(allocEach size ar).2, a.Aligned) ∧ ARENA_ALIGN∣(allocEach size ar).1 := by
  induction ar with
  | nil => exact ⟨h,Nat.dvd_zero _⟩
  | cons a ar ih =>
    obtain ⟨ha,h⟩ := forall_mem_cons.mp h
    obtain ⟨ha,hd⟩ := ha.alloc hs
    obtain ⟨hi,he⟩ := ih h
    unfold allocEach
    dsimp only
    split
    · exact ⟨forall_mem_cons.mpr ⟨ha,h⟩,hd⟩
    · exact ⟨forall_mem_cons.mpr ⟨ha,hi⟩,he⟩

/- A limit below the size of an arena makes the first arena smaller than a request may be. -/
def Suffices (limit : Nat) : Prop := limit=0 ∨ ARENA_SIZE≤limit

lemma newArena_eq (hl : Suffices limit) (hw : w.Succeeds) :
    newArena limit w ar ARENA_SIZE ARENA_ALIGN=some (Arena.new w.addr ARENA_SIZE ARENA_ALIGN) := by
  obtain rfl | hl := hl
  · simp [newArena,hw]
  · simp [newArena,hw,hl]

lemma alloc_aligned (hl : Suffices limit) (h : ∀ a∈ar, a.Aligned) :
    (∀ a∈(alloc limit w ar size).2, a.Aligned) ∧ ARENA_ALIGN∣(alloc limit w ar size).1 := by
  unfold alloc
  split
  · exact ⟨h,Nat.dvd_zero _⟩
  rename_i hs
  have hs : size.toNat≤ARENA_SIZE := by omega
  obtain ⟨h,hd⟩ := allocEach_aligned h hs
  dsimp only
  split
  · exact ⟨h,hd⟩
  split
  · exact ⟨h,Nat.dvd_zero _⟩
  · rename_i a hn
    have hw : w.Succeeds := by
      by_contra hw
      simp [newArena,hw] at hn
    rw [newArena_eq hl hw] at hn
    cases hn
    have ha : (Arena.new w.addr ARENA_SIZE ARENA_ALIGN).Aligned :=
        ⟨rfl,_,.new w.aligned (by decide) _⟩
    obtain ⟨ha,hd⟩ := ha.alloc hs
    exact ⟨forall_mem_append.mpr ⟨h,by simpa using ha⟩,hd⟩

lemma alloc_ne_zero (hl : Suffices limit) (hw : w.Succeeds) (h0 : size≠0)
    (hs : size.toNat≤ARENA_SIZE) :
    (alloc limit w ar size).1≠0 := by
  unfold alloc
  rw [if_neg (not_or.mpr ⟨h0,not_lt.mpr hs⟩)]
  dsimp only
  split
  · assumption
  · rw [newArena_eq hl hw]
    intro hz
    have ha := alignUp_sixteen hs
    obtain hk | hk := (Arena.Partitioned.new (Nat.one_dvd _) (Nat.one_dvd _) _).of_alloc_eq_zero
      (Nat.pos_of_ne_zero hw.1) hz
    · have hk : (alignUp size ARENA_ALIGN).toNat=0 := congrArg _ hk
      exact h0 (BitVec.eq_of_toNat_eq (by simp; omega))
    · have hk : ARENA_SIZE<(alignUp size ARENA_ALIGN).toNat := hk _ rfl rfl
      unfold ARENA_SIZE at hk hs
      omega

lemma free_aligned (h : ∀ a∈ar, a.Aligned) (ptr : Nat) : ∀ a∈(free ptr ar).2, a.Aligned := by
  induction ar with
  | nil => exact h
  | cons a ar ih =>
    obtain ⟨ha,h⟩ := forall_mem_cons.mp h
    unfold free
    split
    · exact forall_mem_cons.mpr ⟨ha.free ptr,h⟩
    · exact forall_mem_cons.mpr ⟨ha,ih h⟩

lemma call_aligned (hl : Suffices limit) (h : ∀ a∈ar, a.Aligned) (c : Call) :
    ∀ a∈call limit ar c, a.Aligned := by
  cases c with
  | alloc w size => exact (alloc_aligned hl h).1
  | free ptr => exact free_aligned h ptr

lemma run_aligned (hl : Suffices limit) (h : ∀ a∈ar, a.Aligned) (calls : List Call) :
    ∀ a∈calls.foldl (call limit) ar, a.Aligned := by
  induction calls generalizing ar with
  | nil => exact h
  | cons c calls ih => exact ih (call_aligned hl h c)

lemma first_alloc_eq_zero (h0 : limit≠0) (hl : limit<ARENA_SIZE) (hw : w.Succeeds) :
    (alloc limit w [] ARENA_SIZE).1=0 := by
  have hn : newArena limit w [] ARENA_SIZE
      ARENA_ALIGN=some (Arena.new w.addr limit ARENA_ALIGN) := by
    simp [newArena,hw,Nat.pos_of_ne_zero h0,hl.le]
  have hk : (alignUp ARENA_SIZE ARENA_ALIGN).toNat=ARENA_SIZE := by decide
  have ha : ((Arena.new w.addr limit ARENA_ALIGN).alloc ARENA_SIZE).1=0 := by
    simp [-BitVec.natCast_eq_ofNat,Arena.alloc,Arena.new,hk,hl]
  unfold alloc
  rw [if_neg (by decide)]
  simp [-BitVec.natCast_eq_ofNat,allocEach,hn,ha]

/-- Every allocation succeeds and is aligned exactly when the limit, if there is one, leaves room for
a whole arena. -/
theorem alloc_ok_iff (limit : Nat) :
    (∀ (calls : List Call) (w : Pages) (size : BitVec 64), w.Succeeds →
      0 < size.toNat → size.toNat≤ARENA_SIZE →
      let r := (alloc limit w (calls.foldl (call limit) []) size).1
      r≠0 ∧ ARENA_ALIGN∣r) ↔ limit=0 ∨ ARENA_SIZE≤limit := by
  constructor
  · intro h
    by_contra hl
    obtain ⟨h0,hl⟩ := not_or.mp hl
    have hw : (Pages.mk ARENA_ALIGN (Nat.dvd_refl _) true none).Succeeds := ⟨by decide,.inl rfl⟩
    exact (h [] _ ARENA_SIZE hw (by decide) (by decide)).1
        (first_alloc_eq_zero h0 (not_le.mp hl) hw)
  · intro hl calls w size hw h0 hs
    have h0 : size≠0 := by
      rintro rfl
      simp at h0
    exact ⟨alloc_ne_zero hl hw h0 hs,(alloc_aligned hl (run_aligned hl (by simp) calls)).2⟩

/- A limit of 24 bytes: the first byte lies 8 bytes into the arena, and a whole arena is refused. -/
theorem alloc_misaligned : let w : Pages := ⟨4096,by decide,true,none⟩
    (alloc 24 w [] 1).1=4104 ∧ ¬ARENA_ALIGN∣4104 ∧ (alloc 24 w [] ARENA_SIZE).1=0 := by
  decide
end LockedPool
end Xero
