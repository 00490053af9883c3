import Xero.Library.Tiling
import Mathlib.Data.List.Sort

/-! The arena of the locked pool: best fit from sorted free chunks, and coalescing on both sides. -/
namespace Xero
open Library Function List

def alignUp (x align : BitVec 64) : BitVec 64 := (x+align-1) &&& ~~~(align-1)

/-- An element of size_to_free_chunk, and an iterator to it: the size and the start of a chunk. -/
abbrev FreeChunk := Nat×Nat

/-- The maps of an arena; addresses are numbers, and 0 is the null pointer. -/
structure Arena where
  base : Nat
  stop : Nat
  alignment : BitVec 64
  chunksUsed : Nat → Option Nat
  chunksFree : Nat → Option FreeChunk
  chunksFreeEnd : Nat → Option FreeChunk
  sizeToFreeChunk : List FreeChunk

namespace Arena
/- emplace of the maps, which keeps an element that is there, and of the multimap. -/
def emplace {β : Type} (m : Nat → Option β) (k : Nat) (v : β) : Nat → Option β :=
  if (m k).isSome then m else update m k (some v)

def emplaceSize (l : List FreeChunk) (it : FreeChunk) : List FreeChunk :=
  l.orderedInsert (fun a b => a.1<b.1) it

def new (base size : Nat) (alignment : BitVec 64) : Arena where
  base
  stop := base+size
  alignment
  chunksUsed _ := none
  chunksFree := update (fun _ => none) base (some (size,base))
  chunksFreeEnd := update (fun _ => none) (base+size) (some (size,base))
  sizeToFreeChunk := [(size,base)]

def alloc (s : Arena) (size : BitVec 64) : Nat×Arena :=
  let size := (alignUp size s.alignment).toNat
  if size=0 then (0,s)
  else match s.sizeToFreeChunk.find? (fun it => size ≤ it.1) with
  | none => (0,s)
  | some it =>
    let remaining := it.1-size
    let s := {s with
      chunksUsed := emplace s.chunksUsed (it.2+remaining) size
      chunksFreeEnd := update s.chunksFreeEnd (it.2+it.1) none}
    if it.1=size then (it.2+remaining,{s with
      chunksFree := update s.chunksFree it.2 none
      sizeToFreeChunk := s.sizeToFreeChunk.erase it})
    else (it.2+remaining,{s with
      chunksFree := update s.chunksFree it.2 (some (remaining,it.2))
      chunksFreeEnd := emplace s.chunksFreeEnd (it.2+remaining) (remaining,it.2)
      sizeToFreeChunk := (emplaceSize s.sizeToFreeChunk (remaining,it.2)).erase it})

def coalescePrev (s : Arena) (first second : Nat) : Arena×Nat×Nat :=
  match s.chunksFreeEnd first with
  | none => (s,first,second)
  | some prev => ({s with
      sizeToFreeChunk := s.sizeToFreeChunk.erase prev
      chunksFreeEnd := update s.chunksFreeEnd first none},first-prev.1,second+prev.1)

def coalesceNext (s : Arena) (first second : Nat) : Arena×Nat×Nat :=
  match s.chunksFree (first+second) with
  | none => (s,first,second)
  | some next => ({s with
      sizeToFreeChunk := s.sizeToFreeChunk.erase next
      chunksFree := update s.chunksFree (first+second) none},first,second+next.1)

def addFree (s : Arena) (first second : Nat) : Arena :=
  {s with
    sizeToFreeChunk := emplaceSize s.sizeToFreeChunk (second,first)
    chunksFree := update s.chunksFree first (some (second,first))
    chunksFreeEnd := update s.chunksFreeEnd (first+second) (some (second,first))}

def INVALID_FREE : String := "Arena: invalid or double free"

/-- What the call throws, and the arena after it. -/
def free (s : Arena) (ptr : Nat) : Except String Unit×Arena :=
  if ptr=0 then (.ok (),s)
  else match s.chunksUsed ptr with
  | none => (.error INVALID_FREE,s)
  | some size =>
    let (s,first,second) :=
      coalescePrev {s with chunksUsed := update s.chunksUsed ptr none} ptr size
    let (s,first,second) := coalesceNext s first second
    (.ok (),s.addFree first second)

/-- The maps list the chunks of `C`, free ones with the label false, and the chunks tile the arena. -/
structure Partitioned (d : Nat) (s : Arena) (C : Set (Piece Bool)) : Prop where
  tiles : Tiles d s.base s.stop C
  positive : ∀ c∈C, 0 < c.size ∨ c.label=false ∧ s.base=s.stop
  apart : ∀ p n m, 0<n → ⟨p,n,false⟩∈C → ⟨p+n,m,false⟩∉C
  used : ∀ p n, s.chunksUsed p=some n ↔ ⟨p,n,true⟩∈C
  free : ∀ p it, s.chunksFree p=some it ↔ it.2=p ∧ ⟨p,it.1,false⟩∈C
  freeEnd : ∀ e it, s.chunksFreeEnd e=some it ↔ it.2+it.1=e ∧ ⟨it.2,it.1,false⟩∈C
  nodup : s.sizeToFreeChunk.Nodup
  sizes : ∀ it, it∈s.sizeToFreeChunk ↔ ⟨it.2,it.1,false⟩∈C

/-- The same while the chunk of `second` bytes at `first` is freed. It is in `C` as a used one. -/
structure Holding (d : Nat) (s : Arena) (C : Set (Piece Bool)) (first second : Nat) : Prop where
  tiles : Tiles d s.base s.stop C
  positive : ∀ c∈C, 0 < c.size
  apart : ∀ p n m, ⟨p,n,false⟩∈C → ⟨p+n,m,false⟩∉C
  held : ⟨first,second,true⟩∈C
  used : ∀ p n, s.chunksUsed p=some n ↔ ⟨p,n,true⟩∈C ∧ p≠first
  free : ∀ p it, p≠first → (s.chunksFree p=some it ↔ it.2=p ∧ ⟨p,it.1,false⟩∈C)
  freeEnd : ∀ e it, e≠first+second → (s.chunksFreeEnd e=some it ↔ it.2+it.1=e ∧ ⟨it.2,it.1,false⟩∈C)
  nodup : s.sizeToFreeChunk.Nodup
  sizes : ∀ it, it∈s.sizeToFreeChunk ↔ ⟨it.2,it.1,false⟩∈C

variable {d : Nat} {s : Arena} {C : Set (Piece Bool)} {u v : Nat} {it x : FreeChunk}
    {l : List FreeChunk}

lemma mem_emplaceSize : x∈emplaceSize l it ↔ x=it ∨ x∈l := mem_orderedInsert _

lemma nodup_emplaceSize (h : l.Nodup) (hn : it∉l) : (emplaceSize l it).Nodup :=
  (perm_orderedInsert _ _ _).nodup_iff.mpr (nodup_cons.mpr ⟨hn,h⟩)

lemma Partitioned.pos (h : s.Partitioned d C) {c e : Piece Bool} (hc : c∈C)
    (hn : 0 < c.size) (he : e∈C) :
    0<e.size := by
  obtain hp | ⟨-,hb⟩ := h.positive e he
  · exact hp
  · have ha := (h.tiles.covers c.start).mpr ⟨c,hc,le_rfl,by omega⟩
    omega

lemma Partitioned.unused (h : s.Partitioned d C) {p n q : Nat} (hc : ⟨p,n,false⟩∈C) (hl : p≤q)
    (hr : q<p+n) : s.chunksUsed q=none := by
  refine Option.eq_none_iff_forall_ne_some.mpr fun m hm => ?_
  have hd := (h.used q m).mp hm
  have hp := h.pos hc (show 0<n by omega) hd
  obtain ⟨-,-,hf⟩ := h.tiles.unique hc hd ⟨hl,hr⟩ ⟨le_rfl,Nat.lt_add_of_pos_right hp⟩
  cases hf

lemma Partitioned.alloc (h : s.Partitioned d C) {size : BitVec 64}
    (hd : d∣(alignUp size s.alignment).toNat) :
    ∃ C', (s.alloc size).2.Partitioned d C' ∧ d∣(s.alloc size).1 := by
  unfold Arena.alloc
  dsimp only
  generalize (alignUp size s.alignment).toNat=k at hd ⊢
  split
  · exact ⟨C,h,Nat.dvd_zero d⟩
  rename_i hk
  split
  · exact ⟨C,h,Nat.dvd_zero d⟩
  rename_i it hf
  obtain ⟨n,p⟩ := it
  have hle : k≤n := by simpa using find?_some hf
  have hc : ⟨p,n,false⟩∈C := (h.sizes (n,p)).mp (mem_of_find?_eq_some hf)
  obtain ⟨C',ht,hm⟩ := h.tiles.take hc hle hd true
  have hp {d : Piece Bool} (hd : d∈C) := h.pos hc (show 0<n by omega) hd
  have hin {q m b} (hd : ⟨q,m,b⟩∈C) : p≤q → q<p+n → p=q ∧ n=m ∧ false=b :=
    fun hl hr => h.tiles.unique hc hd ⟨hl,hr⟩ ⟨le_rfl,Nat.lt_add_of_pos_right (hp hd)⟩
  have ho {q m b} (hd : ⟨q,m,b⟩∈C) : q≤p → p<q+m → q=p ∧ m=n ∧ b=false :=
    fun hl hr => h.tiles.unique hd hc ⟨hl,hr⟩ ⟨le_rfl,Nat.lt_add_of_pos_right (hp hc)⟩
  have hen {q m b} (hd : ⟨q,m,b⟩∈C) : p+n=q+m → p=q ∧ n=m ∧ false=b :=
    h.tiles.eq_of_end hc hd (hp hc) (hp hd)
  have hno : s.chunksUsed (p+(n-k))=none := h.unused hc (by omega) (by omega)
  have hw := (ht.whole _ ((hm _).mpr (.inr (.inl rfl)))).1
  have hpo : ∀ c∈C', 0 < c.size := by
    intro c hd
    obtain hd | rfl | ⟨hl,rfl⟩ := (hm c).mp hd
    · exact hp hd.1
    · exact Nat.pos_of_ne_zero hk
    · exact Nat.sub_pos_of_lt hl
  have hap : ∀ q m m', 0 < m → ⟨q,m,false⟩∈C' → ⟨q+m,m',false⟩∉C' := by
    have ha := h.apart
    grind
  have hu := h.used
  have hf := h.free
  have he := h.freeEnd
  have hn := h.nodup
  split
  · refine ⟨C',⟨ht,fun c hd => .inl (hpo c hd),hap,fun q m => ?_,fun q it => ?_,fun q it =>
        ?_,hn.erase _,?_⟩,hw⟩
    · simp only [emplace,hno]
      grind
    · grind
    · grind
    · intro it
      rw [hn.mem_erase_iff,h.sizes]
      grind
  · have hne : (n-k,p)∉s.sizeToFreeChunk := by
      rw [h.sizes]
      grind
    refine ⟨C',⟨ht,fun c hd => .inl (hpo c hd),hap,fun q m => ?_,fun q it => ?_,fun q it => ?_,
      (nodup_emplaceSize hn hne).erase _,?_⟩,hw⟩
    · simp only [emplace,hno]
      grind
    · grind
    · have hfr : update s.chunksFreeEnd (p+n) none (p+(n-k))=none :=
        Option.eq_none_iff_forall_ne_some.mpr fun it hi => by grind
      simp only [emplace,hfr]
      grind
    · intro it
      rw [(nodup_emplaceSize hn hne).mem_erase_iff,mem_emplaceSize,h.sizes]
      grind

lemma Partitioned.hold (h : s.Partitioned d C) {ptr size : Nat} (hp : s.chunksUsed ptr=some size) :
    {s with chunksUsed := update s.chunksUsed ptr none}.Holding d C ptr size ∧
    s.chunksFree ptr=none ∧
      s.chunksFreeEnd (ptr+size)=none := by
  have hc := (h.used _ _).mp hp
  obtain hz | ⟨⟨⟩,-⟩ := h.positive _ hc
  have hpo {c : Piece Bool} (hd : c∈C) := h.pos hc hz hd
  refine ⟨⟨h.tiles,fun c hd => hpo hd,fun p n m hd => h.apart p n m (hpo hd) hd,hc,fun p n => ?_,
    fun p it _ => h.free p it,fun e it _ => h.freeEnd e it,h.nodup,h.sizes⟩,?_,?_⟩
  · have hu := h.used
    grind
  · refine Option.eq_none_iff_forall_ne_some.mpr fun it hi => ?_
    have hd := ((h.free _ _).mp hi).2
    obtain ⟨-,⟨⟩⟩ := h.tiles.eq_of_start hc hd hz (hpo hd)
  · refine Option.eq_none_iff_forall_ne_some.mpr fun it hi => ?_
    obtain ⟨he,hd⟩ := (h.freeEnd _ _).mp hi
    obtain ⟨-,-,⟨⟩⟩ := h.tiles.eq_of_end hc hd hz (hpo hd) he.symm

lemma Holding.unique (h : s.Holding d C u v) {p n q m : Nat} {b b' : Bool} (hc : ⟨p,n,b⟩∈C)
    (hd : ⟨q,m,b'⟩∈C) (he : p=q ∨ p+n=q+m) : p=q ∧ n=m ∧ b=b' := by
  obtain rfl | he := he
  · exact ⟨rfl,h.tiles.eq_of_start hc hd (h.positive _ hc) (h.positive _ hd)⟩
  · exact h.tiles.eq_of_end hc hd (h.positive _ hc) (h.positive _ hd) he

/- A free chunk is taken in on the left; its start stays in chunks_free until the end. -/
lemma Holding.coalescePrev (h : s.Holding d C u v) (hn : s.chunksFree u=none)
    (hne : s.chunksFreeEnd (u+v)=none) {t : Arena} {f g : Nat}
    (ht : s.coalescePrev u v=(t,f,g)) : ∃ C', t.Holding d C' f g ∧ t.chunksFreeEnd (f+g)=none ∧
      ∀ q m, ⟨q,m,false⟩∈C' → q+m≠f := by
  have hz : 0<v := h.positive _ h.held
  unfold Arena.coalescePrev at ht
  split at ht
  · rename_i hi
    cases ht
    refine ⟨C,h,hne,fun q m hd he => ?_⟩
    rw [(h.freeEnd u (m,q) (by omega)).mpr ⟨he,hd⟩] at hi
    cases hi
  · rename_i it hi
    obtain ⟨m,q⟩ := it
    obtain ⟨rfl,hd⟩ := (h.freeEnd _ _ (by omega)).mp hi
    cases ht
    obtain ⟨C',ht,hm⟩ := h.tiles.merge hd h.held true
    simp only [Nat.add_sub_cancel,Nat.add_comm v]
    have hx {p n b} (hc : ⟨p,n,b⟩∈C) := h.unique hc hd
    have hy {p n b} (hc : ⟨p,n,b⟩∈C) := h.unique hc h.held
    have hq := h.positive _ hd
    obtain ⟨-,hp,ha,-,hu,hf,he,hnd,hs⟩ := h
    have hs' : ∀ it, it∈s.sizeToFreeChunk.erase (m,q) ↔ ⟨it.2,it.1,false⟩∈C' := by
      grind [hnd.mem_erase_iff]
    exact ⟨C',⟨ht,by grind,by grind,by grind,by grind,by grind,by grind,hnd.erase _,hs'⟩,
      by grind,by grind⟩

/- And one on the right, whose end stays in chunks_free_end. -/
lemma Holding.coalesceNext (h : s.Holding d C u v) (hne : s.chunksFreeEnd (u+v)=none)
    (hl : ∀ q m, ⟨q,m,false⟩∈C → q+m≠u) {t : Arena} {f g : Nat}
    (ht : s.coalesceNext u v=(t,f,g)) : ∃ C', t.Holding d C' f g ∧
      (∀ q m, ⟨q,m,false⟩∈C' → q+m≠f) ∧ ∀ m, ⟨f+g,m,false⟩∉C' := by
  have hz : 0<v := h.positive _ h.held
  unfold Arena.coalesceNext at ht
  split at ht
  · rename_i hi
    cases ht
    refine ⟨C,h,hl,fun m hd => ?_⟩
    rw [(h.free _ (m,_) (by omega)).mpr ⟨rfl,hd⟩] at hi
    cases hi
  · rename_i it hi
    obtain ⟨m,q⟩ := it
    obtain ⟨rfl,hd⟩ := (h.free _ _ (by omega)).mp hi
    cases ht
    obtain ⟨C',ht,hm⟩ := h.tiles.merge h.held hd true
    have hx {p n b} (hc : ⟨p,n,b⟩∈C) := h.unique hc hd
    have hy {p n b} (hc : ⟨p,n,b⟩∈C) := h.unique hc h.held
    have hq := h.positive _ hd
    obtain ⟨-,hp,ha,-,hu,hf,he,hn,hs⟩ := h
    have hs' : ∀ it, it∈s.sizeToFreeChunk.erase (m,u+v) ↔ ⟨it.2,it.1,false⟩∈C' := by
      grind [hn.mem_erase_iff]
    exact ⟨C',⟨ht,by grind,by grind,by grind,by grind,by grind,by grind,hn.erase _,hs'⟩,
      by grind,by grind [Nat.add_assoc]⟩

lemma Holding.addFree (h : s.Holding d C u v) (hl : ∀ q m, ⟨q,m,false⟩∈C → q+m≠u)
    (hr : ∀ m, ⟨u+v,m,false⟩∉C) : ∃ C', (s.addFree u v).Partitioned d C' := by
  obtain ⟨C',ht,hm⟩ := h.tiles.take h.held le_rfl (h.tiles.whole _ h.held).2 false
  simp only [Nat.sub_self,Nat.add_zero,lt_self_iff_false,false_and,or_false] at hm
  have hz : 0<v := h.positive _ h.held
  have hy {p n b} (hc : ⟨p,n,b⟩∈C) := h.unique hc h.held
  obtain ⟨-,hp,ha,-,hu,hf,he,hnd,hs⟩ := h
  have hn : (v,u)∉s.sizeToFreeChunk := by grind
  refine ⟨C',ht,?_,?_,?_,fun p it => ?_,fun e it => ?_,nodup_emplaceSize hnd hn,fun it => ?_⟩
  · grind
  · grind
  · exact fun p n => by grind [Arena.addFree]
  · simp only [Arena.addFree,Function.update_apply]
    grind
  · simp only [Arena.addFree,Function.update_apply]
    grind
  · rw [Arena.addFree,mem_emplaceSize,hs]
    grind

lemma Partitioned.free_call (h : s.Partitioned d C) (ptr : Nat) :
    ∃ C', (s.free ptr).2.Partitioned d C' := by
  unfold Arena.free
  split
  · exact ⟨C,h⟩
  · split
    · exact ⟨C,h⟩
    · rename_i hp
      obtain ⟨hh,hn,hne⟩ := h.hold hp
      obtain ⟨_,hh,hne,hl⟩ := hh.coalescePrev hn hne rfl
      obtain ⟨_,hh,hl,hr⟩ := hh.coalesceNext hne hl rfl
      exact hh.addFree hl hr

lemma Partitioned.new {b size : Nat} (hb : d∣b) (hs : d∣size) (al : BitVec 64) :
    (new b size al).Partitioned d {⟨b,size,false⟩} := by
  refine ⟨⟨fun a => ?_,?_,by simp [hb,hs]⟩,?_,?_,?_,?_,?_,?_,?_⟩
  · simp [Piece.Has,Arena.new]
  · rintro a _ rfl _ rfl - -
    rfl
  · simp [Arena.new]
    omega
  · simp
    omega
  · simp [Arena.new]
  · simp only [Arena.new,Function.update_apply]
    grind
  · simp only [Arena.new,Function.update_apply]
    grind
  · simp [Arena.new]
  · grind [Arena.new]

lemma Partitioned.of_alloc_eq_zero (h : s.Partitioned d C) (hb : 0 < s.base) {size : BitVec 64}
    (ha : (s.alloc size).1=0) : alignUp size s.alignment=0 ∨
      ∀ c∈C, c.label=false → c.size<(alignUp size s.alignment).toNat := by
  by_cases hk : (alignUp size s.alignment).toNat=0
  · exact .inl (BitVec.eq_of_toNat_eq hk)
  refine .inr fun c hc hl => lt_of_not_ge fun hle => ?_
  obtain ⟨p,n,_⟩ := c
  cases hl
  have hi := (h.sizes (n,p)).mpr hc
  unfold Arena.alloc at ha
  simp only [hk,if_false] at ha
  split at ha
  · rename_i hf
    simpa [hle] using find?_eq_none.mp hf _ hi
  · rename_i it hf
    have hz : 0 < it.1 := lt_of_lt_of_le (Nat.pos_of_ne_zero hk) (by simpa using find?_some hf)
    have hd := (h.sizes it).mp (mem_of_find?_eq_some hf)
    have hle := (h.tiles.covers it.2).mpr ⟨_,hd,le_rfl,by simpa using hz⟩
    split at ha
    · omega
    · omega

/- A chunk is cut from the end of a free one. -/
lemma Partitioned.of_alloc_ne_zero (h : s.Partitioned d C) {size : BitVec 64}
    (ha : (s.alloc size).1≠0) : ∃ c∈C, c.label=false ∧ c.start ≤ (s.alloc size).1 ∧
      (s.alloc size).1+(alignUp size s.alignment).toNat=c.start+c.size ∧
      (s.alloc size).2.chunksUsed=
        update s.chunksUsed (s.alloc size).1 (some (alignUp size s.alignment).toNat) := by
  unfold Arena.alloc at ha ⊢
  dsimp only at ha ⊢
  generalize (alignUp size s.alignment).toNat=k at ha ⊢
  split at ha
  · cases ha rfl
  rename_i hk
  split at ha
  · cases ha rfl
  rename_i it hf
  have hle : k ≤ it.1 := by simpa using find?_some hf
  have hc : ⟨it.2,it.1,false⟩∈C := (h.sizes it).mp (mem_of_find?_eq_some hf)
  have hno : s.chunksUsed (it.2+(it.1-k))=none := h.unused hc (by omega) (by omega)
  refine ⟨_,hc,rfl,?_⟩
  simp only [hk,if_false]
  split <;> simp only [emplace,hno,Option.isSome_none,Bool.false_eq_true,if_false] <;> grind

lemma Partitioned.free_throws (h : s.Partitioned d C) {ptr : Nat} (hp : ptr≠0)
    (hn : ∀ n, ⟨ptr,n,true⟩∉C) :
    s.free ptr=(.error INVALID_FREE,s) := by
  have hu : s.chunksUsed ptr=none :=
    Option.eq_none_iff_forall_ne_some.mpr fun n hu => hn n ((h.used ptr n).mp hu)
  simp [Arena.free,hp,hu]

lemma Partitioned.free_used (h : s.Partitioned d C) {ptr n : Nat} (hp : ptr≠0)
    (hn : ⟨ptr,n,true⟩∈C) :
    (s.free ptr).1=.ok () ∧ (s.free ptr).2.chunksUsed=update s.chunksUsed ptr none := by
  simp only [Arena.free,hp,if_false,(h.used ptr n).mpr hn,addFree,coalesceNext,coalescePrev]
  grind

/-- A call of the arena; the exception of a free goes to the caller. -/
inductive Call where
  | alloc (size : BitVec 64)
  | free (ptr : Nat)

def call (s : Arena) : Call → Arena
  | .alloc size => (s.alloc size).2
  | .free ptr => (s.free ptr).2

lemma call_bounds (s : Arena) (c : Call) :
    (s.call c).base=s.base ∧ (s.call c).stop=s.stop ∧ (s.call c).alignment=s.alignment := by
  cases c with
  | alloc si => grind [call,alloc]
  | free p => grind [call,free,addFree,coalescePrev,coalesceNext]

lemma Partitioned.call (h : s.Partitioned 1 C) (c : Call) : ∃ C', (s.call c).Partitioned 1 C' := by
  cases c with
  | alloc si =>
    obtain ⟨C',h,-⟩ := h.alloc (Nat.one_dvd _)
    exact ⟨C',h⟩
  | free p => exact h.free_call p

lemma Partitioned.run (h : s.Partitioned 1 C) (calls : List Call) :
    ∃ C', (calls.foldl Arena.call s).Partitioned 1 C' ∧
    (calls.foldl Arena.call s).base=s.base ∧ (calls.foldl Arena.call s).stop=s.stop ∧
    (calls.foldl Arena.call s).alignment=s.alignment := by
  induction calls generalizing s C with
  | nil => exact ⟨C,h,rfl,rfl,rfl⟩
  | cons c calls ih =>
    obtain ⟨D,hD⟩ := h.call c
    have hb := s.call_bounds c
    obtain ⟨E,hE⟩ := ih hD
    exact ⟨E,by simpa only [foldl_cons,← hb] using hE⟩

/-- After any calls, chunks tile the arena and the maps list them. An allocation fails only for want
of a chunk, and is else cut from the end of a free one; a free of a used chunk ends its use, and one
of anything else throws and changes nothing. -/
theorem partitioned_after_calls (base size : Nat) (alignment : BitVec 64) (calls : List Call) :
    let s := calls.foldl call (new base size alignment)
    ∃ C, s.Partitioned 1 C ∧ s.base=base ∧ s.stop=base+size ∧
      (∀ n, 0<base → (s.alloc n).1=0 → alignUp n alignment=0 ∨
        ∀ c∈C, c.label=false → c.size<(alignUp n alignment).toNat) ∧
      (∀ n, (s.alloc n).1≠0 → ∃ c∈C, c.label=false ∧ c.start ≤ (s.alloc n).1 ∧
        (s.alloc n).1+(alignUp n alignment).toNat=c.start+c.size ∧ (s.alloc n).2.chunksUsed=
          update s.chunksUsed (s.alloc n).1 (some (alignUp n alignment).toNat)) ∧
      (∀ ptr n, ptr≠0 → ⟨ptr,n,true⟩∈C →
        (s.free ptr).1=.ok () ∧ (s.free ptr).2.chunksUsed=update s.chunksUsed ptr none) ∧
      ∀ ptr, ptr≠0 → (∀ n, ⟨ptr,n,true⟩∉C) → s.free ptr=(.error INVALID_FREE,s) := by
  intro s
  obtain ⟨C,h,hb,hs,ha⟩ :=
    (Partitioned.new (Nat.one_dvd base) (Nat.one_dvd size) alignment).run calls
  refine ⟨C,h,hb,hs,fun n hp hz => ?_,fun n hn => ?_,fun _ _ hp hc => h.free_used hp hc,
    fun _ hp hn => h.free_throws hp hn⟩
  · have hc := h.of_alloc_eq_zero (hb.symm ▸ hp) hz
    rwa [ha] at hc
  · have hc := h.of_alloc_ne_zero hn
    rwa [ha] at hc
end Arena
end Xero
