import Mathlib.Data.List.Basic
import Mathlib.Tactic.IntervalCases

/-! CRollingBloomFilter: a table of two-bit generation numbers. A key is found as long as the
generation of its insertion is one of the last three. -/
namespace Xero
open BitVec
variable {K : Type}

def fastRange32 (x : BitVec 32) (n : Nat) : Nat := (x.toNat*n) >>> 32

/-- The words of the table, of which the pair at `q` is data[2*q] and data[2*q+1]. -/
abbrev BloomTable := List (BitVec 64×BitVec 64)

structure CRollingBloomFilter where
  nEntriesPerGeneration : Nat
  nEntriesThisGeneration : Nat
  nGeneration : Nat
  data : BloomTable
  nTweak : BitVec 32
  nHashFuncs : Nat
  deriving DecidableEq, Repr

/- `hash` is MurmurHash3. -/
def rollingBloomHash (hash : BitVec 32 → K → BitVec 32) (nHashNum : Nat) (nTweak : BitVec 32)
    (vDataToHash : K) : BitVec 32 :=
  hash (BitVec.ofNat 32 nHashNum*0xFBA4C795#32+nTweak) vDataToHash

namespace CRollingBloomFilter
variable (hash : BitVec 32 → K → BitVec 32)

/-- The constructed filter. The number of hash functions and the table length, which come from the
false positive rate, are arbitrary. -/
def new (nElements : BitVec 32) (nHashFuncs pairs : Nat) (nTweak : BitVec 32) :
    CRollingBloomFilter where
  nEntriesPerGeneration := ((nElements+1)/2#32).toNat
  nEntriesThisGeneration := 0
  nGeneration := 1
  data := List.replicate pairs (0,0)
  nTweak := nTweak
  nHashFuncs := nHashFuncs

def bit (h : BitVec 32) : Nat := (h &&& 0x3F#32).toNat

def wipePair (nGeneration : Nat) (p : BitVec 64×BitVec 64) : BitVec 64×BitVec 64 :=
  let nGenerationMask1 := 0#64-BitVec.ofNat 64 (nGeneration &&& 1)
  let nGenerationMask2 := 0#64-BitVec.ofNat 64 (nGeneration >>> 1)
  let mask := (p.1 ^^^ nGenerationMask1) ||| (p.2 ^^^ nGenerationMask2)
  (p.1 &&& mask,p.2 &&& mask)
def nextNumber (nGeneration : Nat) : Nat := if nGeneration+1=4 then 1 else nGeneration+1

/- The start of a new generation, where the last one is full. -/
def nextGeneration (f : CRollingBloomFilter) : CRollingBloomFilter :=
  if f.nEntriesThisGeneration=f.nEntriesPerGeneration then
    {f with
      nEntriesThisGeneration := 0
      nGeneration := nextNumber f.nGeneration
      data := f.data.map (wipePair (nextNumber f.nGeneration))}
  else f

/- The index of the pair that a hash stands for. -/
def place (h : BitVec 32) (pairs : Nat) : Nat := fastRange32 h (2*pairs)/2

def setPair (nGeneration : Nat) (bit : Nat) (p : BitVec 64×BitVec 64) : BitVec 64×BitVec 64 :=
  ((p.1 &&& ~~~(1#64 <<< bit)) ||| BitVec.ofNat 64 (nGeneration &&& 1) <<< bit,
    (p.2 &&& ~~~(1#64 <<< bit)) ||| BitVec.ofNat 64 (nGeneration >>> 1) <<< bit)

/- One round of the loop over the hash functions. -/
def mark (nGeneration : Nat) (data : BloomTable) (h : BitVec 32) : BloomTable :=
  data.modify (place h data.length) (setPair nGeneration (bit h))

def hashes (f : CRollingBloomFilter) (vKey : K) : List (BitVec 32) :=
  (List.range f.nHashFuncs).map fun n => rollingBloomHash hash n f.nTweak vKey

def insert (f : CRollingBloomFilter) (vKey : K) : CRollingBloomFilter :=
  let f := f.nextGeneration
  {f with
    nEntriesThisGeneration := f.nEntriesThisGeneration+1
    data := (f.hashes hash vKey).foldl (mark f.nGeneration) f.data}
def contains (f : CRollingBloomFilter) (vKey : K) : Bool :=
  (f.hashes hash vKey).all fun h =>
    let p := f.data.getD (place h f.data.length) (0,0)
    ((p.1 ||| p.2) >>> bit h) &&& 1#64 != 0

/-! ### Tags -/

/-- The two bits at a position. -/
def tagOf (data : BloomTable) (h : BitVec 32) : Bool×Bool :=
  let p := data.getD (place h data.length) (0,0)
  (p.1.getLsbD (bit h),p.2.getLsbD (bit h))

def genBits (g : Nat) : Bool×Bool := (g%2==1,g/2==1)

/- The number of the generation `a` before the generation `g`, for an age of at most two. -/
def genBack (g a : Nat) : Nat := (g+2-a)%3+1

variable {g d b i c : Nat} {data : BloomTable} {h : BitVec 32}

lemma bit_lt (h : BitVec 32) : bit h<64 := by
  have hl : (h &&& 0x3F#32).toNat≤0x3F := by
    exact Nat.and_le_right
  exact Nat.lt_succ_of_le hl

lemma place_lt (h : BitVec 32) {n : Nat} (hn : 0<n) : place h n<n := by
  have hl : h.toNat*(2*n)<2^32*(2*n) := Nat.mul_lt_mul_of_pos_right h.isLt (by omega)
  unfold place fastRange32
  omega

lemma getLsbD_setBit (w : BitVec 64) (hi : i<64) (hc : c<2) :
    ((w &&& ~~~(1#64 <<< b)) ||| BitVec.ofNat 64 c <<< b).getLsbD i=
      if i=b then c==1 else w.getLsbD i := by
  by_cases hib : i=b
  · subst hib
    interval_cases c <;> simp [hi]
  · have hbit : i<b ∨ i-b≠0 := by omega
    interval_cases c <;> rcases hbit with hlt | hne <;> simp_all

lemma getLsbD_generationMask (hi : i<64) (hc : c<2) :
    (0#64-BitVec.ofNat 64 c).getLsbD i=(c==1) := by
  interval_cases c
  · simp
  · have ho : 0#64-BitVec.ofNat 64 1=allOnes 64 := by decide
    rw [ho,getLsbD_allOnes]
    simpa using hi

lemma setPair_bits (p : BitVec 64×BitVec 64) (hg : g≤3) (hi : i<64) :
    ((setPair g b p).1.getLsbD i,(setPair g b p).2.getLsbD i)=
      if i=b then genBits g else (p.1.getLsbD i,p.2.getLsbD i) := by
  simp only [setPair,Nat.and_one_is_mod,Nat.shiftRight_one]
  rw [getLsbD_setBit p.1 hi (by omega),getLsbD_setBit p.2 hi (by omega)]
  split <;> rfl

/- A tag that differs from the generation number in one bit has both bits of the mask. -/
lemma wiped_bits (x y u v : Bool) : (x && (x ^^ u || y ^^ v),y && (x ^^ u || y ^^ v))=
    if (x,y)=(u,v) then (false,false) else (x,y) := by
  revert x y u v
  decide

lemma wipePair_bits (p : BitVec 64×BitVec 64) (hg : g≤3) (hi : i<64) :
    ((wipePair g p).1.getLsbD i,(wipePair g p).2.getLsbD i)=
      if (p.1.getLsbD i,p.2.getLsbD i)=genBits g then (false,false)
      else (p.1.getLsbD i,p.2.getLsbD i) := by
  simp only [wipePair,genBits,Nat.and_one_is_mod,Nat.shiftRight_one,getLsbD_and,
      getLsbD_or,getLsbD_xor]
  rw [getLsbD_generationMask hi (by omega),getLsbD_generationMask hi (by omega)]
  exact wiped_bits ..

lemma tagOf_mark (h h' : BitVec 32) (hg : g≤3) (hpo : 0<data.length) :
    tagOf (mark g data h) h'=genBits g ∨ tagOf (mark g data h) h'=tagOf data h' ∧ h'≠h := by
  have hl : (mark g data h).length=data.length := List.length_modify ..
  have hlt := place_lt h' hpo
  simp only [tagOf,hl]
  simp only [mark,List.getD_eq_getElem?_getD,List.getElem?_modify,List.getElem?_eq_getElem hlt]
  by_cases hp : place h data.length=place h' data.length
  · simp only [if_pos hp,Option.map_eq_map,Option.map_some,Option.getD_some]
    rw [setPair_bits _ hg (bit_lt h')]
    by_cases hb : bit h'=bit h
    · exact .inl (if_pos hb)
    · exact .inr ⟨if_neg hb,fun he => hb (by rw [he])⟩
  · exact .inr ⟨by simp [hp],fun he => hp (by rw [he])⟩

/-- The tag at a position is the number of a generation of age at most `d`. -/
def Tagged (g d : Nat) (data : BloomTable) (h : BitVec 32) : Prop :=
  ∃ a≤d,tagOf data h=genBits (genBack g a)

lemma tagged_foldl_mark {hs : List (BitVec 32)} (hg : 1≤g ∧ g≤3) (hp : 0<data.length)
    (ht : h∈hs ∨ Tagged g d data h) : Tagged g d (hs.foldl (mark g) data) h := by
  induction hs generalizing data with
  | nil => exact ht.resolve_left (by simp)
  | cons h0 hs ih =>
    refine ih (by simpa [mark] using hp) ?_
    have hse : genBack g 0=g := by
      unfold genBack
      omega
    obtain hn | ⟨ho,hne⟩ := tagOf_mark h0 h hg.2 hp
    · exact .inr ⟨0,d.zero_le,by rw [hse,hn]⟩
    · obtain hm | ⟨a,ha,hta⟩ := ht
      · exact .inl ((List.mem_cons.mp hm).resolve_left hne)
      · exact .inr ⟨a,ha,by rw [ho,hta]⟩

/- The tags that are wiped have the age that the new generation takes the number of. -/
lemma tagged_map_wipePair (hg : 1≤g ∧ g≤3) (hd : d≤1) (ht : Tagged g d data h) :
    Tagged (nextNumber g) (d+1) (data.map (wipePair (nextNumber g))) h := by
  obtain ⟨a,_,hta⟩ := ht
  refine ⟨a+1,by omega,?_⟩
  obtain ⟨_,_⟩ := hg
  have ha : a≤1 := by omega
  have hb : genBack (nextNumber g) (a+1)=genBack g a ∧
      genBits (genBack g a)≠genBits (nextNumber g) ∧ nextNumber g≤3 := by
    interval_cases g <;> interval_cases a <;> decide
  have hw : tagOf (data.map (wipePair (nextNumber g))) h=tagOf data h := by
    simp only [tagOf,List.length_map,List.getD_eq_getElem?_getD,List.getElem?_map]
    cases hp : data[place h data.length]? with
    | none => rfl
    | some p =>
      have hta' : (p.1.getLsbD (bit h),p.2.getLsbD (bit h))=genBits (genBack g a) := by
        simpa [tagOf,hp] using hta
      simp only [Option.map_some,Option.getD_some]
      rw [wipePair_bits p hb.2.2 (bit_lt h),hta',if_neg hb.2.1]
  rw [hw,hta,hb.1]

/-! ### Runs -/

/-- What the constructor gives and every insertion keeps. -/
structure Valid (f : CRollingBloomFilter) : Prop where
  data_pos : 0<f.data.length
  generation : 1≤f.nGeneration ∧ f.nGeneration≤3
  entries : f.nEntriesPerGeneration=0 ∨ f.nEntriesThisGeneration≤f.nEntriesPerGeneration

/-- Every position of a key has a tag of age at most `d`. -/
def Remembers (f : CRollingBloomFilter) (d : Nat) (vKey : K) : Prop :=
  ∀ h∈f.hashes hash vKey,Tagged f.nGeneration d f.data h

variable {hash} {f : CRollingBloomFilter} {k k0 : K}

lemma contains_of_remembers (hk : f.Remembers hash d k) : f.contains hash k := by
  refine List.all_eq_true.mpr fun h hh => ?_
  obtain ⟨a,-,ht⟩ := hk h hh
  simp only [tagOf,Prod.ext_iff] at ht
  generalize f.data.getD (place h f.data.length) (0,0)=p at ht ⊢
  have hs : (p.1 ||| p.2).getLsbD (bit h) := by
    have hm : (f.nGeneration+2-a)%3<3 := Nat.mod_lt _ (by decide)
    rw [getLsbD_or,ht.1,ht.2]
    unfold genBack
    interval_cases (f.nGeneration+2-a)%3 <;> rfl
  refine bne_iff_ne.mpr fun hz => ?_
  have hl := congrArg (getLsbD · 0) hz
  simp [hs] at hl

lemma valid_new {n nt : BitVec 32} {nhf p : Nat} (hp : 0<p) : (new n nhf p nt).Valid where
  data_pos := by simpa [new] using hp
  generation := ⟨Nat.le_refl 1,Nat.le_add_left 1 2⟩
  entries := .inr (Nat.zero_le _)

lemma valid_nextGeneration (hf : f.Valid) : f.nextGeneration.Valid ∧
    (f.nEntriesPerGeneration=0 ∨ f.nextGeneration.nEntriesThisGeneration<f.nEntriesPerGeneration) := by
  obtain ⟨hp,hg,he⟩ := hf
  unfold nextGeneration
  split
  case isTrue hfu =>
    refine ⟨⟨by simpa using hp,?_,.inr (Nat.zero_le _)⟩,by dsimp only; omega⟩
    dsimp only [nextNumber]
    split <;> omega
  case isFalse hr => exact ⟨⟨hp,hg,he⟩,by omega⟩

lemma length_foldl_mark {hs : List (BitVec 32)} : (hs.foldl (mark g) data).length=data.length := by
  induction hs generalizing data with
  | nil => rfl
  | cons h hs ih => exact ih.trans (List.length_modify ..)

lemma perGeneration_next : f.nextGeneration.nEntriesPerGeneration=f.nEntriesPerGeneration := by
  unfold nextGeneration
  split <;> rfl

lemma valid_insert (hf : f.Valid) : (f.insert hash k).Valid := by
  obtain ⟨⟨hp,hg,-⟩,_⟩ := valid_nextGeneration hf
  refine ⟨?_,hg,?_⟩
  · simpa only [insert,length_foldl_mark] using hp
  · simp only [insert,perGeneration_next]
    omega

lemma hashes_nextGeneration : f.nextGeneration.hashes hash k=f.hashes hash k := by
  unfold nextGeneration
  split <;> rfl

lemma insert_self (hf : f.Valid) : (f.insert hash k).Remembers hash 0 k := by
  have hv := (valid_nextGeneration hf).1
  intro h hh
  exact tagged_foldl_mark hv.generation hv.data_pos (.inl hh)

/-- An insertion makes a key one generation older where it starts a generation. -/
lemma insert_remembers (hf : f.Valid) (hk : f.Remembers hash d k)
    (hd : f.nEntriesThisGeneration=f.nEntriesPerGeneration → d≤1) :
    (f.insert hash k0).Remembers hash
      (if f.nEntriesThisGeneration=f.nEntriesPerGeneration then d+1 else d) k := by
  have hv := (valid_nextGeneration hf).1
  intro h hh
  have hh : h∈f.hashes hash k := by
    rw [←hashes_nextGeneration]
    exact hh
  refine tagged_foldl_mark hv.generation hv.data_pos (.inr ?_)
  change Tagged f.nextGeneration.nGeneration _ f.nextGeneration.data h
  unfold nextGeneration
  split
  case isTrue hfu => exact tagged_map_wipePair hf.generation (hd hfu) (hk h hh)
  case isFalse hr => exact hk h hh

lemma valid_foldl_insert {ke : List K} (hf : f.Valid) : (ke.foldl (insert hash) f).Valid ∧
      (ke.foldl (insert hash) f).nEntriesPerGeneration=f.nEntriesPerGeneration := by
  induction ke generalizing f with
  | nil => exact ⟨hf,rfl⟩
  | cons k ke ih =>
    obtain ⟨hv,hp⟩ := ih (valid_insert hf)
    exact ⟨hv,hp.trans perGeneration_next⟩

/-- The generation of a key and the insertions after it fill no more than three generations. -/
lemma foldl_insert_contains {p : List K} (hf : f.Valid) (ho : 1≤f.nEntriesThisGeneration)
    (hk : f.Remembers hash d k)
    (hr : f.nEntriesPerGeneration=0 ∨
      d*f.nEntriesPerGeneration+f.nEntriesThisGeneration+p.length≤3*f.nEntriesPerGeneration) :
    (p.foldl (insert hash) f).contains hash k := by
  induction p generalizing f d with
  | nil => exact contains_of_remembers hk
  | cons k0 p ih =>
    have hp : (f.insert hash k0).nEntriesPerGeneration=f.nEntriesPerGeneration := perGeneration_next
    rw [List.length_cons] at hr
    by_cases hfu : f.nEntriesThisGeneration=f.nEntriesPerGeneration
    · have hs : (d+1)*f.nEntriesPerGeneration+1+p.length≤3*f.nEntriesPerGeneration := by
        rw [Nat.succ_mul]
        omega
      have hd : d+1<3 := Nat.lt_of_mul_lt_mul_right (a := f.nEntriesPerGeneration) (by omega)
      have he : (f.insert hash k0).nEntriesThisGeneration=1 := by
        simp only [insert,nextGeneration,if_pos hfu]
      refine ih (valid_insert hf) he.ge (insert_remembers hf hk fun _ => by omega) (.inr ?_)
      rwa [if_pos hfu,hp,he]
    · have he : (f.insert hash k0).nEntriesThisGeneration=f.nEntriesThisGeneration+1 := by
        simp only [insert,nextGeneration,if_neg hfu]
      refine ih (valid_insert hf) (by omega) (insert_remembers hf hk fun h => absurd h hfu) ?_
      rw [if_neg hfu,hp]
      omega

/-- The filter contains each of the last nElements keys. -/
theorem contains_lastInserted (hash : BitVec 32 → K → BitVec 32) (nElements nTweak : BitVec 32)
    (nHashFuncs pairs : Nat) (hpos : 0<pairs) (keys : List K) (k : K)
    (hk : k∈keys.drop (keys.length-nElements.toNat)) :
    (keys.foldl (insert hash) (new nElements nHashFuncs pairs nTweak)).contains hash k=
      true := by
  obtain ⟨pr,p,hs⟩ := List.append_of_mem hk
  have hke : keys=(keys.take (keys.length-nElements.toNat)++pr)++k::p := by
    rw [List.append_assoc,←hs,List.take_append_drop]
  have hl : p.length<nElements.toNat := by
    have hd := congrArg List.length hs
    simp only [List.length_drop,List.length_append,List.length_cons] at hd
    omega
  generalize keys.take (keys.length-nElements.toNat)++pr=before at hke
  rw [hke,List.foldl_append,List.foldl_cons]
  obtain ⟨hf,hp⟩ : (before.foldl (insert hash) (new nElements nHashFuncs pairs nTweak)).Valid ∧
      _=(new nElements nHashFuncs pairs nTweak).nEntriesPerGeneration :=
    valid_foldl_insert (valid_new hpos)
  generalize before.foldl (insert hash) (new nElements nHashFuncs pairs nTweak)=f at hf hp ⊢
  have hi : (f.insert hash k).Valid := valid_insert hf
  have hn : (f.insert hash k).nEntriesPerGeneration=(nElements.toNat+1)%2^32/2 := by
    refine (perGeneration_next.trans hp).trans ?_
    simp [new,toNat_add]
  refine foldl_insert_contains hi (Nat.le_add_left 1 _) (insert_self hf) ?_
  have he := hi.entries
  omega

theorem contains_lastInserted_two : ([1,2,3,4,5].foldl
    (insert fun seed k => seed+k) (new 2 3 4 7)).contains (fun seed k => seed+k) (4 : BitVec 32) :=
  contains_lastInserted _ 2 7 3 4 (by decide) [1,2,3,4,5] 4 (by decide)
end CRollingBloomFilter
end Xero
