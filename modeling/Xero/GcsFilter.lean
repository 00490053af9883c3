import Xero.BitStream

/-! Compact filters: the sorted hashes of a set of elements, as Golomb-Rice coded differences. -/
namespace Xero
open Library List Nat
variable {rest : List Bool} {hashes : List Nat}

/-- FastRange64, with 128-bit numbers. -/
def fastRange64 (x n : Nat) : Nat := (x*n) >>> 64

/- The variant for platforms without them. -/
def fastRange64Pieces (x n : UInt64) : UInt64 :=
  let x_hi := x >>> 32
  let x_lo := x &&& 0xFFFFFFFF
  let n_hi := n >>> 32
  let n_lo := n &&& 0xFFFFFFFF
  let ac := x_hi*n_hi
  let ad := x_hi*n_lo
  let bc := x_lo*n_hi
  let bd := x_lo*n_lo
  let mid34 := bd >>> 32+(bc &&& 0xFFFFFFFF)+(ad &&& 0xFFFFFFFF)
  ac+bc >>> 32+ad >>> 32+mid34 >>> 32

lemma toNat_hi (x : UInt64) : (x >>> 32).toNat=x.toNat/2^32 := by
  rw [UInt64.toNat_shiftRight,Nat.shiftRight_eq_div_pow]
  rfl

lemma toNat_lo (x : UInt64) : (x &&& 0xFFFFFFFF).toNat=x.toNat%2^32 := by
  rw [UInt64.toNat_and]
  exact Nat.and_two_pow_sub_one_eq_mod x.toNat 32

/- A product of two halves fits into 64 bits. -/
lemma toNat_mul_halves {a b : UInt64} (ha : a.toNat<2^32) (hb : b.toNat<2^32) :
    (a*b).toNat=a.toNat*b.toNat ∧ a.toNat*b.toNat≤(2^32-1)*(2^32-1) := by
  have hle := Nat.mul_le_mul (show a.toNat≤2^32-1 by omega) (show b.toNat≤2^32-1 by omega)
  rw [UInt64.toNat_mul]
  exact ⟨Nat.mod_eq_of_lt (by omega),hle⟩

/-- The two variants agree for all 64-bit numbers: no partial sum of the pieces wraps around. -/
theorem fastRange64Pieces_eq (x n : UInt64) :
    (fastRange64Pieces x n).toNat=fastRange64 x.toNat n.toNat := by
  have hx := div_add_mod x.toNat (2^32)
  have hn := div_add_mod n.toNat (2^32)
  have hxhi : (x >>> 32).toNat<2^32 := by
    have := x.toNat_lt
    rw [toNat_hi]
    omega
  have hnhi : (n >>> 32).toNat<2^32 := by
    have := n.toNat_lt
    rw [toNat_hi]
    omega
  have hxlo : (x &&& 0xFFFFFFFF).toNat<2^32 := toNat_lo x ▸ Nat.mod_lt _ (by decide)
  have hnlo : (n &&& 0xFFFFFFFF).toNat<2^32 := toNat_lo n ▸ Nat.mod_lt _ (by decide)
  have hp : x.toNat*n.toNat=2^64*((x >>> 32).toNat*(n >>> 32).toNat)+
      2^32*((x >>> 32).toNat*(n &&& 0xFFFFFFFF).toNat)+
      2^32*((x &&& 0xFFFFFFFF).toNat*(n >>> 32).toNat)+
      (x &&& 0xFFFFFFFF).toNat*(n &&& 0xFFFFFFFF).toNat := by
    rw [toNat_hi,toNat_hi,toNat_lo,toNat_lo]
    generalize x.toNat/2^32=x_hi at *
    generalize x.toNat%2^32=x_lo at *
    generalize n.toNat/2^32=n_hi at *
    generalize n.toNat%2^32=n_lo at *
    rw [← hx,← hn]
    ring
  obtain ⟨hac,hac_le⟩ := toNat_mul_halves hxhi hnhi
  obtain ⟨had,had_le⟩ := toNat_mul_halves hxhi hnlo
  obtain ⟨hbc,hbc_le⟩ := toNat_mul_halves hxlo hnhi
  obtain ⟨hbd,hbd_le⟩ := toNat_mul_halves hxlo hnlo
  rw [fastRange64,hp,Nat.shiftRight_eq_div_pow,← hac,← had,← hbc,← hbd]
  rw [← hac] at hac_le
  rw [← had] at had_le
  rw [← hbc] at hbc_le
  rw [← hbd] at hbd_le
  unfold fastRange64Pieces
  dsimp only
  generalize x >>> 32*n >>> 32=ac at *
  generalize x >>> 32*(n &&& 0xFFFFFFFF)=ad at *
  generalize (x &&& (0xFFFFFFFF : UInt64))*n >>> 32=bc at *
  generalize (x &&& (0xFFFFFFFF : UInt64))*(n &&& 0xFFFFFFFF)=bd at *
  simp only [toNat_hi,toNat_lo,UInt64.toNat_add]
  omega

lemma fastRange64_lt {x n : Nat} (hx : x<2^64) (hn : 0<n) : fastRange64 x n<n := by
  rw [fastRange64,Nat.shiftRight_eq_div_pow,Nat.div_lt_iff_lt_mul (Nat.two_pow_pos _),
      Nat.mul_comm n]
  exact Nat.mul_lt_mul_of_pos_right hx hn

namespace GcsFilter
structure Params where
  m_siphash_k0 : UInt64 := 0
  m_siphash_k1 : UInt64 := 0
  m_P : UInt8 := 0
  m_M : UInt32 := 1
  deriving DecidableEq

/-- CSipHasher with its two keys. It is left arbitrary. -/
abbrev SipHash := UInt64 → UInt64 → Bytes → UInt64
end GcsFilter

structure GcsFilter where
  m_params : GcsFilter.Params
  m_N : Nat
  m_F : Nat
  m_encoded : Bytes
  deriving DecidableEq

namespace GcsFilter
section
variable (sipHash : SipHash) (f : GcsFilter)

def hashToRange (element : Bytes) : Nat :=
  fastRange64 (sipHash f.m_params.m_siphash_k0 f.m_params.m_siphash_k1 element).toNat f.m_F

/-- BuildHashedSet. The elements of a set are listed in the order of its iterator. -/
def buildHashedSet (elements : List Bytes) : List Nat :=
  (elements.map (hashToRange sipHash f)).mergeSort fun a b => a≤b

def encodeValues (P : Nat) : List Nat → Nat → BitStreamWriter → Except String BitStreamWriter
  | [], _, bitwriter => .ok bitwriter
  | value::values, last_value, bitwriter => do
    let delta := (value+(2^64-last_value))%2^64
    let bitwriter ← bitwriter.golombRiceEncode P delta
    encodeValues P values value bitwriter

def sized (params : Params) (N : Nat) (m_encoded : Bytes) : GcsFilter where
  m_params := params
  m_N := N%2^32
  m_F := N%2^32*params.m_M.toNat
  m_encoded := m_encoded

lemma offset_zero : 0<8 := by decide

def ofElements (params : Params) (elements : List Bytes) : Except String GcsFilter := do
  let f := sized params elements.length []
  rejectIf (decide (f.m_N≠elements.length)) "N must be <2^32"
  let stream := writeCompactSize f.m_N
  if elements.isEmpty then pure {f with m_encoded := stream}
  else do
    let bitwriter ← encodeValues params.m_P.toNat (buildHashedSet sipHash f elements) 0
        {m_ostream := stream, offset_lt := offset_zero}
    pure {f with m_encoded := bitwriter.flush.m_ostream}

def decodeCodes (P : Nat) : Nat → BitStreamReader → Except String BitStreamReader
  | 0, bitreader => .ok bitreader
  | n+1, bitreader => do
    let (_,bitreader) ← bitreader.golombRiceDecode P
    decodeCodes P n bitreader

def ofEncoded (params : Params) (encoded_filter : Bytes) (skip_decode_check : Bool) :
    Except String GcsFilter := do
  let (N,stream) ← readCompactSize true encoded_filter
  let f := sized params N encoded_filter
  rejectIf (decide (f.m_N≠N)) "N must be <2^32"
  if skip_decode_check then pure f
  else do
    let bitreader ← decodeCodes params.m_P.toNat f.m_N {m_istream := stream}
    rejectIf (!bitreader.m_istream.isEmpty) "encoded_filter contains excess data"
    pure f

/- The inner loop of MatchInternal: an answer, or the hashes that are not below the value. -/
def skipBelow (value : Nat) : List Nat → Bool ⊕ List Nat
  | [] => .inl false
  | hash::hashes =>
    if hash=value then .inl true
    else if value<hash then .inr (hash::hashes)
    else skipBelow value hashes

def matchFrom (P : Nat) : Nat → Nat → BitStreamReader → List Nat → Except String Bool
  | 0, _, _, _ => .ok false
  | n+1, value, bitreader, hashes => do
    let (delta,bitreader) ← bitreader.golombRiceDecode P
    let value := (value+delta)%2^64
    match skipBelow value hashes with
    | .inl answer => pure answer
    | .inr hashes => matchFrom P n value bitreader hashes

def matchInternal (element_hashes : List Nat) : Except String Bool := do
  let (N,stream) ← readCompactSize true f.m_encoded
  rejectIf (decide (N≠f.m_N)) "N == m_N"
  matchFrom f.m_params.m_P.toNat f.m_N 0 {m_istream := stream} element_hashes
def matchElement (element : Bytes) : Except String Bool :=
  matchInternal f [hashToRange sipHash f element]
def matchAny (elements : List Bytes) : Except String Bool :=
  matchInternal f (buildHashedSet sipHash f elements)
end

/- The codes of the differences of the values. -/
def valueCodes (P : Nat) : List Nat → Nat → List Bool
  | [], _ => []
  | value::values, last => golombRiceCode P (value-last)++valueCodes P values value

section
variable {P : Nat}

def Ascending (last : Nat) (values : List Nat) : Prop :=
  (last::values).Pairwise (· ≤ ·) ∧ ∀ v∈values, v<2^64

variable {vals : List Nat} {last : Nat}

lemma Ascending.head {v : Nat} (h : Ascending last (v::vals)) : last≤v ∧ v<2^64 ∧
    Ascending v vals :=
  ⟨rel_of_pairwise_cons h.1 mem_cons_self,h.2 v mem_cons_self,
    (pairwise_cons.mp h.1).2,fun w hw => h.2 w (mem_cons_of_mem _ hw)⟩

lemma encodeValues_spec (hP : P≤64) (hv : Ascending last vals)
    {w : BitStreamWriter} {wr : List Bool} (h : w.Holds wr) :
    ∃ w', encodeValues P vals last w=.ok w' ∧ w'.Holds (wr++valueCodes P vals last) := by
  induction vals generalizing last w wr with
  | nil => exact ⟨w,rfl,by rwa [valueCodes,append_nil]⟩
  | cons v vals ih =>
    obtain ⟨_,_,hr⟩ := hv.head
    have hd : (v+(2^64-last))%2^64=v-last := by omega
    obtain ⟨_,hw,h1⟩ := h.golombRiceEncode hP (v-last)
    obtain ⟨w2,hm,h2⟩ := ih hr h1
    refine ⟨w2,?_,?_⟩
    · simp only [encodeValues,hd,hw,hm,ok_bind]
    · rwa [append_assoc] at h2

lemma decodeCodes_spec (hP : P≤64) (hv : Ascending last vals)
    {r : BitStreamReader} (h : r.remaining=valueCodes P vals last++rest) :
    ∃ r', decodeCodes P vals.length r=.ok r' ∧ r'.remaining=rest := by
  induction vals generalizing last r with
  | nil => exact ⟨r,rfl,h⟩
  | cons v vals ih =>
    obtain ⟨_,_,hr⟩ := hv.head
    rw [valueCodes,append_assoc] at h
    obtain ⟨_,hre,h1⟩ := BitStreamReader.golombRiceDecode_spec hP (by omega) h
    obtain ⟨r2,hm,h2⟩ := ih hr h1
    refine ⟨r2,?_,h2⟩
    simp [decodeCodes,hre,hm,ok_bind]

lemma skipBelow_spec (v : Nat) (h : hashes.Pairwise (· ≤ ·)) :
    (v∈hashes ∧ skipBelow v hashes=.inl true) ∨
    ((∀ x∈hashes, x<v) ∧ skipBelow v hashes=.inl false) ∨
    ∃ rest, skipBelow v hashes=.inr rest ∧ rest.Pairwise (· ≤ ·) ∧ v∉hashes ∧
      ∀ x, v≤x → (x∈rest ↔ x∈hashes) := by
  induction hashes with
  | nil => exact .inr (.inl ⟨fun x hx => absurd hx not_mem_nil,rfl⟩)
  | cons hash hashes ih =>
    obtain ⟨hf,hsr⟩ := pairwise_cons.mp h
    rw [skipBelow]
    by_cases he : hash=v
    · rw [if_pos he]
      exact .inl ⟨he ▸ mem_cons_self,rfl⟩
    rw [if_neg he]
    by_cases hg : v<hash
    · rw [if_pos hg]
      refine .inr (.inr ⟨_,rfl,h,fun hm => ?_,fun x _ => Iff.rfl⟩)
      obtain rfl | hm := mem_cons.mp hm
      · omega
      · have hl := hf v hm
        omega
    rw [if_neg hg]
    obtain ⟨hm,hs⟩ | ⟨ha,hs⟩ | ⟨rest,hs,hr,hn,hi⟩ := ih hsr
    · exact .inl ⟨mem_cons_of_mem _ hm,hs⟩
    · exact .inr (.inl ⟨forall_mem_cons.mpr ⟨by omega,ha⟩,hs⟩)
    · refine .inr (.inr ⟨rest,hs,hr,fun hm => ?_,fun x hx => ?_⟩)
      · obtain rfl | hm := mem_cons.mp hm
        · omega
        · exact hn hm
      · rw [hi x hx,mem_cons]
        exact ⟨.inr,fun hm => hm.resolve_left (by omega)⟩

lemma matchFrom_spec (hP : P≤64) (hv : Ascending last vals) {r : BitStreamReader}
    (h : r.remaining=valueCodes P vals last++rest) (hh : hashes.Pairwise (· ≤ ·)) :
    ∃ b, matchFrom P vals.length last r hashes=.ok b ∧ (b ↔ ∃ v∈vals, v∈hashes) := by
  induction vals generalizing last r hashes with
  | nil => exact ⟨false,rfl,by simp⟩
  | cons v vals ih =>
    obtain ⟨_,_,hn⟩ := hv.head
    rw [valueCodes,append_assoc] at h
    obtain ⟨r1,hr,h1⟩ := BitStreamReader.golombRiceDecode_spec hP (by omega) h
    have hvl : (last+(v-last))%2^64=v := by omega
    have hl : ∀ w∈vals, v≤w := fun w hw => rel_of_pairwise_cons hn.1 hw
    have hst : matchFrom P (v::vals).length last r hashes= match skipBelow v hashes with
        | .inl answer => pure answer
        | .inr hashes => matchFrom P vals.length v r1 hashes := by
      simp only [length_cons,matchFrom,hr,ok_bind,hvl]
    rw [hst]
    obtain ⟨hm,hs⟩ | ⟨ha,hs⟩ | ⟨_,hs,hsr,hnt,hi⟩ := skipBelow_spec v hh
    · rw [hs]
      exact ⟨true,rfl,by simpa using .inl hm⟩
    · rw [hs]
      refine ⟨false,rfl,?_⟩
      have hno : ¬∃ w∈v::vals, w∈hashes := by
        intro ⟨w,hw,hm⟩
        have hbl := ha w hm
        obtain rfl | hw := mem_cons.mp hw
        · omega
        · have hab := hl w hw
          omega
      exact iff_of_false Bool.false_ne_true hno
    · rw [hs]
      obtain ⟨b,hru,hb⟩ := ih hn h1 hsr
      refine ⟨b,hru,hb.trans ⟨fun ⟨w,hw,hm⟩ => ?_,fun ⟨w,hw,hm⟩ => ?_⟩⟩
      · exact ⟨w,mem_cons_of_mem _ hw,(hi w (hl w hw)).mp hm⟩
      · obtain rfl | hw := mem_cons.mp hw
        · exact absurd hm hnt
        · exact ⟨w,hw,(hi w (hl w hw)).mpr hm⟩
end

lemma toBits_byte_inj {a b : UInt8} (h : toBits 8 a.toNat=toBits 8 b.toNat) : a=b := by
  have hm := mod_eq_of_toBits h
  rw [mod_eq_of_lt a.toNat_lt,mod_eq_of_lt b.toNat_lt] at hm
  exact UInt8.toNat_inj.mp hm

lemma byteBits_append_inj {all s : Bytes}
    (h : byteBits all=byteBits s++rest) : ∃ bytes, all=s++bytes ∧ byteBits bytes=rest := by
  induction s generalizing all with
  | nil => exact ⟨all,rfl,h⟩
  | cons b s ih =>
    cases all with
    | nil =>
      have hl := congrArg length h
      simp [byteBits] at hl
      omega
    | cons a all =>
      simp only [byteBits,flatMap_cons,append_assoc] at h
      obtain ⟨hb,ht⟩ := append_inj h (by rw [length_toBits,length_toBits])
      obtain ⟨bytes,ha,hr⟩ := ih ht
      exact ⟨bytes,by rw [toBits_byte_inj hb,ha,cons_append],hr⟩

section
variable (sipHash : SipHash) (params : Params) {elements : List Bytes}

lemma mem_buildHashedSet {f : GcsFilter} {v : Nat} :
    v∈buildHashedSet sipHash f elements ↔ ∃ e∈elements, hashToRange sipHash f e=v := by
  rw [buildHashedSet,(mergeSort_perm _ _).mem_iff,mem_map]

lemma buildHashedSet_sorted (f : GcsFilter) (elements : List Bytes) :
    (buildHashedSet sipHash f elements).Pairwise (· ≤ ·) := by
  have hs : (buildHashedSet sipHash f elements).Pairwise fun a b => decide (a≤b) :=
    pairwise_mergeSort (fun a b c ha hb => by simp only [decide_eq_true_eq] at *; omega)
      (fun a b => by simp only [Bool.or_eq_true,decide_eq_true_eq]; omega) _
  exact hs.imp fun ha => of_decide_eq_true ha

lemma length_buildHashedSet (f : GcsFilter) (elements : List Bytes) :
    (buildHashedSet sipHash f elements).length=elements.length := by
  rw [buildHashedSet,length_mergeSort,length_map]

/-- What the constructor makes of a set: the number of elements and the codes of their hashes. -/
structure Encodes (elements : List Bytes) (f : GcsFilter) (packed : Bytes)
    (padding : List Bool) : Prop where
  sized : f=sized params elements.length (writeCompactSize elements.length++packed)
  count : f.m_N=elements.length
  codes : byteBits packed=
    valueCodes params.m_P.toNat (buildHashedSet sipHash f elements) 0++padding
  padding : padding.length<8

variable {sipHash params}

lemma ascending_buildHashedSet {bytes : Bytes} (q : List Bytes) :
    Ascending 0 (buildHashedSet sipHash (sized params elements.length bytes) q) := by
  refine ⟨pairwise_cons.mpr ⟨fun v _ => zero_le v,buildHashedSet_sorted ..⟩,fun v hv => ?_⟩
  obtain ⟨e,-,rfl⟩ := (mem_buildHashedSet sipHash).mp hv
  have hM := params.m_M.toNat_lt
  have hr : elements.length%2^32*params.m_M.toNat<2^64 := by
    have hm : elements.length%2^32*params.m_M.toNat≤(2^32-1)*(2^32-1) :=
      Nat.mul_le_mul (by omega) (by omega)
    omega
  have hh := (sipHash params.m_siphash_k0 params.m_siphash_k1 e).toNat_lt
  show fastRange64 _ (elements.length%2^32*params.m_M.toNat)<2^64
  obtain hz | hp := Nat.eq_zero_or_pos (elements.length%2^32*params.m_M.toNat)
  · rw [hz,fastRange64,Nat.mul_zero]
    decide
  · exact (fastRange64_lt hh hp).trans hr

lemma ofElements_spec (hP : params.m_P.toNat≤64) (h : elements.length<2^32) :
    ∃ f packed padding, ofElements sipHash params elements=.ok f ∧
      Encodes sipHash params elements f packed padding := by
  have hN : elements.length%2^32=elements.length := mod_eq_of_lt h
  have hs : (GcsFilter.sized params elements.length []).m_N=elements.length := hN
  unfold ofElements
  simp only [rejectIf,hs,pure_ok]
  cases elements with
  | nil => exact ⟨_,[],[],rfl,rfl,rfl,by simp [buildHashedSet,valueCodes,byteBits],by decide⟩
  | cons e elements =>
    obtain ⟨w,he,hh⟩ := encodeValues_spec hP (ascending_buildHashedSet (e::elements))
      (BitStreamWriter.holds_new (writeCompactSize (e::elements).length))
    obtain ⟨padding,hp,hb⟩ := hh.flush
    rw [append_assoc] at hb
    obtain ⟨packed,hpa,hc⟩ := byteBits_append_inj hb
    rw [if_neg (by simp),he]
    refine ⟨_,packed,padding,rfl,?_,rfl,hc,hp⟩
    simp only [hpa,GcsFilter.sized,hN]

/-- A size above MAX_SIZE is refused when it is read back. -/
lemma readCompactSize_large {N : Nat} (h : MAX_SIZE<N) (hN : N<2^64) (rest : Bytes) :
    readCompactSize true (writeCompactSize N++rest)=.error "ReadCompactSize(): size too large" := by
  have hr := (codec_readCompactSize false).reads N rest ⟨hN,fun hfl => by cases hfl⟩
  unfold readCompactSize at hr ⊢
  obtain ⟨n,_,hf,hl⟩ := reader_bind_eq_ok.mp hr
  cases hl
  rw [reader_bind_of_ok hf]
  simp only [Bool.true_and,decide_eq_true h,if_true]
  rfl

section
variable {els : List Bytes} {f : GcsFilter} {packed : Bytes} {padding : List Bool}
section
variable (h : Encodes sipHash params els f packed padding)
include h

lemma Encodes.encoded : f.m_encoded=writeCompactSize els.length++packed := by
  rw [h.sized]
  rfl

lemma Encodes.remaining : BitStreamReader.remaining {m_istream := packed}=
      valueCodes params.m_P.toNat (buildHashedSet sipHash f els) 0++padding := h.codes

lemma Encodes.matchInternal (hP : params.m_P.toNat≤64) (hs : els.length≤MAX_SIZE)
    (hh : hashes.Pairwise (· ≤ ·)) :
    ∃ b, matchInternal f hashes=.ok b ∧
      (b ↔ ∃ e∈els, hashToRange sipHash f e∈hashes) := by
  have ha : Ascending 0 (buildHashedSet sipHash f els) := by
    rw [h.sized]
    exact ascending_buildHashedSet els
  obtain ⟨b,hr,hb⟩ := matchFrom_spec hP ha h.remaining hh
  rw [length_buildHashedSet] at hr
  have hp : f.m_params=params := by rw [h.sized]; rfl
  have hc : decide (els.length≠f.m_N)=false := decide_eq_false (not_not.mpr h.count.symm)
  refine ⟨b,?_,hb.trans ?_⟩
  · unfold GcsFilter.matchInternal
    rw [h.encoded,codec_readSize.reads _ _ hs]
    simp only [rejectIf,hc,if_neg Bool.false_ne_true,ok_bind,hp]
    rw [h.count]
    exact hr
  · constructor
    · rintro ⟨v,hv,hm⟩
      obtain ⟨e,he,rfl⟩ := (mem_buildHashedSet sipHash).mp hv
      exact ⟨e,he,hm⟩
    · rintro ⟨e,he,hm⟩
      exact ⟨_,(mem_buildHashedSet sipHash).mpr ⟨e,he,rfl⟩,hm⟩

lemma Encodes.ofEncoded (hP : params.m_P.toNat≤64) (hs : els.length≤MAX_SIZE) (s : Bool) :
    ofEncoded params f.m_encoded s=.ok f := by
  have hsm : els.length<2^32 := by unfold MAX_SIZE at hs; omega
  have ha : Ascending 0 (buildHashedSet sipHash f els) := by
    rw [h.sized]
    exact ascending_buildHashedSet els
  obtain ⟨r,hd,hr⟩ := decodeCodes_spec hP ha h.remaining
  rw [length_buildHashedSet] at hd
  have he : r.m_istream=[] := by
    have hp := h.padding
    cases hst : r.m_istream with
    | nil => rfl
    | cons b bt =>
      rw [← hr] at hp
      simp [BitStreamReader.remaining,byteBits,hst] at hp
      omega
  have hc : (GcsFilter.sized params els.length f.m_encoded).m_N=els.length := mod_eq_of_lt hsm
  have hsa : GcsFilter.sized params els.length f.m_encoded=f := by
    conv_rhs => rw [h.sized]
    rw [h.encoded]
  have hre : readCompactSize true f.m_encoded=.ok (els.length,packed) := by
    rw [h.encoded]
    exact codec_readSize.reads _ _ hs
  rw [hsa] at hc
  unfold GcsFilter.ofEncoded
  simp only [hre,hsa,ok_bind,pure_ok]
  cases s with
  | true => simp [rejectIf,hc]
  | false => simp [rejectIf,hc,hd,he]

lemma Encodes.matchInternal_large (hs : MAX_SIZE<els.length) (hN : els.length<2^32)
    (hashes : List Nat) :
    GcsFilter.matchInternal f hashes=.error "ReadCompactSize(): size too large" := by
  unfold GcsFilter.matchInternal
  rw [h.encoded,readCompactSize_large hs (by omega)]
  rfl
end
end

variable (sipHash params) in
/-- The filter matches every element, its encoding gives it back, and a set is matched exactly if one
of its elements is. -/
structure Answers (elements : List Bytes) (f : GcsFilter) : Prop where
  element : ∀ e∈elements, matchElement sipHash f e=.ok true
  decoded : ∀ skip, ofEncoded params f.m_encoded skip=.ok f
  any : ∀ query, ∃ b, matchAny sipHash f query=.ok b ∧
    (b ↔ ∃ e∈query, matchElement sipHash f e=.ok true)

lemma Encodes.answers {f : GcsFilter} {packed : Bytes} {padding : List Bool}
    (h : Encodes sipHash params elements f packed padding) (hP : params.m_P.toNat≤64)
    (hs : elements.length≤MAX_SIZE) : Answers sipHash params elements f := by
  have hma : ∀ e, ∃ b, matchElement sipHash f e=.ok b ∧
      (b ↔ ∃ e'∈elements, hashToRange sipHash f e'=hashToRange sipHash f e) := by
    intro e
    obtain ⟨b,hb,hi⟩ := h.matchInternal hP hs (pairwise_singleton _ _)
    refine ⟨b,hb,hi.trans ?_⟩
    simp
  have hm : ∀ e, matchElement sipHash f e=.ok true ↔
      ∃ e'∈elements, hashToRange sipHash f e'=hashToRange sipHash f e := by
    intro e
    obtain ⟨b,hb,hi⟩ := hma e
    rw [hb,← hi]
    exact ⟨fun heq => by cases heq; rfl,fun heq => by rw [heq]⟩
  refine ⟨fun e he => (hm e).mpr ⟨e,he,rfl⟩,h.ofEncoded hP hs,fun query => ?_⟩
  obtain ⟨b,hb,hi⟩ := h.matchInternal hP hs (buildHashedSet_sorted sipHash f query)
  refine ⟨b,hb,hi.trans ?_⟩
  simp only [hm,mem_buildHashedSet]
  constructor
  · rintro ⟨e,he,e',he',heq⟩
    exact ⟨e',he',e,he,heq.symm⟩
  · rintro ⟨e',he',e,he,heq⟩
    exact ⟨e,he,e',he',heq.symm⟩

variable (sipHash params) in
/-- The filter of a set answers as it should exactly if the set has at most MAX_SIZE elements. -/
theorem ofElements_answers_iff (hP : params.m_P.toNat≤32) (elements : List Bytes)
    (h : elements.length<2^32) :
    ∃ f, ofElements sipHash params elements=.ok f ∧
      (Answers sipHash params elements f ↔ elements.length≤MAX_SIZE) := by
  have hw : params.m_P.toNat≤64 := by omega
  obtain ⟨f,packed,padding,hf,he⟩ := ofElements_spec hw h
  refine ⟨f,hf,fun ha => ?_,he.answers hw⟩
  by_contra hl
  obtain ⟨b,hb,-⟩ := ha.any []
  have ht := he.matchInternal_large (by omega) h (buildHashedSet sipHash f [])
  rw [matchAny,ht] at hb
  cases hb

theorem ofElements_answers_pair : (19 : UInt8).toNat≤32 ∧ ([[1],[2]] : List Bytes).length<2^32 ∧
    ∃ f, ofElements (fun _ _ e => UInt64.ofNat (ofLittleEndian e)) {m_P := 19, m_M := 784931}
        [[1],[2]]=.ok f ∧
      (Answers (fun _ _ e => UInt64.ofNat (ofLittleEndian e)) {m_P := 19, m_M := 784931}
        [[1],[2]] f ↔ ([[1],[2]] : List Bytes).length≤MAX_SIZE) :=
  ⟨by decide,by decide,ofElements_answers_iff _ _ (by decide) _ (by decide)⟩

def largeSet : List Bytes := (range (MAX_SIZE+1)).map (toLittleEndian 4)

lemma length_largeSet : largeSet.length=MAX_SIZE+1 := by
  rw [largeSet,length_map,length_range]

lemma nodup_largeSet : largeSet.Nodup := by
  refine nodup_range.map_on fun a ha b hb he => ?_
  have hl : ∀ n∈range (MAX_SIZE+1), n<256^4 := by
    intro n hn
    have hn' := mem_range.mp hn
    unfold MAX_SIZE at hn'
    omega
  rw [← ofLittleEndian_toLittleEndian 4 a (hl a ha),he,ofLittleEndian_toLittleEndian 4 b (hl b hb)]

/-- The filter of such a set is built, but it cannot be asked or decoded. -/
theorem largeSet_unanswered : largeSet.Nodup ∧ largeSet.length<2^32 ∧
    ∀ sipHash : SipHash, ∃ f, ofElements sipHash {m_P := 19, m_M := 784931} largeSet=.ok f ∧
      (∀ e, matchElement sipHash f e=.error "ReadCompactSize(): size too large") ∧
      ¬Answers sipHash {m_P := 19, m_M := 784931} largeSet f := by
  have hl : MAX_SIZE<largeSet.length := by
    rw [length_largeSet]
    exact Nat.lt_succ_self _
  have hN : largeSet.length<2^32 := by
    rw [length_largeSet]
    decide
  refine ⟨nodup_largeSet,hN,fun sipHash => ?_⟩
  obtain ⟨f,_,_,hf,he⟩ :=
    ofElements_spec (by decide : ({m_P := 19, m_M := 784931} : Params).m_P.toNat≤64) hN
  refine ⟨f,hf,fun e => he.matchInternal_large hl hN _,fun ha => ?_⟩
  obtain ⟨b,hb,-⟩ := ha.any []
  rw [matchAny,he.matchInternal_large hl hN] at hb
  cases hb
end
end GcsFilter
end Xero
