import Mathlib.Data.List.Basic
import Mathlib.Data.Nat.Bitwise

/-! DescriptorChecksum: the symbols of a descriptor go through a shift register of 40 bits that is
linear and that no symbol makes forget its state. -/
namespace Xero
open List
open BitVec (toNat_xor toNat_shiftLeft toNat_and eq_of_toNat_eq xor_zero)

def polyMod (c val : BitVec 64) : BitVec 64 :=
  let c0 := (c >>> 35).setWidth 8
  let c := ((c &&& 0x7ffffffff) <<< 5)^^^val
  let c := if c0.getLsbD 0 then c^^^0xf5dee51989 else c
  let c := if c0.getLsbD 1 then c^^^0xa9fdca3312 else c
  let c := if c0.getLsbD 2 then c^^^0x1bab10e32d else c
  let c := if c0.getLsbD 3 then c^^^0x3706b1677a else c
  if c0.getLsbD 4 then c^^^0x644d626ffd else c

def INPUT_CHARSET : List Char :=
  ("0123456789()[],'/*abcdefgh@:$%\x7b\x7d"++"IJKLMNOPQRSTUVWXYZ&+-.;<=>?!^_|~"++
    "ijklmnopqrstuvwxyzABCDEFGH`#\"\\ ").toList
def CHECKSUM_CHARSET : List Char := "qpzry9x8gf2tvdw0s3jn54khce6mua7l".toList

/- pos & 31 and pos >> 5 for the position that find returns. -/
def low (ch : Char) : Nat := INPUT_CHARSET.idxOf ch &&& 31
def high (ch : Char) : Nat := INPUT_CHARSET.idxOf ch >>> 5

structure ChecksumState where
  c : BitVec 64 := 1
  cls : Nat := 0
  clscount : Nat := 0

namespace ChecksumState
/- The loop's turn for a character of the set. -/
def emit (s : ChecksumState) (ch : Char) : ChecksumState :=
  let c := polyMod s.c (.ofNat 64 (low ch))
  let cls := s.cls*3+high ch
  if s.clscount+1=3 then {c := polyMod c (.ofNat 64 cls)} else ⟨c,cls,s.clscount+1⟩

/- The register after the symbol of a partial group. -/
def flush (s : ChecksumState) : BitVec 64 :=
  if s.clscount>0 then polyMod s.c (.ofNat 64 s.cls) else s.c

def checksum (c : BitVec 64) : List Char :=
  let c := (range 8).foldl (fun c _ => polyMod c 0) c^^^1
  (range 8).map fun j => CHECKSUM_CHARSET.getD ((c >>> (5*(7-j))) &&& 31).toNat ' '
end ChecksumState

def descriptorChecksum (span : List Char) : List Char :=
  if span.all INPUT_CHARSET.contains then ChecksumState.checksum
      (span.foldl ChecksumState.emit {}).flush else []

/-- What the five conditions add. -/
def taps (c : BitVec 64) : BitVec 64 :=
  (if c.getLsbD 35 then 0xf5dee51989 else 0)^^^(if c.getLsbD 36 then 0xa9fdca3312 else 0)^^^
    (if c.getLsbD 37 then 0x1bab10e32d else 0)^^^(if c.getLsbD 38 then 0x3706b1677a else 0)^^^
    if c.getLsbD 39 then 0x644d626ffd else 0

variable (a b c d u v : BitVec 64)

lemma polyMod_eq : polyMod c v=((c &&& 0x7ffffffff) <<< 5)^^^v^^^taps c := by
  have hi (p : Bool) (x g : BitVec 64) : (if p then x^^^g else x)=x^^^if p then g else 0 := by
    cases p <;> simp
  simp only [polyMod,hi,taps]
  simp [BitVec.xor_assoc]

lemma polyMod_xor : polyMod (a^^^b) (u^^^v)=polyMod a u^^^polyMod b v := by
  have hif (p q : Bool) (g : BitVec 64) :
      (if p^^q then g else 0)=(if p then g else 0)^^^if q then g else 0 := by
    cases p <;> cases q <;> simp
  have ha : (a^^^b) &&& 0x7ffffffff=(a &&& 0x7ffffffff)^^^(b &&& 0x7ffffffff) := by
    ext i hi
    simp [Bool.and_xor_distrib_right]
  simp only [polyMod_eq,taps,BitVec.getLsbD_xor,hif,ha,BitVec.shiftLeft_xor_distrib]
  ac_rfl

/- The low five bits of the taps say which of them there are. -/
lemma taps_bits : (taps c).toNat<2^40 ∧ (taps c &&& 31=0 → c.getLsbD 35=false ∧ c.getLsbD 36=false ∧
    c.getLsbD 37=false ∧ c.getLsbD 38=false ∧ c.getLsbD 39=false) := by
  unfold taps
  generalize c.getLsbD 35=b0, c.getLsbD 36=b1, c.getLsbD 37=b2, c.getLsbD 38=b3, c.getLsbD 39=b4
  revert b0 b1 b2 b3 b4
  decide

variable {c d v}

lemma ofNat_lt {v : Nat} (hv : v<32) : (BitVec.ofNat 64 v).toNat<2^5 := by
  simp
  omega

lemma polyMod_lt {v : Nat} (hv : v<32) : (polyMod c (.ofNat 64 v)).toNat<2^40 := by
  have ha : (c &&& 0x7ffffffff).toNat<2^35 := Nat.and_lt_two_pow _ (by decide)
  rw [polyMod_eq,toNat_xor,toNat_xor,toNat_shiftLeft,Nat.shiftLeft_eq]
  exact Nat.xor_lt_two_pow (Nat.xor_lt_two_pow (by omega) ((ofNat_lt hv).trans (by decide)))
      (taps_bits c).1

lemma getLsbD_of_lt {n i : Nat} (h : d.toNat<2^n) (hi : n ≤ i) : d.getLsbD i=false :=
  Nat.testBit_lt_two_pow (h.trans_le (Nat.pow_le_pow_right (by decide) hi))

lemma polyMod_of_lt (hd : d.toNat<2^35) : polyMod d v=(d <<< 5)^^^v := by
  have ha : d &&& 0x7ffffffff=d := eq_of_toNat_eq (Nat.and_two_pow_sub_one_of_lt_two_pow hd)
  have ht : taps d=0#64 := by
    simp (disch := decide) only [taps,getLsbD_of_lt hd]
    rfl
  rw [polyMod_eq,ha,ht,xor_zero]

/- A symbol after a short difference leaves a difference. -/
lemma polyMod_short (hd : d.toNat<2^35) (hv : v.toNat<32) (h : polyMod d v=0#64) :
    d=0#64 ∧ v=0#64 := by
  rw [polyMod_of_lt hd,BitVec.xor_eq_zero_iff] at h
  have hn := congrArg BitVec.toNat h
  rw [toNat_shiftLeft,Nat.shiftLeft_eq] at hn
  have hz : d=0#64 := eq_of_toNat_eq (by simp; omega)
  exact ⟨hz,by rw [← h,hz]; rfl⟩

/- A shift loses nothing. -/
lemma polyMod_zero (hd : d.toNat<2^40) (h : polyMod d 0#64=0#64) : d=0#64 := by
  have ht := h
  rw [polyMod_eq,xor_zero,BitVec.xor_eq_zero_iff] at ht
  have hl : taps d &&& 31=0 := by
    rw [← ht]
    refine eq_of_toNat_eq ?_
    rw [toNat_and,toNat_shiftLeft,Nat.shiftLeft_eq]
    exact (Nat.and_two_pow_sub_one_eq_mod _ 5).trans (by simp)
  obtain ⟨_,_,_,_,_⟩ := (taps_bits d).2 hl
  have hlt : d.toNat<2^35 := by
    refine Nat.lt_pow_two_of_testBit _ fun i hi => ?_
    by_cases hb : 40 ≤ i
    · exact getLsbD_of_lt hd hb
    · obtain rfl | rfl | rfl | rfl | rfl : i=35 ∨ i=36 ∨ i=37 ∨ i=38 ∨ i=39 := by omega
      all_goals assumption
  exact (polyMod_short hlt (by decide) h).1

variable {x y : BitVec 64} {u v n : Nat}

lemma symbol_lt (hx : (x^^^y).toNat<2^(5*n)) (hn : n≤7) (hu : u<32) (hv : v<32) :
    (polyMod x (.ofNat 64 u)^^^polyMod y (.ofNat 64 v)).toNat<2^(5*(n+1)) := by
  have h35 : (x^^^y).toNat<2^35 := hx.trans_le (Nat.pow_le_pow_right (by decide) (by omega))
  have hs := Nat.xor_lt_two_pow (ofNat_lt hu) (ofNat_lt hv)
  rw [← polyMod_xor,polyMod_of_lt h35,toNat_xor,toNat_shiftLeft,Nat.shiftLeft_eq]
  refine Nat.xor_lt_two_pow ?_ (hs.trans_le (Nat.pow_le_pow_right (by decide) (by omega)))
  rw [mul_add,pow_add]
  omega

lemma symbol_inj (hxy : (x^^^y).toNat<2^(5*n)) (hn : n≤7) (hu : u<32) (hv : v<32)
    (h : polyMod x (.ofNat 64 u)=polyMod y (.ofNat 64 v)) : x=y ∧ u=v := by
  have hs := polyMod_xor x y (.ofNat 64 u) (.ofNat 64 v)
  rw [h,BitVec.xor_self] at hs
  have h35 : (x^^^y).toNat<2^35 := hxy.trans_le (Nat.pow_le_pow_right (by decide) (by omega))
  have hl : (BitVec.ofNat 64 u^^^.ofNat 64 v).toNat<32 :=
      Nat.xor_lt_two_pow (ofNat_lt hu) (ofNat_lt hv)
  obtain ⟨hx,hsy⟩ := polyMod_short h35 hl hs
  have hna := congrArg BitVec.toNat (BitVec.xor_eq_zero_iff.mp hsy)
  simp only [BitVec.toNat_ofNat] at hna
  exact ⟨BitVec.xor_eq_zero_iff.mp hx,by omega⟩

lemma shift_inj {w : BitVec 64} (hx : x.toNat<2^40) (hy : y.toNat<2^40)
    (h : polyMod x w=polyMod y w) :
    x=y := by
  have hs := polyMod_xor x y w w
  rw [h,BitVec.xor_self,BitVec.xor_self] at hs
  exact BitVec.xor_eq_zero_iff.mp (polyMod_zero (Nat.xor_lt_two_pow hx hy) hs)

lemma char_bounds {ch : Char} (h : ch∈INPUT_CHARSET) : low ch<32 ∧ high ch<3 ∧
    INPUT_CHARSET.idxOf ch=high ch*32+low ch := by
  have hl : INPUT_CHARSET.idxOf ch<95 := idxOf_lt_length_of_mem h
  rw [low,high,Nat.and_two_pow_sub_one_eq_mod _ 5,Nat.shiftRight_eq_div_pow]
  omega

lemma char_inj {p q : Char} (hp : p∈INPUT_CHARSET) (hq : q∈INPUT_CHARSET) (hl : low p=low q)
    (hh : high p=high q) : p=q := by
  have hpo : INPUT_CHARSET.idxOf p=INPUT_CHARSET.idxOf q := by
    rw [(char_bounds hp).2.2,(char_bounds hq).2.2,hl,hh]
  exact (idxOf_inj hp).mp hpo

namespace ChecksumState
variable {s t : ChecksumState} {k n : Nat} {p q : Char}

/-- The register has 40 bits, and of fewer than three characters the groups are to come. -/
structure Valid (s : ChecksumState) : Prop where
  c : s.c.toNat<2^40
  cls : s.clscount=0 ∧ s.cls=0 ∨ s.clscount=1 ∧ s.cls<3 ∨ s.clscount=2 ∧ s.cls<9

lemma Valid.step (h : s.Valid) (hp : p∈INPUT_CHARSET) :
    (s.emit p).Valid ∧ (s.emit p).clscount=(s.clscount+1)%3 := by
  obtain ⟨hl,_,-⟩ := char_bounds hp
  have hc := h.cls
  unfold emit
  split
  · exact ⟨⟨polyMod_lt (by omega),.inl ⟨rfl,rfl⟩⟩,by simp only; omega⟩
  · exact ⟨⟨polyMod_lt hl,by simp only; omega⟩,by simp only; omega⟩

lemma checksum_inj (hx : x.toNat<2^40) (hy : y.toNat<2^40) (h : checksum x=checksum y) : x=y := by
  have hch : ∀ a<32, ∀ b<32, CHECKSUM_CHARSET.getD a ' '=CHECKSUM_CHARSET.getD b ' ' → a=b := by
    decide +kernel
  have hdi {c d : BitVec 64} (hc : c.toNat<2^40) (hd : d.toNat<2^40)
      (h : ((range 8).map fun j => CHECKSUM_CHARSET.getD ((c >>> (5*(7-j))) &&& 31).toNat ' ')=
        (range 8).map fun j => CHECKSUM_CHARSET.getD ((d >>> (5*(7-j))) &&& 31).toNat ' ') : c=d := by
    have hm (n : Nat) : n &&& (31 : BitVec 64).toNat=n%32 := Nat.and_two_pow_sub_one_eq_mod n 5
    have hdg {n : Nat} (hn : n<8) : c.toNat/32^n%32=d.toNat/32^n%32 := by
      have hj := map_inj_left.mp h (7-n) (mem_range.mpr (by omega))
      simp only [toNat_and,BitVec.toNat_ushiftRight,Nat.shiftRight_eq_div_pow] at hj
      rw [show 7-(7-n)=n by omega,pow_mul,hm,hm] at hj
      exact hch _ (Nat.mod_lt _ (by decide)) _ (Nat.mod_lt _ (by decide)) hj
    have hl (n : Nat) (hn : n≤8) : c.toNat%32^n=d.toNat%32^n := by
      induction n with
      | zero => rw [pow_zero,Nat.mod_one,Nat.mod_one]
      | succ n ih => rw [Nat.mod_pow_succ,Nat.mod_pow_succ,ih (by omega),hdg hn]
    have he : c.toNat%2^40=d.toNat%2^40 := hl 8 le_rfl
    rw [Nat.mod_eq_of_lt hc,Nat.mod_eq_of_lt hd] at he
    exact eq_of_toNat_eq he
  have hz (n : Nat) {c d : BitVec 64} (hc : c.toNat<2^40) (hd : d.toNat<2^40) :
      ((range n).foldl (fun c _ => polyMod c 0) c).toNat<2^40 ∧
        ((range n).foldl (fun c _ => polyMod c 0) c=(range n).foldl (fun c _ =>
            polyMod c 0) d → c=d) := by
    induction n generalizing c d with
    | zero => exact ⟨hc,id⟩
    | succ n ih =>
      simp only [range_succ,foldl_append,foldl_cons,foldl_nil]
      exact ⟨polyMod_lt (v := 0) (by decide),fun h =>
          (ih hc hd).2 (shift_inj (ih hc hd).1 (ih hd hc).1 h)⟩
  have ho {c : BitVec 64} (hc : c.toNat<2^40) : (c^^^1).toNat<2^40 :=
      Nat.xor_lt_two_pow hc (by decide)
  have he := hdi (ho (hz 8 hx hy).1) (ho (hz 8 hy hx).1) h
  exact (hz 8 hx hy).2 ((BitVec.xor_left_inj _).mp he)

/-- After `n` characters that differ only from `k` groups on, in two groups: the difference is in the
register and in the groups to come. -/
structure Near (k n : Nat) (s t : ChecksumState) : Prop where
  left : s.Valid
  right : t.Valid
  count : s.clscount=n%3 ∧ t.clscount=n%3
  before : n≤3*k → s=t
  within : n≤3*k+6 → (s.c^^^t.c).toNat<2^(5*(n-3*k+(n-3*k)/3))
  after : 3*k+6≤n → s.cls=t.cls

lemma Near.step (h : Near k n s t) (hp : p∈INPUT_CHARSET) (hq : q∈INPUT_CHARSET)
    (hd : p≠q → 3*k≤n ∧ n<3*k+6) : Near k (n+1) (s.emit p) (t.emit q) ∧
      ((s.emit p).c=(t.emit q).c → (s.emit p).cls=(t.emit q).cls → s.c=t.c ∧
      s.cls=t.cls ∧ p=q) := by
  obtain ⟨hlp,_,-⟩ := char_bounds hp
  obtain ⟨hlq,_,-⟩ := char_bounds hq
  obtain ⟨hs,ht,⟨hk,hkt⟩,hb,hc,ha⟩ := h
  obtain ⟨hs',_⟩ := hs.step hp
  obtain ⟨ht',_⟩ := ht.step hq
  have hcs := hs.cls
  have hct := ht.cls
  have hco : (s.emit p).clscount=(n+1)%3 ∧ (t.emit q).clscount=(n+1)%3 := by omega
  obtain hn | hn | hn : n<3*k ∨ 3*k+6≤n ∨ 3*k≤n ∧ n<3*k+6 := by omega
  · obtain rfl : p=q := by_contra fun hpq => by have hat := hd hpq; omega
    obtain rfl := hb hn.le
    exact ⟨⟨hs',ht',hco,fun _ => rfl,fun _ => by simp [Nat.two_pow_pos],by omega⟩,fun _ _ =>
        ⟨rfl,rfl,rfl⟩⟩
  · obtain rfl : p=q := by_contra fun hpq => by have hat := hd hpq; omega
    have hcl := ha hn
    refine ⟨⟨hs',ht',hco,by omega,by omega,fun _ => ?_⟩,fun he _ => ⟨?_,hcl,rfl⟩⟩
    · simp only [emit,hcl,hk,hkt]
      split <;> rfl
    · simp only [emit,hcl,hk,hkt] at he
      split at he
      · exact shift_inj hs.c ht.c (shift_inj (polyMod_lt hlp) (polyMod_lt hlp) he)
      · exact shift_inj hs.c ht.c he
  · have hc := hc hn.2.le
    have hne := symbol_lt hc (by omega) hlp hlq
    refine ⟨⟨hs',ht',hco,by omega,fun _ => ?_,fun _ => ?_⟩,?_⟩
    · unfold emit
      split
      · rw [if_pos (by omega),show n+1-3*k+(n+1-3*k)/3=n-3*k+(n-3*k)/3+1+1 by omega]
        exact symbol_lt hne (by omega) (by omega) (by omega)
      · rw [if_neg (by omega),show n+1-3*k+(n+1-3*k)/3=n-3*k+(n-3*k)/3+1 by omega]
        exact hne
    · have hcs' := hs'.cls
      have hct' := ht'.cls
      omega
    · unfold emit
      split
      · rw [if_pos (by omega)]
        intro he _
        obtain ⟨he,hg⟩ := symbol_inj hne (by omega) (by omega) (by omega) he
        obtain ⟨he,hl⟩ := symbol_inj hc (by omega) hlp hlq he
        exact ⟨he,by omega,char_inj hp hq hl (by omega)⟩
      · rw [if_neg (by omega)]
        intro he hg
        simp only at hg
        obtain ⟨he,hl⟩ := symbol_inj hc (by omega) hlp hlq he
        exact ⟨he,by omega,char_inj hp hq hl (by omega)⟩

lemma Near.flushed (h : Near k n s t) : s.flush.toNat<2^40 ∧ t.flush.toNat<2^40 ∧
    (s.flush=t.flush → s.c=t.c ∧ s.cls=t.cls) := by
  obtain ⟨hs,ht,⟨hk,hkt⟩,_,hc,ha⟩ := h
  have hcs := hs.cls
  have hct := ht.cls
  simp only [flush,hk,hkt]
  split
  · refine ⟨polyMod_lt (by omega),polyMod_lt (by omega),fun he => ?_⟩
    by_cases hn : n<3*k+6
    · exact symbol_inj (hc hn.le) (by omega) (by omega) (by omega) he
    · have hcl := ha (by omega)
      exact ⟨shift_inj hs.c ht.c (hcl ▸ he),hcl⟩
  · exact ⟨hs.c,ht.c,fun he => ⟨he,by omega⟩⟩

lemma Near.run_inj {l m : List Char} (h : Near k n s t) (hle : l.length=m.length)
    (hl : ∀ ch∈l, ch∈INPUT_CHARSET) (hm : ∀ ch∈m, ch∈INPUT_CHARSET)
    (hd : ∀ i, l[i]?≠m[i]? → 3*k≤n+i ∧ n+i<3*k+6)
    (he : checksum (l.foldl emit s).flush=checksum (m.foldl emit t).flush) :
    s.c=t.c ∧ s.cls=t.cls ∧ l=m := by
  induction l generalizing n s t m with
  | nil =>
    obtain rfl := length_eq_zero_iff.mp hle.symm
    obtain ⟨hs,ht,hin⟩ := h.flushed
    obtain ⟨hc,hcl⟩ := hin (checksum_inj hs ht he)
    exact ⟨hc,hcl,rfl⟩
  | cons p l ih =>
    match m,hle with
    | q::m,hle =>
      obtain ⟨hp,hl⟩ := forall_mem_cons.mp hl
      obtain ⟨hq,hm⟩ := forall_mem_cons.mp hm
      obtain ⟨hn,hb⟩ := h.step hp hq fun hpq => hd 0 (by simpa using hpq)
      have hr (i : Nat) (hi : l[i]?≠m[i]?) : 3*k≤n+1+i ∧ n+1+i<3*k+6 := by
        have ha := hd (i+1) (by simpa using hi)
        omega
      obtain ⟨hc,hcl,rfl⟩ := ih hn (by simpa using hle) hl hm hr he
      obtain ⟨hsc,hsl,rfl⟩ := hb hc hcl
      exact ⟨hsc,hsl,rfl⟩
end ChecksumState

/-- Strings of the character set that differ only within two consecutive groups of three characters
have different checksums. -/
theorem descriptorChecksum_ne {s t : List Char} (hs : s.all INPUT_CHARSET.contains)
    (ht : t.all INPUT_CHARSET.contains) (hlen : s.length=t.length) (hne : s≠t) (k : Nat)
    (hdiff : ∀ i, s[i]?≠t[i]? → 3*k ≤ i ∧ i<3*k+6) : descriptorChecksum s≠descriptorChecksum t := by
  intro hsu
  rw [descriptorChecksum,if_pos hs,descriptorChecksum,if_pos ht] at hsu
  have hst : ({} : ChecksumState).Valid := ⟨by decide,.inl ⟨rfl,rfl⟩⟩
  have hn : ChecksumState.Near k 0 {} {} := ⟨hst,hst,⟨rfl,rfl⟩,fun _ => rfl,by simp,by omega⟩
  exact hne (hn.run_inj hlen (by simpa using hs) (by simpa using ht) (by simpa using hdiff) hsu).2.2

theorem descriptorChecksum_ne_case :
    descriptorChecksum "pk(a)".toList≠descriptorChecksum "pk(A)".toList := by
  refine descriptorChecksum_ne rfl rfl rfl (by decide) 0 fun i hi => ⟨i.zero_le,?_⟩
  by_contra hg
  refine hi ?_
  rw [getElem?_eq_none,getElem?_eq_none] <;> exact le_trans (by decide) (not_lt.mp hg)
end Xero
