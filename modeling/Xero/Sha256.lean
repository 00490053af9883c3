import Xero.Primitives
import Xero.Library.Buffers
import Mathlib.Data.Fin.VecNotation

/-! The incremental hashers. Data is written in pieces of any size; a partial block waits in a
buffer, and only the data as a whole counts. -/
namespace Xero
open Library List

abbrev Words := Fin 8 → UInt32

/-- The compression function on one block of 64 bytes. It is left arbitrary. -/
abbrev Compression := Words → Bytes → Words

structure CSHA256 where
  s : Words
  buf : Bytes
  bytes : Nat

namespace CSHA256
def initialState : Words :=
  ![0x6a09e667,0xbb67ae85,0x3c6ef372,0xa54ff53a,0x510e527f,0x9b05688c,0x1f83d9ab,0x5be0cd19]

def new (buf : Bytes) : CSHA256 := ⟨initialState,buf,0⟩
def reset (h : CSHA256) : CSHA256 := {h with s := initialState, bytes := 0}

section
variable (transform : Compression)

/- The three steps of Write: fill the buffer and process it, process whole blocks, and keep the
rest. Each returns the data left. -/
def fillBuffer (h : CSHA256) (bufsize : Nat) (data : Bytes) : CSHA256 :=
  let buf := writeAt h.buf bufsize (data.take (64-bufsize))
  {s := transform h.s buf, buf, bytes := h.bytes+(64-bufsize)}

def processBlocks (h : CSHA256) (data : Bytes) : CSHA256×Bytes :=
  if 64≤data.length then
    let blocks := data.length/64
    ({h with s := foldBlocks transform 64 blocks h.s data, bytes := h.bytes+64*blocks},
      data.drop (64*blocks))
  else (h,data)
def keepRest (h : CSHA256) (bufsize : Nat) (data : Bytes) : CSHA256 :=
  if 0<data.length then
    {h with buf := writeAt h.buf bufsize data, bytes := h.bytes+data.length}
  else h

/-- Write. The byte count is not reduced to 64 bits: it is only used modulo 64 and, in Finalize,
modulo 2^61. -/
def write (h : CSHA256) (data : Bytes) : CSHA256 :=
  let bufsize := h.bytes%64
  if bufsize≠0 ∧ 64≤bufsize+data.length then
    let (h,data) := processBlocks transform (fillBuffer transform h bufsize data)
        (data.drop (64-bufsize))
    keepRest h 0 data
  else
    let (h,data) := processBlocks transform h data
    keepRest h bufsize data

def writeBE : Nat → Nat → Bytes
  | 0, _ => []
  | width+1, v => writeBE width (v/256)++[UInt8.ofNat v]

/-- The hash, and what Finalize leaves in the hasher. -/
def finalize (h : CSHA256) : Bytes×CSHA256 :=
  let pad := 0x80::replicate 63 0
  let sizedesc := writeBE 8 (h.bytes*8%2^64)
  let h := write transform h (pad.take (1+(119-h.bytes%64)%64))
  let h := write transform h sizedesc
  ((ofFn h.s).flatMap fun word => writeBE 4 word.toNat,h)

/-- The hash of whole blocks. -/
def blockHash (blocks : Bytes) : Bytes :=
  (ofFn (foldBlocks transform 64 (blocks.length/64) initialState blocks)).flatMap fun word =>
    writeBE 4 word.toNat
end

/-- The data, a one bit, zeros up to the last eight bytes of a block, and the number of bits. -/
def padded (data : Bytes) : Bytes :=
  data++0x80::replicate ((119-data.length%64)%64) 0++writeBE 8 (data.length*8%2^64)

/-- All of `data` has been written since the last reset. -/
structure Holds (transform : Compression) (h : CSHA256) (data : Bytes) : Prop where
  bytes : h.bytes=data.length
  state : h.s=foldBlocks transform 64 (data.length/64) initialState data
  room : h.buf.length=64
  rest : h.buf.take (data.length%64)=data.drop (data.length/64*64)

variable {tf : Compression} {h : CSHA256} {da : Bytes}

lemma holds_reset (hr : h.buf.length=64) : Holds tf h.reset [] :=
  ⟨rfl,rfl,hr,rfl⟩

lemma holds_new {buf : Bytes} (hr : buf.length=64) : Holds tf (new buf) [] :=
  ⟨rfl,rfl,hr,rfl⟩

lemma length_rest (data : Bytes) : (data.drop (data.length/64*64)).length=data.length%64 := by
  rw [length_drop]
  omega

section
variable (hh : Holds tf h da)
include hh

lemma Holds.fillBuffer {m : Bytes} (hf : 64≤da.length%64+m.length) :
    Holds tf (fillBuffer tf h (da.length%64) m)
      (da++m.take (64-da.length%64)) := by
  have hr := length_rest da
  have hm : (m.take (64-da.length%64)).length=64-da.length%64 := by
    rw [length_take]
    omega
  have hl : (da++m.take (64-da.length%64)).length=(da.length/64+1)*64 := by
    rw [length_append,hm]
    omega
  have hb : (writeAt h.buf (da.length%64) (m.take (64-da.length%64)))=
      da.drop (da.length/64*64)++m.take (64-da.length%64) := by
    have ht := take_writeAt (hr ▸ hh.rest) (m.take (64-da.length%64))
    rw [hr,hm,take_of_length_le] at ht
    · exact ht
    · rw [length_writeAt (by rw [hm,hh.room]; omega),hh.room]
      omega
  have hbl : (da.drop (da.length/64*64)++m.take (64-da.length%64)).take 64=
      da.drop (da.length/64*64)++m.take (64-da.length%64) := by
    apply take_of_length_le
    rw [length_append,hm,hr]
    omega
  refine ⟨?_,?_,?_,?_⟩
  · show h.bytes+(64-da.length%64)=_
    rw [hl,hh.bytes]
    omega
  · show tf h.s _=_
    rw [hl,Nat.mul_div_cancel _ (by decide : 0<64),foldBlocks_add,hb,
      foldBlocks_append (by omega),← hh.state,drop_append_of_le_length (by omega)]
    rw [foldBlocks,foldBlocks,hbl]
  · show (writeAt _ _ _).length=64
    rw [length_writeAt (by rw [hm,hh.room]; omega),hh.room]
  · rw [hl,Nat.mul_mod_left,Nat.mul_div_cancel _ (by decide : 0<64),take_zero,
        drop_of_length_le hl.le]

lemma Holds.processBlocks (m : Bytes) (ha : da.length%64=0 ∨ m.length<64) :
    ∃ h' done rest, processBlocks tf h m=(h',rest) ∧ da++m=done++rest ∧
      Holds tf h' done ∧ done.length%64=da.length%64 ∧ rest.length<64 := by
  unfold CSHA256.processBlocks
  by_cases hlo : 64 ≤ m.length
  · rw [if_pos hlo]
    have hz : da.length%64=0 := ha.resolve_right (by omega)
    have hl : (da++m.take (64*(m.length/64))).length= (da.length/64+m.length/64)*64 := by
      rw [length_append,length_take]
      omega
    have hd : da.length/64*64=da.length := by omega
    refine ⟨_,da++m.take (64*(m.length/64)),_,rfl,?_,⟨?_,?_,hh.room,?_⟩,?_,?_⟩
    · rw [append_assoc,take_append_drop]
    · show h.bytes+64*(m.length/64)=_
      rw [hl,hh.bytes]
      omega
    · show foldBlocks tf 64 _ h.s m=_
      rw [hl,Nat.mul_div_cancel _ (by decide : 0<64),foldBlocks_add,
        foldBlocks_append (by omega),← hh.state,hd,drop_left,Nat.mul_comm 64,
        foldBlocks_take (by omega)]
    · rw [hl,Nat.mul_mod_left,Nat.mul_div_cancel _ (by decide : 0<64),take_zero,
          drop_of_length_le hl.le]
    · rw [hl,Nat.mul_mod_left,hz]
    · show (m.drop _).length<64
      rw [length_drop]
      omega
  · rw [if_neg hlo]
    exact ⟨h,da,m,rfl,rfl,hh,rfl,not_le.mp hlo⟩

lemma Holds.keepRest {m : Bytes} (hro : da.length%64+m.length<64) :
    Holds tf (keepRest h (da.length%64) m) (da++m) := by
  unfold CSHA256.keepRest
  by_cases hs : 0 < m.length
  · rw [if_pos hs]
    have hd : (da++m).length/64=da.length/64 := by
      rw [length_append]
      omega
    have hm : (da++m).length%64=da.length%64+m.length := by
      rw [length_append]
      omega
    have hr := length_rest da
    refine ⟨?_,?_,?_,?_⟩
    · show h.bytes+m.length=_
      rw [length_append,hh.bytes]
    · show h.s=_
      rw [hd,foldBlocks_append (by omega),hh.state]
    · show (writeAt _ _ _).length=64
      rw [length_writeAt (by rw [hh.room]; omega),hh.room]
    · rw [hd,hm,drop_append_of_le_length (by omega)]
      have ht := take_writeAt (hr ▸ hh.rest) m
      rwa [hr] at ht
  · rw [if_neg hs]
    have hn : m=[] := eq_nil_of_length_eq_zero (by omega)
    rwa [hn,append_nil]

lemma Holds.write (m : Bytes) : Holds tf (write tf h m) (da++m) := by
  unfold CSHA256.write
  rw [hh.bytes]
  dsimp only
  by_cases hf : da.length%64≠0 ∧ 64≤da.length%64+m.length
  · rw [if_pos hf]
    have hfi := hh.fillBuffer hf.2
    have hal : (da++m.take (64-da.length%64)).length%64=0 := by
      rw [length_append,length_take]
      omega
    obtain ⟨h',d,r,hb,ha,hd,hm,hs⟩ := hfi.processBlocks (m.drop (64-da.length%64)) (.inl hal)
    rw [append_assoc,take_append_drop] at ha
    rw [hal] at hm
    have hr : d.length%64+r.length<64 := by omega
    have hk := hd.keepRest hr
    rw [hb]
    rwa [hm,← ha] at hk
  · rw [if_neg hf]
    obtain ⟨h',d,r,hb,ha,hd,hm,hs⟩ := hh.processBlocks m (by omega)
    have hl := congrArg length ha
    simp only [length_append] at hl
    have hr : d.length%64+r.length<64 := by omega
    have hk := hd.keepRest hr
    rw [hb]
    rwa [hm,← ha] at hk

lemma Holds.finalize : (finalize tf h).1=blockHash tf (padded da) ∧
    Holds tf (finalize tf h).2 (padded da) := by
  have hk : (119-h.bytes%64)%64≤63 := by omega
  have ht : (0x80::replicate 63 (0 : UInt8)).take (1+(119-h.bytes%64)%64)=
      0x80::replicate ((119-h.bytes%64)%64) 0 := by
    rw [Nat.add_comm,take_succ_cons,take_replicate,Nat.min_eq_left hk]
  have hw := (hh.write (0x80::replicate ((119-h.bytes%64)%64) 0)).write
    (writeBE 8 (h.bytes*8%2^64))
  unfold CSHA256.finalize
  dsimp only
  rw [ht]
  rw [hh.bytes] at hw ⊢
  exact ⟨by rw [hw.state]; rfl,hw⟩
end
end CSHA256

structure CHash256 where
  sha : CSHA256

namespace CHash256
variable (transform : Compression)

def new (buf : Bytes) : CHash256 := ⟨CSHA256.new buf⟩
def reset (h : CHash256) : CHash256 := ⟨h.sha.reset⟩
def write (h : CHash256) (input : Bytes) : CHash256 := ⟨h.sha.write transform input⟩
def finalize (h : CHash256) : Bytes :=
  let (buf,sha) := h.sha.finalize transform
  ((sha.reset.write transform buf).finalize transform).1
end CHash256

def hash256 (transform : Compression) (in1 : Bytes) : Bytes :=
  ((CHash256.new (replicate 64 0)).write transform in1).finalize transform

namespace CHash256
variable {tf : Compression}

lemma finalize_eq {h : CHash256} {data : Bytes} (hh : h.sha.Holds tf data) : h.finalize tf=
    CSHA256.blockHash tf (CSHA256.padded (CSHA256.blockHash tf (CSHA256.padded data))) := by
  obtain ⟨hf,hs⟩ := hh.finalize
  have hz : (h.sha.finalize tf).2.reset.Holds tf [] := CSHA256.holds_reset hs.room
  have hr := hz.write (CSHA256.blockHash tf (CSHA256.padded data))
  rw [nil_append] at hr
  unfold finalize
  dsimp only
  rw [hf]
  exact hr.finalize.1

lemma hash256_eq (data : Bytes) : hash256 tf data=
    CSHA256.blockHash tf (CSHA256.padded (CSHA256.blockHash tf (CSHA256.padded data))) := by
  have hn : (CSHA256.new (replicate 64 0)).Holds tf [] := CSHA256.holds_new (by simp)
  exact finalize_eq (hn.write data)

lemma finalize_eq_hash256 {h : CHash256} {data : Bytes} (hh : h.sha.Holds tf data) :
    h.finalize tf=hash256 tf data :=
  (finalize_eq hh).trans (hash256_eq data).symm

lemma holds_writes {h : CHash256} {d : Bytes} (hh : h.sha.Holds tf d) (chunks : List Bytes) :
    (chunks.foldl (write tf) h).sha.Holds tf (d++chunks.flatten) := by
  induction chunks generalizing h d with
  | nil => simpa using hh
  | cons c chunks ih => simpa using ih (h := h.write tf c) (hh.write c)

/-- However the data is cut into calls of Write, and whatever the buffer was, the hash is the same:
that of the padded hash of the padded data. -/
theorem finalize_writes (transform : Compression) (buf : Fin 64 → UInt8) (chunks : List Bytes) :
    (chunks.foldl (write transform) (new (ofFn buf))).finalize transform=
      hash256 transform chunks.flatten ∧
    hash256 transform chunks.flatten=CSHA256.blockHash transform (CSHA256.padded
      (CSHA256.blockHash transform (CSHA256.padded chunks.flatten))) := by
  refine ⟨?_,hash256_eq chunks.flatten⟩
  exact finalize_eq_hash256 (holds_writes (CSHA256.holds_new length_ofFn) chunks)
end CHash256
end Xero
