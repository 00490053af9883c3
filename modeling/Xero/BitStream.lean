import Xero.Serialize
import Xero.Library.Loop
import Xero.Library.BitStrings

/-! Streams of bits in a stream of bytes, and the Golomb-Rice codes of numbers. -/
namespace Xero
open Library List Nat
variable {bits data nbits v : Nat}

def byteBits (bytes : Bytes) : List Bool := bytes.flatMap fun b => toBits 8 b.toNat
def NBITS_ERROR : String := "nbits must be between 0 and 64"

/-- The reader returns the bits of its buffer from the offset on, and then those of the stream. -/
structure BitStreamReader where
  m_istream : Bytes
  m_buffer : Nat := 0
  m_offset : Nat := 8
  offset_le : m_offset≤8 := by decide

namespace BitStreamReader
/- A byte is read into the buffer when all of its bits have been returned. -/
def refill (r : BitStreamReader) : Except String BitStreamReader :=
  if r.m_offset=8 then
    match r.m_istream with
    | [] => .error END_OF_DATA
    | b::m_istream => .ok {m_istream, m_buffer := b.toNat, m_offset := 0, offset_le := by decide}
  else .ok r

variable {r r' : BitStreamReader}

lemma refill_lt (h : r.refill=.ok r') : r'.m_offset<8 := by
  unfold refill at h
  by_cases ho : r.m_offset=8
  · rw [if_pos ho] at h
    cases hs : r.m_istream with
    | nil =>
      rw [hs] at h
      cases h
    | cons b bt =>
      rw [hs] at h
      cases h
      exact zero_lt_succ _
  · rw [if_neg ho] at h
    cases h
    have hl := r.offset_le
    omega

/- The next bits of the buffer, behind those of `data`. -/
def takeBits (r : BitStreamReader) (data bits : Nat) (h : bits≤8-r.m_offset) :
    Nat×BitStreamReader :=
  ((data <<< bits)%2^64 ||| ((r.m_buffer <<< r.m_offset)%256) >>> (8-bits),
    {r with
      m_offset := r.m_offset+bits,
      offset_le := by have hle := r.offset_le; omega})

def readFrom (r : BitStreamReader) (data nbits : Nat) : Except String (Nat×BitStreamReader) :=
  if _hbits : nbits=0 then .ok (data,r)
  else
    match _h : r.refill with
    | .error e => .error e
    | .ok r =>
      let bits := min (8-r.m_offset) nbits
      let (data,r) := takeBits r data bits (min_le_left _ _)
      readFrom r data (nbits-bits)
termination_by nbits
decreasing_by
  have hlt := refill_lt _h
  omega

def read (r : BitStreamReader) (nbits : Nat) : Except String (Nat×BitStreamReader) :=
  if 64<nbits then .error NBITS_ERROR else readFrom r 0 nbits
def remaining (r : BitStreamReader) : List Bool :=
  toBits (8-r.m_offset) r.m_buffer++byteBits r.m_istream

lemma refill_remaining (h : r.refill=.ok r') : r'.remaining=r.remaining := by
  unfold refill at h
  by_cases ho : r.m_offset=8
  · rw [if_pos ho] at h
    cases hs : r.m_istream with
    | nil =>
      rw [hs] at h
      cases h
    | cons b bt =>
      rw [hs] at h
      cases h
      rw [remaining,remaining,ho,hs]
      rfl
  · rw [if_neg ho] at h
    cases h
    rfl

lemma refill_of_remaining (h : r.remaining≠[]) : ∃ r', r.refill=.ok r' := by
  unfold refill
  by_cases ho : r.m_offset=8
  · rw [if_pos ho]
    cases hs : r.m_istream with
    | nil =>
      refine absurd ?_ h
      rw [remaining,ho,hs]
      rfl
    | cons b bt => exact ⟨_,rfl⟩
  · rw [if_neg ho]
    exact ⟨r,rfl⟩

lemma shifted_buffer {b o : Nat} (h : bits≤8-o) (hl : o≤8) :
    ((b <<< o)%256) >>> (8-bits)=b/2^(8-o-bits)%2^bits := by
  apply eq_of_testBit_eq
  intro i
  rw [show 256=2^8 from rfl,testBit_shiftRight,testBit_mod_two_pow,testBit_shiftLeft,
    testBit_mod_two_pow,testBit_div_two_pow]
  by_cases hi : i<bits
  · rw [decide_eq_true hi,decide_eq_true (by omega),decide_eq_true (by omega),Bool.true_and,
      Bool.true_and,Bool.true_and]
    congr 1
    omega
  · rw [decide_eq_false hi,decide_eq_false (by omega),Bool.false_and,Bool.false_and]

variable {re : List Bool}

lemma takeBits_spec (hb : bits≤8-r.m_offset) (hl : bits≤nbits) (hv : v<2^nbits)
    (hd : data*2^nbits+v<2^64) (h : r.remaining=toBits nbits v++re) :
    (takeBits r data bits hb).1=data*2^bits+v/2^(nbits-bits) ∧
      (takeBits r data bits hb).2.remaining=toBits (nbits-bits) v++re := by
  have ho := r.offset_le
  -- Both the buffer and the number begin with these bits.
  have hs : toBits bits (r.m_buffer/2^(8-r.m_offset-bits))++
      (toBits (8-r.m_offset-bits) r.m_buffer++byteBits r.m_istream)=
      toBits bits (v/2^(nbits-bits))++(toBits (nbits-bits) v++re) := by
    rw [← append_assoc,← append_assoc,← toBits_add,← toBits_add,
      Nat.add_sub_cancel' hb,Nat.add_sub_cancel' hl]
    exact h
  obtain ⟨hf,hr⟩ := append_inj hs (by rw [length_toBits,length_toBits])
  have hp : 2^nbits=2^bits*2^(nbits-bits) := by rw [← Nat.pow_add,Nat.add_sub_cancel' hl]
  have hh : v/2^(nbits-bits)<2^bits := by
    rw [Nat.div_lt_iff_lt_mul (Nat.two_pow_pos _),← hp]
    exact hv
  have hsm : data*2^bits<2^64 := by
    have hm : data*2^bits≤data*2^nbits :=
        Nat.mul_le_mul_left _ (Nat.pow_le_pow_right (by decide) hl)
    omega
  constructor
  · show (data <<< bits)%2^64 ||| ((r.m_buffer <<< r.m_offset)%256) >>> (8-bits)=_
    rw [shifted_buffer hb ho,mod_eq_of_toBits hf,mod_eq_of_lt hh,shiftLeft_eq,
      mod_eq_of_lt hsm,← shiftLeft_eq,← shiftLeft_add_eq_or_of_lt hh]
  · show toBits (8-(r.m_offset+bits)) r.m_buffer++_=_
    rw [sub_add_eq]
    exact hr

lemma readFrom_spec (hv : v<2^nbits) (hd : data*2^nbits+v<2^64)
    (h : r.remaining=toBits nbits v++re) :
    ∃ r', readFrom r data nbits=.ok (data*2^nbits+v,r') ∧ r'.remaining=re := by
  induction hn : nbits using Nat.strongRecOn generalizing r data nbits v with
  | ind n ih =>
    subst hn
    rw [readFrom]
    by_cases hz : nbits=0
    · subst hz
      rw [dif_pos rfl]
      have hv0 : v=0 := by omega
      exact ⟨r,by rw [hv0,pow_zero,mul_one,add_zero],h⟩
    rw [dif_neg hz]
    have hno : r.remaining≠[] := by
      intro hni
      have hl := congrArg length (h.symm.trans hni)
      rw [length_append,length_toBits,length_nil] at hl
      omega
    obtain ⟨r1,hre⟩ := refill_of_remaining hno
    have hlt := refill_lt hre
    rw [← refill_remaining hre] at h
    split
    case h_1 e hb =>
      rw [hre] at hb
      cases hb
    case h_2 r2 ho =>
      rw [hre] at ho
      cases ho
      dsimp only
      have hle : min (8-r1.m_offset) nbits≤nbits := min_le_right _ _
      obtain ⟨hvl,hr⟩ := takeBits_spec (min_le_left _ _) hle hv hd h
      generalize takeBits r1 data (min (8-r1.m_offset) nbits) (min_le_left _ _)=taken at hvl hr ⊢
      generalize hbi : min (8-r1.m_offset) nbits=bits at hle hvl hr ⊢
      have hp : 2^nbits=2^bits*2^(nbits-bits) := by rw [← Nat.pow_add,Nat.add_sub_cancel' hle]
      have hlo : v%2^(nbits-bits)<2^(nbits-bits) := Nat.mod_lt _ (Nat.two_pow_pos _)
      have hs : taken.1*2^(nbits-bits)+v%2^(nbits-bits)=data*2^nbits+v := by
        have hdi := div_add_mod v (2^(nbits-bits))
        rw [hvl,hp,add_mul,mul_assoc,add_assoc,mul_comm (v/_),hdi]
      rw [toBits_congr (mod_mod v (2^(nbits-bits))).symm] at hr
      rw [← hs]
      exact ih (nbits-bits) (by omega) hlo (hs.symm ▸ hd) hr rfl

lemma readFrom_length
    (h : readFrom r data nbits=.ok (v,r')) : r'.remaining.length+nbits=r.remaining.length := by
  induction hn : nbits using Nat.strongRecOn generalizing r data nbits with
  | ind n ih =>
    rw [readFrom] at h
    by_cases hz : nbits=0
    · rw [dif_pos hz] at h
      cases h
      omega
    rw [dif_neg hz] at h
    split at h
    case h_1 e hb => cases h
    case h_2 r1 hr =>
      have hl := refill_lt hr
      have hs := congrArg length (refill_remaining hr)
      have hne := ih _ (by omega) h rfl
      rw [← hs]
      simp only [remaining,length_append,length_toBits] at hne ⊢
      omega

lemma read_spec (hb : nbits≤64) (hv : v<2^nbits) (h : r.remaining=toBits nbits v++re) :
    ∃ r', r.read nbits=.ok (v,r') ∧ r'.remaining=re := by
  have hs : 0*2^nbits+v<2^64 := by
    have hl : 2^nbits≤2^64 := Nat.pow_le_pow_right (by decide) hb
    omega
  obtain ⟨r',hr,hre⟩ := readFrom_spec hv hs h
  rw [zero_mul,zero_add] at hr
  exact ⟨r',by rw [read,if_neg (not_lt.mpr hb),hr],hre⟩

def unaryStep (s : Nat×BitStreamReader) :
    Except String ((Nat×BitStreamReader) ⊕ (Nat×BitStreamReader)) :=
  do
    let (bit,r) ← s.2.read 1
    if bit=1 then pure (.inr ((s.1+1)%2^64,r)) else pure (.inl (s.1,r))

def unaryLoop : Loop (Nat×BitStreamReader) (Nat×BitStreamReader) String where
  body := unaryStep
  measure s := s.2.remaining.length
  decreases s s' h := by
    unfold unaryStep at h
    obtain ⟨⟨bit,r⟩,hread,hnext⟩ := bind_eq_ok.mp h
    dsimp only at hnext
    by_cases hone : bit=1
    · rw [if_pos hone] at hnext
      cases hnext
      have hlength : r.remaining.length+1=s.2.remaining.length := readFrom_length hread
      show r.remaining.length < s.2.remaining.length
      omega
    · rw [if_neg hone] at hnext
      cases hnext

def golombRiceDecode (bitreader : BitStreamReader) (P : Nat) :
    Except String (Nat×BitStreamReader) := do
  let (q,bitreader) ← unaryLoop.run (0,bitreader)
  let (r,bitreader) ← bitreader.read P
  pure (((q <<< P)%2^64+r)%2^64,bitreader)
end BitStreamReader

/- The code of a number: the quotient in unary, and the remainder. -/
def golombRiceCode (P x : Nat) : List Bool := replicate (x/2^P) true++false::toBits P x

namespace BitStreamReader
lemma unaryLoop_spec {r : BitStreamReader} {q n : Nat} {rs : List Bool} (hq : n+q<2^64)
    (h : r.remaining=replicate q true++false::rs) :
    ∃ r', unaryLoop.run (n,r)=.ok (n+q,r') ∧ r'.remaining=rs := by
  induction q generalizing r n with
  | zero =>
    obtain ⟨r',hr,hre⟩ := read_spec (r := r) (v := 0) (by decide : 1≤64) (by decide) h
    have hb : unaryLoop.body (n,r)=.ok (.inl (n,r')) := by
      show unaryStep (n,r)=_
      simp [unaryStep,hr,ok_bind,pure_ok]
    exact ⟨r',Loop.run_of_done hb,hre⟩
  | succ q ih =>
    obtain ⟨r',hr,hre⟩ := read_spec (r := r) (v := 1) (by decide : 1≤64) (by decide) h
    have hb : unaryLoop.body (n,r)=.ok (.inr (n+1,r')) := by
      have hs : (n+1)%2^64=n+1 := Nat.mod_eq_of_lt (by omega)
      show unaryStep (n,r)=_
      simp only [unaryStep,hr,ok_bind,pure_ok,if_true,hs]
    obtain ⟨r'',hru,hf⟩ := ih (r := r') (n := n+1) (by omega) hre
    refine ⟨r'',?_,hf⟩
    rw [Loop.run_of_next hb,hru,Nat.add_assoc,Nat.add_comm 1]

lemma golombRiceDecode_spec {r : BitStreamReader} {P x : Nat} {rs : List Bool} (hP : P≤64)
    (hx : x<2^64) (h : r.remaining=golombRiceCode P x++rs) :
    ∃ r', r.golombRiceDecode P=.ok (x,r') ∧ r'.remaining=rs := by
  have hq : 0+x/2^P<2^64 := by
    have hl := Nat.div_le_self x (2^P)
    omega
  rw [golombRiceCode,append_assoc] at h
  obtain ⟨_,hu,hr⟩ := unaryLoop_spec hq h
  rw [toBits_congr (Nat.mod_mod x (2^P)).symm] at hr
  obtain ⟨r2,hre,hf⟩ := read_spec hP (Nat.mod_lt x (Nat.two_pow_pos P)) hr
  refine ⟨r2,?_,hf⟩
  have hd := div_add_mod' x (2^P)
  have hv : ((0+x/2^P) <<< P%2^64+x%2^P)%2^64=x := by
    have hh : x/2^P*2^P%2^64=x/2^P*2^P := mod_eq_of_lt (by omega)
    rw [zero_add,shiftLeft_eq,hh,hd,mod_eq_of_lt hx]
  simp only [golombRiceDecode,hu,hre,ok_bind,pure_ok,hv]
end BitStreamReader

/-- The writer keeps the bits of an incomplete byte in its buffer. -/
structure BitStreamWriter where
  m_ostream : Bytes
  m_buffer : Nat := 0
  m_offset : Nat := 0
  offset_lt : m_offset<8 := by decide

namespace BitStreamWriter
def emptied (m_ostream : Bytes) (m_buffer : Nat) : BitStreamWriter where
  m_ostream := m_ostream++[UInt8.ofNat m_buffer]

def flush (w : BitStreamWriter) : BitStreamWriter :=
  if w.m_offset=0 then w else emptied w.m_ostream w.m_buffer

/- One round of the loop of Write: some of the `nbits` lowest bits go into the buffer, which is
flushed when full. -/
def putBits (w : BitStreamWriter) (data nbits bits : Nat) : BitStreamWriter :=
  let m_buffer := (w.m_buffer ||| ((data <<< (64-nbits))%2^64) >>> (64-8+w.m_offset))%256
  if h : w.m_offset+bits<8 then {w with m_buffer, m_offset := w.m_offset+bits, offset_lt := h}
  else emptied w.m_ostream m_buffer

def writeFrom (w : BitStreamWriter) (data nbits : Nat) : BitStreamWriter :=
  if nbits=0 then w
  else
    let bits := min (8-w.m_offset) nbits
    writeFrom (putBits w data nbits bits) data (nbits-bits)
termination_by nbits
decreasing_by
  have hlt := w.offset_lt
  omega

def write (w : BitStreamWriter) (data nbits : Nat) : Except String BitStreamWriter :=
  if 64<nbits then .error NBITS_ERROR else .ok (writeFrom w data nbits)

structure Holds (w : BitStreamWriter) (bits : List Bool) : Prop where
  written : bits=byteBits w.m_ostream++toBits w.m_offset (w.m_buffer/2^(8-w.m_offset))
  unused : w.m_buffer%2^(8-w.m_offset)=0
  byte : w.m_buffer<256

lemma holds_new (m_ostream : Bytes) : Holds {m_ostream} (byteBits m_ostream) :=
  ⟨(append_nil _).symm,rfl,zero_lt_succ _⟩

lemma shifted_data {o : Nat} (ho : o<8) (hn : nbits≤64) (hb : bits=min (8-o) nbits) :
    ((data <<< (64-nbits))%2^64) >>> (64-8+o)=
      data/2^(nbits-bits)%2^bits*2^(8-o-bits) := by
  apply eq_of_testBit_eq
  intro i
  rw [testBit_shiftRight,testBit_mod_two_pow,testBit_shiftLeft,testBit_mul_two_pow,
    testBit_mod_two_pow,testBit_div_two_pow]
  by_cases hl : 8-o-bits ≤ i
  · by_cases hh : i<8-o
    · rw [decide_eq_true (by omega : 64-8+o+i<64),decide_eq_true (by omega : 64-8+o+i ≥ 64-nbits),
        decide_eq_true hl,decide_eq_true (by omega : i-(8-o-bits)<bits)]
      simp only [Bool.true_and]
      congr 1
      omega
    · rw [decide_eq_false (by omega : ¬64-8+o+i<64),decide_eq_false (by omega : ¬i-(8-o-bits)<bits)]
      simp
  · rw [decide_eq_false hl,decide_eq_false (by omega : ¬64-8+o+i ≥ 64-nbits)]
    simp

variable {w : BitStreamWriter} {wr : List Bool}

lemma Holds.putBits (h : Holds w wr) (data : Nat) (hn : nbits≤64)
    (hbi : bits=min (8-w.m_offset) nbits) :
    Holds (putBits w data nbits bits) (wr++toBits bits (data/2^(nbits-bits))) := by
  have ho := w.offset_lt
  generalize ht : data/2^(nbits-bits)%2^bits=top
  have hto : top<2^bits := ht ▸ Nat.mod_lt _ (Nat.two_pow_pos _)
  have htp : toBits bits (data/2^(nbits-bits))=toBits bits top :=
      toBits_congr (by rw [← ht,mod_mod])
  -- The buffer as the number of its used bits, before and after.
  obtain ⟨u,hu⟩ := dvd_of_mod_eq_zero h.unused
  have hue : w.m_buffer/2^(8-w.m_offset)=u := by
    rw [hu,Nat.mul_div_cancel_left _ (Nat.two_pow_pos _)]
  have hus : u<2^w.m_offset := by
    have hb := h.byte
    rw [hu,show 256=2^(8-w.m_offset)*2^w.m_offset by
      rw [← Nat.pow_add,Nat.sub_add_cancel ho.le]] at hb
    exact Nat.lt_of_mul_lt_mul_left hb
  have hp : 2^(8-w.m_offset)=2^bits*2^(8-w.m_offset-bits) := by
    rw [← Nat.pow_add,Nat.add_sub_cancel' (by omega)]
  have hs : w.m_buffer ||| ((data <<< (64-nbits))%2^64) >>> (64-8+w.m_offset)=
      (u*2^bits+top)*2^(8-(w.m_offset+bits)) := by
    have hpl : top*2^(8-w.m_offset-bits)<2^(8-w.m_offset) := by
      rw [hp]
      exact Nat.mul_lt_mul_of_pos_right hto (Nat.two_pow_pos _)
    rw [shifted_data ho hn hbi,ht,hu,← Nat.two_pow_add_eq_or_of_lt hpl,sub_add_eq,add_mul,hp]
    ring
  have hl : (u*2^bits+top)*2^(8-(w.m_offset+bits))<256 := by
    have hi : u*2^bits+top<2^(w.m_offset+bits) := by
      rw [pow_add]
      have hm := mul_le_mul_right (2^bits) (succ_le_of_lt hus)
      rw [succ_mul] at hm
      omega
    have hm := Nat.mul_lt_mul_of_pos_right hi (Nat.two_pow_pos (8-(w.m_offset+bits)))
    rwa [← Nat.pow_add,Nat.add_sub_cancel' (by omega)] at hm
  have hu' : toBits (w.m_offset+bits) (u*2^bits+top)=toBits w.m_offset u++toBits bits top := by
    rw [toBits_add,Nat.add_comm (u*2^bits),Nat.add_mul_div_right _ _ (Nat.two_pow_pos _),
      Nat.div_eq_of_lt hto,Nat.zero_add,toBits_congr (Nat.add_mul_mod_self_right ..)]
  have ha : wr++toBits bits (data/2^(nbits-bits))=
      byteBits w.m_ostream++toBits (w.m_offset+bits) (u*2^bits+top) := by
    rw [hu',htp,h.written,hue,append_assoc]
  unfold BitStreamWriter.putBits
  rw [hs,mod_eq_of_lt hl]
  dsimp only
  by_cases hr : w.m_offset+bits<8
  · rw [dif_pos hr]
    refine ⟨?_,?_,hl⟩
    · show _=byteBits w.m_ostream++toBits (w.m_offset+bits) _
      rw [Nat.mul_div_cancel _ (Nat.two_pow_pos _)]
      exact ha
    · exact mul_mod_left _ _
  · rw [dif_neg hr]
    have height : w.m_offset+bits=8 := by omega
    rw [height] at ha hl ⊢
    rw [Nat.sub_self,Nat.pow_zero,Nat.mul_one] at hl ⊢
    refine ⟨?_,rfl,Nat.zero_lt_succ _⟩
    show _=byteBits (w.m_ostream++[_])++[]
    rw [ha,byteBits,byteBits,append_nil,flatMap_append,flatMap_singleton,
      UInt8.toNat_ofNat',mod_eq_of_lt (by simpa using hl)]

lemma Holds.writeFrom (h : Holds w wr) (data : Nat) (hnb : nbits≤64) :
    Holds (writeFrom w data nbits) (wr++toBits nbits data) := by
  induction hn : nbits using Nat.strongRecOn generalizing w wr nbits with
  | ind n ih =>
    subst hn
    rw [BitStreamWriter.writeFrom]
    by_cases hz : nbits=0
    · rw [if_pos hz,hz,toBits,append_nil]
      exact h
    rw [if_neg hz]
    dsimp only
    have ho := w.offset_lt
    have hr := h.putBits data hnb rfl
    have hne := ih (nbits-min (8-w.m_offset) nbits) (by omega) hr (by omega) rfl
    rwa [append_assoc,← toBits_add,Nat.add_sub_cancel' (min_le_right _ _)] at hne

lemma Holds.write (h : Holds w wr) (data : Nat) (hn : nbits≤64) :
    ∃ w', w.write data nbits=.ok w' ∧ Holds w' (wr++toBits nbits data) :=
  ⟨_,by rw [BitStreamWriter.write,if_neg (not_lt.mpr hn)],h.writeFrom data hn⟩

lemma Holds.flush (h : Holds w wr) :
    ∃ padding, padding.length<8 ∧ byteBits w.flush.m_ostream=wr++padding := by
  unfold BitStreamWriter.flush
  by_cases hz : w.m_offset=0
  · rw [if_pos hz]
    refine ⟨[],by decide,?_⟩
    rw [h.written,hz,toBits,append_nil,append_nil]
  · rw [if_neg hz]
    have ho := w.offset_lt
    refine ⟨toBits (8-w.m_offset) w.m_buffer,by rw [length_toBits]; omega,?_⟩
    have hb : w.m_buffer%2^8=w.m_buffer := mod_eq_of_lt h.byte
    show byteBits (w.m_ostream++[_])=_
    rw [h.written,append_assoc,← toBits_add,Nat.add_sub_cancel' ho.le,byteBits,
      flatMap_append,flatMap_singleton,UInt8.toNat_ofNat',hb]
    rfl

def writeUnary (w : BitStreamWriter) (q : Nat) : Except String BitStreamWriter :=
  if hq : 0<q then do
    let nbits := if q≤64 then q else 64
    let w ← w.write (2^64-1) nbits
    writeUnary w (q-nbits)
  else .ok w
termination_by q
decreasing_by
  split
  · omega
  · omega

def golombRiceEncode (bitwriter : BitStreamWriter) (P x : Nat) : Except String BitStreamWriter := do
  let bitwriter ← writeUnary bitwriter (x >>> P)
  let bitwriter ← bitwriter.write 0 1
  bitwriter.write x P

lemma Holds.writeUnary (h : Holds w wr) (q : Nat) :
    ∃ w', writeUnary w q=.ok w' ∧ Holds w' (wr++replicate q true) := by
  induction q using Nat.strongRecOn generalizing w wr with
  | ind q ih =>
    rw [BitStreamWriter.writeUnary]
    by_cases hp : 0<q
    · rw [dif_pos hp]
      dsimp only
      generalize hn : (if q≤64 then q else 64)=nbits
      have hnb : nbits≤64 ∧ nbits≤q ∧ 0<nbits := by
        rw [← hn]
        split
        · omega
        · omega
      obtain ⟨_,hw,hh⟩ := h.write (2^64-1) hnb.1
      obtain ⟨w2,hr,hf⟩ := ih (q-nbits) (by omega) hh
      refine ⟨w2,by rw [hw]; exact hr,?_⟩
      rwa [toBits_ones hnb.1,append_assoc,replicate_append_replicate,
          Nat.add_sub_cancel' hnb.2.1] at hf
    · rw [dif_neg hp]
      have hz : q=0 := by omega
      exact ⟨w,rfl,by rwa [hz,replicate_zero,append_nil]⟩

lemma Holds.golombRiceEncode (h : Holds w wr) {P : Nat} (hP : P≤64) (x : Nat) :
    ∃ w', golombRiceEncode w P x=.ok w' ∧ Holds w' (wr++golombRiceCode P x) := by
  obtain ⟨_,hu,h1⟩ := h.writeUnary (x >>> P)
  obtain ⟨_,hs,h2⟩ := h1.write 0 (by decide : 1≤64)
  obtain ⟨w3,hr,h3⟩ := h2.write x hP
  refine ⟨w3,?_,?_⟩
  · simp only [BitStreamWriter.golombRiceEncode,hu,hs,hr,ok_bind]
  · rw [golombRiceCode,← Nat.shiftRight_eq_div_pow]
    simpa [toBits] using h3
end BitStreamWriter
end Xero
