import Xero.Interpreter
import Xero.Library.Codec

/-! The stream format of numbers, sizes and vectors. -/
namespace Xero
open Library Int

def MAX_SIZE : Nat := 0x02000000

/-- An error is the text of the failure that is thrown. -/
abbrev DataStream (α : Type) := Reader String α

def END_OF_DATA : String := "DataStream::read(): end of data"

variable (width : Nat)

/-- ser_readdata8 and its variants for wider types. -/
def serReaddata : DataStream Nat := readLittleEndian END_OF_DATA width

def serWritedata (obj : Nat) : Bytes := toLittleEndian width obj

lemma codec_serReaddata : Codec (serReaddata width) (serWritedata width) (fun v => v<256^width) :=
  codec_readLittleEndian END_OF_DATA width

/- Signed numbers are stored as the unsigned ones of their width. -/
def readSigned : DataStream Int := do
  let obj ← serReaddata width
  pure ((obj : Int).bmod (256^width))

def writeSigned (obj : Int) : Bytes :=
  serWritedata width (obj%(256^width : Nat)).toNat

lemma codec_readSigned (hw : 0<width) : Codec (readSigned width) (writeSigned width)
      (fun v => -((256^width : Nat) : Int)≤2*v ∧ 2*v<(256^width : Nat)) := by
  obtain ⟨k,_⟩ : ∃ k, 256^width=2*k := by
    obtain ⟨n,rfl⟩ := Nat.exists_eq_succ_of_ne_zero hw.ne'
    exact ⟨256^n*128,by rw [pow_succ]; omega⟩
  have hp : 0<256^width := Nat.pow_pos (by decide)
  refine (codec_serReaddata width).map (fun v hv => ?_) fun n hn => ?_
  · have hnn : 0≤v%(256^width : Nat) := emod_nonneg v (by omega)
    refine ⟨by omega,?_⟩
    rw [toNat_of_nonneg hnn,emod_bmod]
    exact bmod_eq_of_le (by omega) (by omega)
  · have hl := le_bmod (x := n) hp
    have hlt := bmod_lt (x := n) hp
    refine ⟨⟨by omega,by omega⟩,?_⟩
    rw [bmod_emod,emod_eq_of_lt (by omega) (by omega)]
    rfl

lemma writeLE_eq (obj : Nat) : writeLE width obj=serWritedata width obj := by
  induction width generalizing obj with
  | zero => rfl
  | succ n ih =>
    have hb : UInt8.ofNat (obj%256)=UInt8.ofNat obj := by
      rw [← UInt8.toNat_inj,UInt8.toNat_ofNat',UInt8.toNat_ofNat']
      omega
    unfold writeLE serWritedata toLittleEndian
    rw [hb,ih (obj/256)]
    rfl

/- A number of the given width that a narrower form could not hold. -/
def readWide (least : Nat) : DataStream Nat := do
  let nSizeRet ← serReaddata width
  if decide (nSizeRet<least) then throw "non-canonical ReadCompactSize()" else pure nSizeRet

def readCompactSizeForm (chSize : Nat) : DataStream Nat :=
  if chSize<253 then pure chSize
  else if chSize=253 then readWide 2 253
  else if chSize=254 then readWide 4 0x10000
  else readWide 8 0x100000000
def readCompactSize (rangeCheck : Bool) : DataStream Nat := do
  let nSizeRet ← serReaddata 1 >>= readCompactSizeForm
  if rangeCheck && decide (MAX_SIZE<nSizeRet) then throw "ReadCompactSize(): size too large"
  else pure nSizeRet

/- The first byte of a compact size, and what follows it. -/
def compactSizeForm (nSize : Nat) : Nat :=
  if nSize<253 then nSize else if nSize≤0xffff then 253 else if nSize≤0xffffffff then 254 else 255

def compactSizeRest (nSize : Nat) : Bytes :=
  if nSize<253 then [] else if nSize≤0xffff then serWritedata 2 nSize
  else if nSize≤0xffffffff then serWritedata 4 nSize else serWritedata 8 nSize

lemma writeCompactSize_eq (ns : Nat) :
    writeCompactSize ns=serWritedata 1 (compactSizeForm ns)++compactSizeRest ns := by
  unfold writeCompactSize compactSizeForm compactSizeRest
  simp only [writeLE_eq]
  split_ifs
  · rw [List.append_nil]
  · rfl
  · rfl
  · rfl

lemma codec_readWide (l : Nat) :
    Codec (readWide width l) (serWritedata width) (fun v => l≤v ∧ v<256^width) := by
  refine (codec_serReaddata width).check.congr (fun _ _ => rfl) fun v => ?_
  rw [decide_eq_false_iff_not,not_lt]
  exact and_comm

lemma codec_readCompactSizeForm {cs : Nat} (h : cs<256) :
    Codec (readCompactSizeForm cs) compactSizeRest
      (fun v => v<2^64 ∧ compactSizeForm v=cs) := by
  unfold readCompactSizeForm compactSizeRest compactSizeForm
  by_cases h1 : cs<253
  · rw [if_pos h1]
    refine (Codec.pure cs).congr (fun v hv => ?_) fun v => ?_
    · split_ifs at hv ⊢ <;> first | rfl | omega
    · split_ifs <;> omega
  · rw [if_neg h1]
    by_cases h2 : cs=253
    · rw [if_pos h2]
      refine (codec_readWide 2 253).congr (fun v hv => ?_) fun v => ?_
      · split_ifs at hv ⊢ <;> first | rfl | omega
      · split_ifs <;> omega
    · rw [if_neg h2]
      by_cases h3 : cs=254
      · rw [if_pos h3]
        refine (codec_readWide 4 0x10000).congr (fun v hv => ?_) fun v => ?_
        · split_ifs at hv ⊢ <;> first | rfl | omega
        · split_ifs <;> omega
      · rw [if_neg h3]
        refine (codec_readWide 8 0x100000000).congr (fun v hv => ?_) fun v => ?_
        · split_ifs at hv ⊢ <;> first | rfl | omega
        · split_ifs <;> omega

lemma codec_readCompactSize (rc : Bool) : Codec (readCompactSize rc) writeCompactSize
      (fun v => v<2^64 ∧ (rc → v≤MAX_SIZE)) := by
  have hf : Codec (serReaddata 1 >>= readCompactSizeForm) writeCompactSize (fun v => v<2^64) := by
    refine ((codec_serReaddata 1).bind fun c h => codec_readCompactSizeForm h).congr
      (fun v _ => writeCompactSize_eq v) fun v => ?_
    have hb : compactSizeForm v<256^1 := by
      unfold compactSizeForm
      split_ifs <;> omega
    exact ⟨fun h => ⟨hb,h⟩,fun h => h.2⟩
  refine hf.check.congr (fun _ _ => rfl) fun v => and_congr_right fun _ => ?_
  cases rc with
  | false => simp
  | true => simp

lemma codec_readSize : Codec (readCompactSize true) writeCompactSize (fun v => v≤MAX_SIZE) := by
  refine (codec_readCompactSize true).congr (fun _ _ => rfl) fun v => ?_
  unfold MAX_SIZE
  exact ⟨fun h => ⟨by omega,fun _ => h⟩,fun h => h.2 rfl⟩

section
variable {α : Type}

/-- VectorFormatter. Its batches only limit how much is allocated ahead. -/
def unserializeVector (unser : DataStream α) : DataStream (List α) := do
  let size ← readCompactSize true
  readMany unser size

def serializeVector (ser : α → Bytes) (v : List α) : Bytes :=
  writeCompactSize v.length++v.flatMap ser

lemma codec_unserializeVector {u : DataStream α} {ser : α → Bytes} {va : α → Prop}
    (h : Codec u ser va) : Codec (unserializeVector u) (serializeVector ser)
      (fun v => v.length≤MAX_SIZE ∧ ∀ a∈v, va a) := by
  exact codec_readSize.bind fun s _ => codec_readMany h s

/-- Vectors of bytes are one blob. -/
def unserializeBytes : DataStream Bytes := do
  let nSize ← readCompactSize true
  readBytes END_OF_DATA nSize

def serializeBytes (v : Bytes) : Bytes := writeCompactSize v.length++v

lemma codec_unserializeBytes : Codec unserializeBytes serializeBytes (fun v =>
    v.length≤MAX_SIZE) := by
  have hb : ∀ s, Codec (readBytes END_OF_DATA s) (fun v => v) (fun v => True ∧
      v.length=s) := fun s =>
    (codec_readBytes END_OF_DATA s).congr (fun _ _ => rfl) fun v => by rw [true_and]
  refine (codec_readSize.bind fun s _ => hb s).congr (fun _ _ => rfl) fun v => ?_
  rw [and_true]
end
end Xero
