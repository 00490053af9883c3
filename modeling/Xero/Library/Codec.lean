import Mathlib.Data.List.Basic
import Mathlib.Tactic.Ring

/-! Readers of a byte stream and the writers they invert: what is written is read back whatever
follows it, and what is read is exactly what would be written. -/
namespace Xero.Library
open List
variable {ε α β γ : Type}

abbrev Reader (ε α : Type) := StateT (List UInt8) (Except ε) α

lemma reader_bind_eq_ok {g : Reader ε α} {f : α → Reader ε β} {bs r : List UInt8} {b : β} :
    (g >>= f) bs=.ok (b,r) ↔
      ∃ a mid, g bs=.ok (a,mid) ∧ f a mid=.ok (b,r) := by
  change (g bs >>= fun p => f p.1 p.2)=.ok (b,r) ↔ _
  cases h : g bs with
  | error e => simp [bind,Except.bind]
  | ok p =>
    obtain ⟨a,mid⟩ := p
    simp [bind,Except.bind]

lemma reader_bind_of_ok {g : Reader ε α} {f : α → Reader ε β} {bs mid : List UInt8} {a : α}
    (h : g bs=.ok (a,mid)) : (g >>= f) bs=f a mid := by
  change (g bs >>= fun p => f p.1 p.2)=_
  rw [h]
  rfl

/-- What `put` writes of a valid value is read back by `get`, whatever follows it. -/
def ReadsBack (get : Reader ε α) (put : α → List UInt8) (valid : α → Prop) : Prop :=
  ∀ a rest, valid a → get (put a++rest)=.ok (a,rest)

/-- `get` reads exactly what `put` writes, for the values in `valid`. -/
structure Codec (get : Reader ε α) (put : α → List UInt8) (valid : α → Prop) : Prop where
  reads : ReadsBack get put valid
  canonical : ∀ bytes a rest, get bytes=.ok (a,rest) → valid a ∧ put a++rest=bytes

namespace Codec
variable {get : Reader ε α} {put pu' : α → List UInt8} {va va' : α → Prop}

lemma congr (h : Codec get put va) (hp : ∀ a, va' a → pu' a=put a)
    (hv : ∀ a, va' a ↔ va a) : Codec get pu' va' := by
  constructor
  · intro a r ha
    rw [hp a ha]
    exact h.reads a r ((hv a).mp ha)
  · intro b a r hg
    obtain ⟨ha,hb⟩ := h.canonical b a r hg
    have ha' := (hv a).mpr ha
    rw [hp a ha']
    exact ⟨ha',hb⟩

lemma pure (a : α) : Codec (Pure.pure a : Reader ε α) (fun _ => []) (fun b => b=a) := by
  constructor
  · rintro b r rfl
    rfl
  · intro _ b r h
    cases h
    exact ⟨rfl,rfl⟩

lemma bind {g : α → Reader ε β} {p2 : β → List UInt8} {v2 : β → Prop} {p : β → α}
    (h : Codec get put va) (h2 : ∀ a, va a → Codec (g a) p2 (fun b => v2 b ∧ p b=a)) :
    Codec (get >>= g) (fun b => put (p b)++p2 b) (fun b => va (p b) ∧ v2 b) := by
  constructor
  · intro b r hb
    rw [append_assoc,reader_bind_of_ok (h.reads _ _ hb.1)]
    exact (h2 (p b) hb.1).reads b r ⟨hb.2,rfl⟩
  · intro bt b r hg
    obtain ⟨a,m,hf,hs⟩ := reader_bind_eq_ok.mp hg
    obtain ⟨ha,hby⟩ := h.canonical bt a m hf
    obtain ⟨⟨hb,hp⟩,hm⟩ := (h2 a ha).canonical m b r hs
    rw [hp]
    refine ⟨⟨ha,hb⟩,?_⟩
    rw [append_assoc,hm,hby]

lemma check {bad : α → Bool} {e : ε} (h : Codec get put va) :
    Codec (get >>= fun a => if bad a then throw e else Pure.pure a) put
      (fun a => va a ∧ bad a=false) := by
  constructor
  · intro a r ha
    rw [reader_bind_of_ok (h.reads a r ha.1),ha.2]
    rfl
  · intro bt a r hg
    obtain ⟨b,_,hf,hs⟩ := reader_bind_eq_ok.mp hg
    cases hb : bad b with
    | true =>
      rw [hb] at hs
      cases hs
    | false =>
      rw [hb] at hs
      cases hs
      obtain ⟨ha,hby⟩ := h.canonical bt a r hf
      exact ⟨⟨ha,hb⟩,hby⟩

lemma map {v2 : β → Prop} {f : α → β} {f' : β → α} (h : Codec get put va)
    (hba : ∀ b, v2 b → va (f' b) ∧ f (f' b)=b) (hf : ∀ a, va a → v2 (f a) ∧ f' (f a)=a) :
    Codec (get >>= fun a => Pure.pure (f a)) (fun b => put (f' b)) v2 := by
  constructor
  · intro b r hb
    rw [reader_bind_of_ok (h.reads _ r (hba b hb).1),(hba b hb).2]
    rfl
  · intro bt b r hg
    obtain ⟨a,_,hfs,hs⟩ := reader_bind_eq_ok.mp hg
    cases hs
    obtain ⟨ha,hby⟩ := h.canonical bt a r hfs
    obtain ⟨hb,hfa⟩ := hf a ha
    exact ⟨hb,by rw [hfa,hby]⟩
end Codec

def readBytes (e : ε) (n : Nat) : Reader ε (List UInt8) := fun bytes =>
  if bytes.length<n then .error e else .ok (bytes.take n,bytes.drop n)

lemma codec_readBytes (e : ε) (n : Nat) :
    Codec (readBytes e n) (fun bytes => bytes) (fun bytes => bytes.length=n) := by
  constructor
  · intro a r ha
    have hl : ¬(a++r).length<n := by
      rw [length_append]
      omega
    unfold readBytes
    rw [if_neg hl,take_left' ha,drop_left' ha]
  · intro bytes a r h
    unfold readBytes at h
    by_cases hs : bytes.length<n
    · rw [if_pos hs] at h
      cases h
    · rw [if_neg hs] at h
      cases h
      refine ⟨?_,take_append_drop n bytes⟩
      rw [length_take]
      omega

def readMany (get : Reader ε α) : Nat → Reader ε (List α)
  | 0 => Pure.pure []
  | n+1 => get >>= fun a => readMany get n >>= fun as => Pure.pure (a::as)

/-- Records written one after the other are read back one by one. -/
lemma ReadsBack.many {get : Reader ε α} {put : α → List UInt8} {v : α → Prop}
    (h : ReadsBack get put v) (as : List α) (r : List UInt8) (has : ∀ a∈as, v a) :
    readMany get as.length (as.flatMap put++r)=.ok (as,r) := by
  induction as with
  | nil => rfl
  | cons a as ih =>
    obtain ⟨ha,ht⟩ := forall_mem_cons.mp has
    rw [length_cons,readMany,flatMap_cons,append_assoc,
      reader_bind_of_ok (h a _ ha),reader_bind_of_ok (ih ht)]
    rfl

lemma codec_readMany {get : Reader ε α} {put : α → List UInt8} {v : α → Prop}
    (h : Codec get put v) (n : Nat) :
    Codec (readMany get n) (fun as => as.flatMap put)
      (fun as => (∀ a∈as, v a) ∧ as.length=n) := by
  constructor
  · intro as r has
    rw [← has.2]
    exact h.reads.many as r has.1
  · intro b as r hg
    induction n generalizing b as with
    | zero =>
      cases hg
      exact ⟨⟨fun a ha => absurd ha not_mem_nil,rfl⟩,rfl⟩
    | succ n ih =>
      obtain ⟨a,m,hf,hs⟩ := reader_bind_eq_ok.mp hg
      obtain ⟨t,_,hm,hl⟩ := reader_bind_eq_ok.mp hs
      cases hl
      obtain ⟨ha,hb⟩ := h.canonical b a m hf
      obtain ⟨⟨ht,hle⟩,hmi⟩ := ih m t hm
      refine ⟨⟨forall_mem_cons.mpr ⟨ha,ht⟩,congrArg (·+1) hle⟩,?_⟩
      rw [flatMap_cons,append_assoc,hmi,hb]

def toLittleEndian : Nat → Nat → List UInt8
  | 0, _ => []
  | n+1, v => UInt8.ofNat v::toLittleEndian n (v/256)
def ofLittleEndian : List UInt8 → Nat
  | [] => 0
  | b::bytes => b.toNat+256*ofLittleEndian bytes

lemma length_toLittleEndian (n v : Nat) : (toLittleEndian n v).length=n := by
  induction n generalizing v with
  | zero => rfl
  | succ n ih => exact congrArg (·+1) (ih (v/256))

lemma ofLittleEndian_toLittleEndian (n v : Nat) (h : v<256^n) :
    ofLittleEndian (toLittleEndian n v)=v := by
  induction n generalizing v with
  | zero =>
    rw [pow_zero,Nat.lt_one_iff] at h
    exact h.symm
  | succ n ih =>
    have hd : v/256<256^n := by
      exact Nat.div_lt_of_lt_mul (by rwa [Nat.mul_comm])
    unfold toLittleEndian ofLittleEndian
    rw [ih (v/256) hd,UInt8.toNat_ofNat']
    omega

lemma toLittleEndian_ofLittleEndian (bytes : List UInt8) :
    toLittleEndian bytes.length (ofLittleEndian bytes)=bytes ∧
      ofLittleEndian bytes<256^bytes.length := by
  induction bytes with
  | nil => exact ⟨rfl,Nat.one_pos⟩
  | cons b bytes ih =>
    have hb := b.toNat_lt
    have hd : (b.toNat+256*ofLittleEndian bytes)/256=ofLittleEndian bytes := by omega
    have hm : UInt8.ofNat (b.toNat+256*ofLittleEndian bytes)=b := by
      apply UInt8.toNat_inj.mp
      rw [UInt8.toNat_ofNat']
      omega
    unfold ofLittleEndian
    constructor
    · rw [length_cons,toLittleEndian,hd,ih.1,hm]
    · rw [length_cons]
      omega

def readLittleEndian (e : ε) (n : Nat) : Reader ε Nat :=
  readBytes e n >>= fun bytes => Pure.pure (ofLittleEndian bytes)

lemma codec_readLittleEndian (e : ε) (n : Nat) :
    Codec (readLittleEndian e n) (toLittleEndian n) (fun v => v<256^n) := by
  refine (codec_readBytes e n).map (fun v hv => ?_) fun bytes hby => ?_
  · exact ⟨length_toLittleEndian n v,ofLittleEndian_toLittleEndian n v hv⟩
  · obtain ⟨hb,hl⟩ := toLittleEndian_ofLittleEndian bytes
    rw [hby] at hb hl
    exact ⟨hl,hb⟩
end Xero.Library
