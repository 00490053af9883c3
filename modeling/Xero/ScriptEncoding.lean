import Xero.InterpreterEffects

/-! The encodings of scripts: which signatures are strict DER, which byte strings are script numbers,
and instructions that are written and read back. -/
namespace Xero
open List Option

lemma highBit_iff (b : UInt8) : b &&& 0x80≠0 ↔ 0x80≤b := by
  obtain ⟨v⟩ := b
  revert v
  decide +kernel

/-- The value of a DER INTEGER: not empty, not negative, and with a zero in front only where the
next byte would make it negative. -/
def DerValue : Bytes → Prop
  | [] => False
  | [first] => first<0x80
  | first::second::_ => first<0x80 ∧ (first=0 → 0x80 ≤ second)

/-- The strict DER form of a signature, with the byte of the hash type at its end. -/
def StrictDer (sig : Bytes) : Prop :=
  9 ≤ sig.length ∧ sig.length≤73 ∧ ∃ r s hashType, DerValue r ∧ DerValue s ∧
    sig=0x30::UInt8.ofNat (r.length+s.length+4)::0x02::UInt8.ofNat r.length ::
      (r++0x02::UInt8.ofNat s.length::(s++[hashType]))

lemma derInteger_spec {sig v : Bytes} {tp s : Nat} {t : UInt8} (ht : sig[tp]? = some t)
    (hv : v <+: sig.drop s) :
    ∃ ok, derInteger sig tp s v.length=some ok ∧ (ok ↔ t=0x02 ∧ DerValue v) := by
  obtain ⟨r,hre⟩ := hv
  have hr i : sig[s+i]? = (v++r)[i]? := by rw [hre,getElem?_drop]
  by_cases h2 : t=0x02
  · match v with
    | [] => exact ⟨false,by simp [derInteger,ht,h2],by simp [DerValue]⟩
    | [first] =>
      have hf : sig[s]? = some first := by simpa using hr 0
      refine ⟨!decide (0x80≤first),?_,by simp [h2,DerValue]⟩
      by_cases hh : 0x80≤first <;> simp [derInteger,ht,h2,hf,highBit_iff,hh]
    | first::second::v =>
      have hf : sig[s]? = some first := by simpa using hr 0
      have hs : sig[s+1]? = some second := by simpa using hr 1
      refine ⟨!decide (0x80≤first) && (first != 0 || decide (0x80 ≤ second)),?_,?_⟩
      · have hb : (second &&& 0x80 != 0)=decide (0x80 ≤ second) := by
          rw [Bool.eq_iff_iff,bne_iff_ne,highBit_iff,decide_eq_true_eq]
        by_cases hh : 0x80≤first <;> by_cases hz : first=0 <;>
          simp [derInteger,ht,h2,hf,hs,highBit_iff,hh,hz,hb]
      · simp [h2,DerValue,imp_iff_not_or]
  · exact ⟨false,by simp [derInteger,ht,h2],by simp [h2]⟩

/- The reads of IsValidSignatureEncoding on a signature of an allowed size. -/
lemma readSignatureEncoding_eq {t total tr lr : UInt8} {body : Bytes}
    (hl : 5≤body.length) (hh : body.length≤69) : readSignatureEncoding (t::total::tr::lr::body) =
    if t≠0x30 ∨ total.toNat≠body.length+1 ∨ body.length≤lr.toNat+1 then some false
    else body[lr.toNat+1]?.bind fun ls =>
      if lr.toNat+ls.toNat+3≠body.length then some false
      else (derInteger (t::total::tr::lr::body) 2 4 lr.toNat).bind fun ok =>
        if ok=false then some false
        else derInteger (t::total::tr::lr::body) (lr.toNat+4) (lr.toNat+6) ls.toNat := by
  have hi : (t::total::tr::lr::body)[5+lr.toNat]? = body[lr.toNat+1]? := by
    rw [show 5+lr.toNat=lr.toNat+1+1+1+1+1 by omega]
    rfl
  rw [readSignatureEncoding]
  simp only [hi,length_cons,getElem?_cons_zero,getElem?_cons_succ,
    if_neg (show ¬body.length+1+1+1+1<9 by omega),if_neg (show ¬73<body.length+1+1+1+1 by omega),
    bind_eq_bind,bind_some,ite_or,Bool.not_eq_eq_eq_not,Bool.not_true]
  simp only [show body.length+1+1+1+1-3=body.length+1 by omega,
    show (body.length+1+1+1+1≤5+lr.toNat)=(body.length≤lr.toNat+1) by rw [eq_iff_iff]; omega,
    show ∀ n, (lr.toNat+n+7≠body.length+1+1+1+1)=(lr.toNat+n+3≠body.length) by
      intro n; rw [eq_iff_iff]; omega]
  rfl

/- The two integers between their headers, where the lengths agree. -/
lemma derIntegers_spec (t total tr ts ha : UInt8) {lr ls : UInt8} {r s : Bytes}
    (hr : r.length=lr.toNat) (hs : s.length=ls.toNat) :
    let sig := t::total::tr::lr::(r++ts::ls::(s++[ha]))
    (∃ ok, derInteger sig 2 4 lr.toNat=some ok ∧ (ok ↔ tr=0x02 ∧ DerValue r)) ∧
    ∃ ok, derInteger sig (lr.toNat+4) (lr.toNat+6) ls.toNat=some ok ∧
        (ok ↔ ts=0x02 ∧ DerValue s) := by
  intro sig
  rw [← hr,← hs]
  refine ⟨derInteger_spec rfl ⟨_,rfl⟩,derInteger_spec ?_ ⟨[ha],?_⟩⟩
  · simp [sig]
  · simp [sig,drop_append]

lemma readSignatureEncoding_sound (sig : Bytes) :
    ∃ ok, readSignatureEncoding sig=some ok ∧ (ok → StrictDer sig) := by
  by_cases hsh : sig.length<9
  · exact ⟨false,by simp [readSignatureEncoding,hsh],nofun⟩
  by_cases hl : 73 < sig.length
  · exact ⟨false,by simp [readSignatureEncoding,hsh,hl],nofun⟩
  match sig with
  | [] | [_] | [_,_] | [_,_,_] => simp at hsh
  | t::total::tr::lr::body =>
    simp only [length_cons] at hsh hl
    rw [readSignatureEncoding_eq (by omega) (by omega)]
    split
    · exact ⟨false,rfl,nofun⟩
    rename_i hh
    simp only [not_or,not_not] at hh
    obtain ⟨rfl,ht,hb⟩ := hh
    obtain ⟨r,re,rfl,hr⟩ : ∃ r re, body=r++re ∧ r.length=lr.toNat :=
      ⟨_,_,(take_append_drop lr.toNat body).symm,length_take_of_le (by omega)⟩
    rw [length_append] at hb ht
    match re with
    | [] | [_] => simp only [length_cons,length_nil] at hb; omega
    | ts::ls::tail =>
      have hls : (r++ts::ls::tail)[lr.toNat+1]? = some ls := by simp [← hr]
      rw [hls,bind_some]
      split
      · exact ⟨false,rfl,nofun⟩
      rename_i hle
      simp only [length_append,length_cons] at hle ht hl hsh
      obtain rfl | ⟨s,ha,rfl⟩ := tail.eq_nil_or_concat'
      · simp only [length_nil] at hle
        omega
      simp only [length_append,length_cons,length_nil] at hle ht hl hsh
      have hs : s.length=ls.toNat := by omega
      obtain ⟨⟨okR,ho,hi⟩,o,hos,hif⟩ := derIntegers_spec 0x30 total tr ts ha hr hs
      rw [ho,hos]
      cases okR with
      | false => exact ⟨false,rfl,nofun⟩
      | true =>
        refine ⟨o,rfl,fun hok => ?_⟩
        obtain ⟨rfl,hv⟩ := hi.1 rfl
        obtain ⟨rfl,hvs⟩ := hif.1 hok
        refine ⟨by simp; omega,by simp; omega,r,s,ha,hv,hvs,?_⟩
        rw [show r.length+s.length+4=total.toNat by omega,hr,hs]
        simp

lemma StrictDer.read {sig : Bytes} (h : StrictDer sig) : readSignatureEncoding sig=some true := by
  obtain ⟨hl,hh,r,s,ha,hv,hvs,rfl⟩ := h
  simp only [length_cons,length_append,length_nil] at hl hh
  have hb {n} (hn : n≤70) : (UInt8.ofNat n).toNat=n := by
    rw [UInt8.toNat_ofNat',Nat.mod_eq_of_lt (by omega)]
  have hr := hb (show r.length≤70 by omega)
  have hs := hb (show s.length≤70 by omega)
  obtain ⟨⟨_,ho,hi⟩,_,hok,hif⟩ := derIntegers_spec 0x30
    (UInt8.ofNat (r.length+s.length+4)) 0x02 0x02 ha hr.symm hs.symm
  rw [readSignatureEncoding_eq (by simp; omega) (by simp; omega),if_neg]
  · have hls : (r++0x02::UInt8.ofNat s.length::(s++[ha]))[(UInt8.ofNat r.length).toNat+1]? =
        some (UInt8.ofNat s.length) := by simp [hr]
    rw [hls,bind_some,if_neg (by simp [hr,hs]; omega),ho,hok,hi.2 ⟨rfl,hv⟩,hif.2 ⟨rfl,hvs⟩]
    rfl
  · simp
    omega

/-- IsValidSignatureEncoding reads nothing beyond the end and accepts exactly strict DER. -/
theorem isValidSignatureEncoding_iff (sig : Bytes) : (readSignatureEncoding sig).isSome ∧
    (isValidSignatureEncoding sig ↔ StrictDer sig) := by
  obtain ⟨_,ho,hs⟩ := readSignatureEncoding_sound sig
  rw [isValidSignatureEncoding,ho]
  exact ⟨rfl,hs,fun h => some.inj (ho.symm.trans h.read)⟩
end Xero
