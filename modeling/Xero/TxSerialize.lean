import Xero.Serialize

/-! The serialization of transactions, with and without witnesses. -/
namespace Xero
open Library List

/-- A transaction as it is read from a stream, without the hashes that CTransaction caches. -/
structure MutableTransaction where
  nVersion : Int
  vin : List TxIn
  vout : List TxOut
  nLockTime : Nat
  deriving DecidableEq, Repr

def OutPoint.serialize (o : OutPoint) : Bytes := serWritedata 32 o.hash++serWritedata 4 o.n
def OutPoint.unserialize : DataStream OutPoint := do
  let hash ← serReaddata 32
  let n ← serReaddata 4
  pure ⟨hash,n⟩
def TxIn.serialize (txin : TxIn) : Bytes :=
  txin.prevout.serialize++serializeBytes txin.scriptSig++serWritedata 4 txin.nSequence

/- The witness is only serialized with the whole transaction. -/
def TxIn.unserialize : DataStream TxIn := do
  let prevout ← OutPoint.unserialize
  let scriptSig ← unserializeBytes
  let nSequence ← serReaddata 4
  pure ⟨prevout,scriptSig,nSequence,[]⟩

def TxOut.serialize (txout : TxOut) : Bytes :=
  writeSigned 8 txout.nValue++serializeBytes txout.scriptPubKey
def TxOut.unserialize : DataStream TxOut := do
  let nValue ← readSigned 8
  let scriptPubKey ← unserializeBytes
  pure ⟨nValue,scriptPubKey⟩
def OutPoint.Valid (o : OutPoint) : Prop := o.hash<256^32 ∧ o.n<256^4

lemma OutPoint.codec : Codec unserialize serialize OutPoint.Valid := by
  constructor
  · intro o r h
    unfold unserialize serialize
    rw [append_assoc,reader_bind_of_ok ((codec_serReaddata 32).reads _ _ h.1),
      reader_bind_of_ok ((codec_serReaddata 4).reads _ _ h.2)]
    rfl
  · intro _ o r h
    obtain ⟨_,_,h1,h⟩ := reader_bind_eq_ok.mp h
    obtain ⟨n,_,h2,h⟩ := reader_bind_eq_ok.mp h
    cases h
    obtain ⟨hh,rfl⟩ := (codec_serReaddata 32).canonical _ _ _ h1
    obtain ⟨hn,rfl⟩ := (codec_serReaddata 4).canonical _ _ _ h2
    exact ⟨⟨hh,hn⟩,append_assoc ..⟩

/-- An input with fields in the range of their types, a script within MAX_SIZE and no witness. -/
structure TxIn.Bare (txin : TxIn) : Prop where
  prevout : txin.prevout.Valid
  scriptSig : txin.scriptSig.length≤MAX_SIZE
  nSequence : txin.nSequence<256^4
  scriptWitness : txin.scriptWitness=[]

lemma TxIn.codec : Codec TxIn.unserialize TxIn.serialize TxIn.Bare := by
  constructor
  · intro t r h
    unfold TxIn.unserialize TxIn.serialize
    rw [append_assoc,append_assoc,reader_bind_of_ok (OutPoint.codec.reads _ _ h.prevout),
      reader_bind_of_ok (codec_unserializeBytes.reads _ _ h.scriptSig),
      reader_bind_of_ok ((codec_serReaddata 4).reads _ _ h.nSequence),← h.scriptWitness]
    rfl
  · intro _ t r h
    obtain ⟨p,_,h1,h⟩ := reader_bind_eq_ok.mp h
    obtain ⟨s,_,h2,h⟩ := reader_bind_eq_ok.mp h
    obtain ⟨n,_,h3,h⟩ := reader_bind_eq_ok.mp h
    cases h
    obtain ⟨hp,rfl⟩ := OutPoint.codec.canonical _ _ _ h1
    obtain ⟨hs,rfl⟩ := codec_unserializeBytes.canonical _ _ _ h2
    obtain ⟨hse,rfl⟩ := (codec_serReaddata 4).canonical _ _ _ h3
    refine ⟨⟨hp,hs,hse,rfl⟩,?_⟩
    unfold TxIn.serialize
    rw [append_assoc,append_assoc]

structure TxOut.Valid (txout : TxOut) : Prop where
  nValue : -((256^8 : Nat) : Int)≤2*txout.nValue ∧ 2*txout.nValue<(256^8 : Nat)
  scriptPubKey : txout.scriptPubKey.length≤MAX_SIZE

lemma TxOut.codec : Codec TxOut.unserialize TxOut.serialize TxOut.Valid := by
  constructor
  · intro t r h
    unfold TxOut.unserialize TxOut.serialize
    rw [append_assoc,reader_bind_of_ok ((codec_readSigned _ (by decide)).reads _ _ h.nValue),
      reader_bind_of_ok (codec_unserializeBytes.reads _ _ h.scriptPubKey)]
    rfl
  · intro _ t r h
    obtain ⟨n,_,h1,h⟩ := reader_bind_eq_ok.mp h
    obtain ⟨s,_,h2,h⟩ := reader_bind_eq_ok.mp h
    cases h
    obtain ⟨hv,rfl⟩ := (codec_readSigned _ (by decide)).canonical _ _ _ h1
    obtain ⟨hs,rfl⟩ := codec_unserializeBytes.canonical _ _ _ h2
    exact ⟨⟨hv,hs⟩,append_assoc ..⟩

namespace MutableTransaction
variable (vin : List TxIn)

def hasWitness : Bool := vin.any fun txin => !txin.scriptWitness.isEmpty

def unserializeWitnesses : List TxIn → DataStream (List TxIn)
  | [] => pure []
  | txin::vin => do
    let stack ← unserializeVector unserializeBytes
    let vin ← unserializeWitnesses vin
    pure ({txin with scriptWitness := stack}::vin)
def serializeWitnesses : Bytes :=
  vin.flatMap fun txin => serializeVector serializeBytes txin.scriptWitness

variable (fAllowWitness : Bool)

/- The inputs and outputs with the flags in front of them. -/
def unserializeBody : DataStream (UInt8×List TxIn×List TxOut) := do
  let vin ← unserializeVector TxIn.unserialize
  if vin.isEmpty && fAllowWitness then do
    let flags := UInt8.ofNat (← serReaddata 1)
    if flags≠0 then do
      let vin ← unserializeVector TxIn.unserialize
      let vout ← unserializeVector TxOut.unserialize
      pure (flags,vin,vout)
    else pure (flags,[],[])
  else do
    let vout ← unserializeVector TxOut.unserialize
    pure (0,vin,vout)

def unserializeFlagged (flags : UInt8) (vin : List TxIn) : DataStream (UInt8×List TxIn) :=
  if flags &&& 1≠0 && fAllowWitness then do
    let vin ← unserializeWitnesses vin
    if !hasWitness vin then throw "Superfluous witness record"
    else pure (flags ^^^ 1,vin)
  else pure (flags,vin)

def unserialize : DataStream MutableTransaction := do
  let nVersion ← readSigned 4
  let (flags,vin,vout) ← unserializeBody fAllowWitness
  let (flags,vin) ← unserializeFlagged fAllowWitness flags vin
  if flags≠0 then throw "Unknown transaction optional data"
  else do
    let nLockTime ← serReaddata 4
    pure ⟨nVersion,vin,vout,nLockTime⟩

def serialize (tx : MutableTransaction) : Bytes :=
  let flags : UInt8 := if fAllowWitness && hasWitness tx.vin then 1 else 0
  writeSigned 4 tx.nVersion++
    (if flags≠0 then serializeVector TxIn.serialize []++serWritedata 1 flags.toNat else [])++
    serializeVector TxIn.serialize tx.vin++serializeVector TxOut.serialize tx.vout++
    (if flags &&& 1≠0 then serializeWitnesses tx.vin else [])++
    serWritedata 4 tx.nLockTime

def strip (txin : TxIn) : TxIn := {txin with scriptWitness := []}
def StackValid (stack : List Bytes) : Prop :=
  stack.length≤MAX_SIZE ∧ ∀ item∈stack, item.length≤MAX_SIZE

lemma codec_stack : Codec (unserializeVector unserializeBytes) (serializeVector serializeBytes)
    StackValid :=
  codec_unserializeVector codec_unserializeBytes

lemma codec_unserializeWitnesses (b : List TxIn) : Codec (unserializeWitnesses b) serializeWitnesses
      (fun vin => (∀ txin∈vin, StackValid txin.scriptWitness) ∧
        vin.map strip=b.map strip) := by
  induction b with
  | nil =>
    refine (Codec.pure []).congr (fun vin hv => ?_) fun vin => ?_
    · rw [map_eq_nil_iff.mp hv.2]
      rfl
    · rw [map_nil,map_eq_nil_iff]
      refine ⟨fun h => h.2,fun h => ⟨fun txin htx => ?_,h⟩⟩
      rw [h] at htx
      exact absurd htx not_mem_nil
  | cons txin b ih =>
    constructor
    · intro vin r hv
      cases vin with
      | nil => cases hv.2
      | cons f vin =>
        obtain ⟨hf,ht⟩ := forall_mem_cons.mp hv.1
        obtain ⟨hst,hm⟩ := cons.inj hv.2
        have hs : {txin with scriptWitness := f.scriptWitness}=f := by
          have hfi := congrArg (fun y : TxIn => {y with scriptWitness := f.scriptWitness}) hst
          exact hfi.symm
        have hw : serializeWitnesses (f::vin)=
            serializeVector serializeBytes f.scriptWitness++serializeWitnesses vin := rfl
        unfold unserializeWitnesses
        rw [hw,append_assoc,reader_bind_of_ok (codec_stack.reads _ _ hf),
          reader_bind_of_ok (ih.reads vin r ⟨ht,hm⟩),hs]
        rfl
    · intro _ vin r h
      obtain ⟨_,_,h1,h⟩ := reader_bind_eq_ok.mp h
      obtain ⟨_,_,h2,h⟩ := reader_bind_eq_ok.mp h
      cases h
      obtain ⟨hsk,rfl⟩ := codec_stack.canonical _ _ _ h1
      obtain ⟨⟨ht,hm⟩,rfl⟩ := ih.canonical _ _ _ h2
      refine ⟨⟨forall_mem_cons.mpr ⟨hsk,ht⟩,?_⟩,?_⟩
      · rw [map_cons,hm]
        rfl
      · unfold serializeWitnesses
        rw [flatMap_cons,append_assoc]

abbrev serializeVin : Bytes := serializeVector TxIn.serialize vin
abbrev serializeVout (vout : List TxOut) : Bytes := serializeVector TxOut.serialize vout

lemma codec_vin : Codec (unserializeVector TxIn.unserialize) serializeVin
    (fun vin => vin.length≤MAX_SIZE ∧ ∀ txin∈vin, txin.Bare) :=
  codec_unserializeVector TxIn.codec

lemma codec_vout : Codec (unserializeVector TxOut.unserialize) serializeVout
    (fun vout => vout.length≤MAX_SIZE ∧ ∀ txout∈vout, txout.Valid) :=
  codec_unserializeVector TxOut.codec

lemma serializeVin_strip : serializeVin (vin.map strip)=serializeVin vin := by
  unfold serializeVin serializeVector
  rw [length_map,flatMap_map]
  rfl

variable {fAllowWitness : Bool}

lemma unserializeBody_canonical {bytes r : Bytes} {fl : UInt8} {vin : List TxIn} {v : List TxOut}
    (h : unserializeBody fAllowWitness bytes=.ok ((fl,vin,v),r)) :
    (∀ txin∈vin, txin.Bare) ∧
      (fl=0 ∧ bytes=serializeVin vin++(serializeVout v++r) ∨
        fAllowWitness ∧ fl≠0 ∧ bytes=serializeVin []++(serWritedata 1 fl.toNat++
          (serializeVin vin++(serializeVout v++r)))) := by
  obtain ⟨f,_,h1,h'⟩ := reader_bind_eq_ok.mp h
  obtain ⟨⟨-,hfs⟩,rfl⟩ := codec_vin.canonical _ _ _ h1
  by_cases hd : (f.isEmpty && fAllowWitness)
  · rw [if_pos hd] at h'
    rw [Bool.and_eq_true,List.isEmpty_iff] at hd
    obtain ⟨n,m',h2,hb⟩ := reader_bind_eq_ok.mp h'
    obtain ⟨_,rfl⟩ := (codec_serReaddata 1).canonical _ _ _ h2
    have hby : (UInt8.ofNat n).toNat=n := by
      rw [UInt8.toNat_ofNat']
      omega
    rw [hd.1]
    by_cases hf : UInt8.ofNat n≠0
    · rw [if_pos hf] at hb
      obtain ⟨_,_,h3,hv⟩ := reader_bind_eq_ok.mp hb
      obtain ⟨v',_,h4,he⟩ := reader_bind_eq_ok.mp hv
      cases he
      obtain ⟨⟨-,hvi⟩,rfl⟩ := codec_vin.canonical _ _ _ h3
      obtain ⟨-,rfl⟩ := codec_vout.canonical _ _ _ h4
      refine ⟨hvi,.inr ⟨hd.2,hf,?_⟩⟩
      rw [hby]
    · rw [if_neg hf] at hb
      cases hb
      refine ⟨fun txin ht => absurd ht not_mem_nil,.inl ⟨not_not.mp hf,?_⟩⟩
      have hz : n=0 := by
        rw [← hby,not_not.mp hf]
        rfl
      rw [hz]
      rfl
  · rw [if_neg hd] at h'
    obtain ⟨v',m',h2,he⟩ := reader_bind_eq_ok.mp h'
    cases he
    obtain ⟨-,rfl⟩ := codec_vout.canonical _ _ _ h2
    exact ⟨hfs,.inl ⟨rfl,rfl⟩⟩

lemma hasWitness_of_bare {vin : List TxIn} (h : ∀ txin∈vin, txin.scriptWitness=[]) :
    hasWitness vin=false := by
  unfold hasWitness
  rw [any_eq_false]
  intro txin ht
  rw [h txin ht]
  decide

variable {tx : MutableTransaction}

lemma serialize_of_not_hasWitness (h : (fAllowWitness && hasWitness tx.vin)=false) :
    tx.serialize fAllowWitness=writeSigned 4 tx.nVersion++(serializeVin tx.vin++
      (serializeVout tx.vout++serWritedata 4 tx.nLockTime)) := by
  unfold serialize
  rw [h]
  simp

lemma serialize_of_hasWitness (h : hasWitness tx.vin) :
    tx.serialize true=writeSigned 4 tx.nVersion++(serializeVin []++(serWritedata 1 1++
      (serializeVin tx.vin++(serializeVout tx.vout++(serializeWitnesses tx.vin++
        serWritedata 4 tx.nLockTime))))) := by
  unfold serialize
  rw [h]
  simp

lemma eq_one_of_flags {fl : UInt8} (h : fl ^^^ 1=0) : fl=1 := by
  exact UInt8.xor_eq_zero_iff.mp h

lemma unserialize_canonical {bytes r : Bytes} (h : unserialize fAllowWitness bytes=.ok (tx,r)) :
    tx.serialize fAllowWitness++r=bytes := by
  obtain ⟨_,_,h1,hb⟩ := reader_bind_eq_ok.mp h
  obtain ⟨⟨f,vin,_⟩,_,h2,hw⟩ := reader_bind_eq_ok.mp hb
  obtain ⟨⟨f',v'⟩,_,h3,hf⟩ := reader_bind_eq_ok.mp hw
  obtain ⟨-,rfl⟩ := (codec_readSigned _ (by decide)).canonical _ _ _ h1
  obtain ⟨hba,hc⟩ := unserializeBody_canonical h2
  unfold unserializeFlagged at h3
  dsimp only at h3 hf
  by_cases hn : f'≠0
  · rw [if_pos hn] at hf
    cases hf
  · rw [if_neg hn] at hf
    obtain ⟨_,_,h4,he⟩ := reader_bind_eq_ok.mp hf
    cases he
    obtain ⟨-,rfl⟩ := (codec_serReaddata 4).canonical _ _ _ h4
    obtain ⟨rfl,rfl⟩ | ⟨rfl,hse,rfl⟩ := hc
    · have hp : hasWitness vin=false := hasWitness_of_bare fun t ht =>
        (hba t ht).scriptWitness
      cases h3
      rw [serialize_of_not_hasWitness (by rw [hp,Bool.and_false])]
      simp
    · by_cases ho : (decide (f &&& 1≠0) && true)
      · rw [if_pos ho] at h3
        obtain ⟨s,_,h5,hs⟩ := reader_bind_eq_ok.mp h3
        obtain ⟨⟨-,hst⟩,rfl⟩ := (codec_unserializeWitnesses vin).canonical _ _ _ h5
        cases hh : hasWitness s with
        | false =>
          rw [hh] at hs
          cases hs
        | true =>
          rw [hh] at hs
          cases hs
          have hwr : serializeVin v'=serializeVin vin := by
            rw [← serializeVin_strip v',hst,serializeVin_strip]
          rw [eq_one_of_flags (not_not.mp hn),serialize_of_hasWitness hh,hwr]
          simp only [append_assoc]
          rfl
      · rw [if_neg ho] at h3
        cases h3
        exact absurd hse hn

/-- Fields in the range of their types and vectors within MAX_SIZE. -/
structure Valid (tx : MutableTransaction) : Prop where
  nVersion : -((256^4 : Nat) : Int)≤2*tx.nVersion ∧ 2*tx.nVersion<(256^4 : Nat)
  vin : tx.vin.length≤MAX_SIZE
  inputs : ∀ txin∈tx.vin, (strip txin).Bare ∧ StackValid txin.scriptWitness
  vout : tx.vout.length≤MAX_SIZE
  outputs : ∀ txout∈tx.vout, txout.Valid
  nLockTime : tx.nLockTime<256^4

lemma strip_of_bare {t : TxIn} (h : t.scriptWitness=[]) : strip t=t := by
  unfold strip
  rw [← h]

lemma Valid.stripped (h : tx.Valid) :
    (tx.vin.map strip).length≤MAX_SIZE ∧ ∀ txin∈tx.vin.map strip, txin.Bare := by
  rw [length_map]
  refine ⟨h.vin,fun txin ht => ?_⟩
  obtain ⟨y,hy,rfl⟩ := mem_map.mp ht
  exact (h.inputs y hy).1

lemma unserializeBody_flagged (h : tx.Valid) (r : Bytes) :
    unserializeBody true (serializeVin []++(serWritedata 1 1++(serializeVin tx.vin++
      (serializeVout tx.vout++r))))=.ok ((1,tx.vin.map strip,tx.vout),r) := by
  unfold unserializeBody
  rw [reader_bind_of_ok (codec_vin.reads [] _ ⟨Nat.zero_le _,by simp⟩),if_pos (by rfl),
    reader_bind_of_ok ((codec_serReaddata 1).reads 1 _ (by decide)),if_pos
        (by decide),← serializeVin_strip,reader_bind_of_ok (codec_vin.reads _ _ h.stripped),
    reader_bind_of_ok (codec_vout.reads _ _ ⟨h.vout,h.outputs⟩)]
  rfl

lemma unserializeBody_plain (h : tx.Valid)
    (hp : hasWitness tx.vin=false) (hsh : tx.vin≠[] ∨ tx.vout=[]) (r : Bytes) :
    unserializeBody true (serializeVin tx.vin++(serializeVout tx.vout++r))=
      .ok ((0,tx.vin,tx.vout),r) := by
  have hb : ∀ t∈tx.vin, t.Bare := by
    intro t ht
    have hn := any_eq_false.mp hp t ht
    rw [Bool.not_eq_true,Bool.not_eq_false',List.isEmpty_iff] at hn
    rw [← strip_of_bare hn]
    exact (h.inputs t ht).1
  unfold unserializeBody
  rw [reader_bind_of_ok (codec_vin.reads _ _ ⟨h.vin,hb⟩)]
  by_cases he : tx.vin=[]
  · have hv : tx.vout=[] := hsh.resolve_left (not_not.mpr he)
    rw [he,hv]
    rfl
  · have hs : ¬(tx.vin.isEmpty && true) := by
      rwa [Bool.and_true,List.isEmpty_iff]
    rw [if_neg hs,reader_bind_of_ok (codec_vout.reads _ _ ⟨h.vout,h.outputs⟩)]
    rfl

lemma unserialize_serialize (h : tx.Valid) (hs : tx.vin≠[] ∨ tx.vout=[]) (r : Bytes) :
    unserialize true (tx.serialize true++r)=.ok (tx,r) := by
  have hv := (codec_readSigned 4 (by decide)).reads tx.nVersion
  unfold unserialize
  cases hh : hasWitness tx.vin with
  | true =>
    have hst : ∀ r, unserializeFlagged true 1 (tx.vin.map strip)
        (serializeWitnesses tx.vin++r)=.ok ((0,tx.vin),r) := by
      intro r
      have hr := (codec_unserializeWitnesses (tx.vin.map strip)).reads tx.vin r
        ⟨fun t ht => (h.inputs t ht).2,by rw [map_map]; rfl⟩
      unfold unserializeFlagged
      rw [if_pos (by decide),reader_bind_of_ok hr,hh]
      rfl
    rw [serialize_of_hasWitness hh]
    simp only [append_assoc]
    rw [reader_bind_of_ok (hv _ h.nVersion),
      reader_bind_of_ok (unserializeBody_flagged h _),reader_bind_of_ok (hst _)]
    dsimp only
    rw [if_neg (by decide),reader_bind_of_ok ((codec_serReaddata 4).reads _ _ h.nLockTime)]
    rfl
  | false =>
    rw [serialize_of_not_hasWitness (by rw [hh]; rfl)]
    simp only [append_assoc]
    rw [reader_bind_of_ok (hv _ h.nVersion),reader_bind_of_ok (unserializeBody_plain h hh hs _)]
    have hp : ∀ r, unserializeFlagged true 0 tx.vin r=.ok ((0,tx.vin),r) := fun r => rfl
    rw [reader_bind_of_ok (hp _)]
    dsimp only
    rw [if_neg (by decide),reader_bind_of_ok ((codec_serReaddata 4).reads _ _ h.nLockTime)]
    rfl

/-- What is written with witnesses is read back, and whatever is read is written back. -/
theorem serialization_canonical :
    (∀ (tx : MutableTransaction) (rest : Bytes), tx.Valid → (tx.vin≠[] ∨ tx.vout=[]) →
      unserialize true (tx.serialize true++rest)=.ok (tx,rest)) ∧
    ∀ (fAllowWitness : Bool) (bytes rest : Bytes) (tx : MutableTransaction),
      unserialize fAllowWitness bytes=.ok (tx,rest) → tx.serialize fAllowWitness++rest=bytes :=
  ⟨fun _ rest h hs => unserialize_serialize h hs rest,
    fun _ _ _ _ h => unserialize_canonical h⟩

def witnessTx : MutableTransaction := ⟨2,[⟨⟨5,1⟩,[],7,[[1,2],[]]⟩],[⟨-1,[0x6a]⟩],0⟩

theorem serialization_canonical_witness :
    unserialize true (witnessTx.serialize true++[9])=.ok (witnessTx,[9]) ∧
      (MutableTransaction.mk 2 [] [] 0).serialize true++[9]=[2,0,0,0,0,0,0,0,0,0,9] := by
  have hv : witnessTx.Valid := by
    refine ⟨by decide,by decide,?_,by decide,?_,by decide⟩
    · intro _ htx
      rw [mem_singleton.mp htx]
      exact ⟨⟨⟨by decide,by decide⟩,by decide,by decide,rfl⟩,by decide,by decide⟩
    · intro _ ht
      rw [mem_singleton.mp ht]
      exact ⟨by decide,by decide⟩
  exact ⟨serialization_canonical.1 witnessTx [9] hv (.inl (by decide)),
    serialization_canonical.2 true _ _ _ (by decide +kernel)⟩
end MutableTransaction
end Xero
