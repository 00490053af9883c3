import Xero.Transport

/-! The frames of a stream of bytes, and that the deserializer finds them however the stream is cut
into pieces. -/
namespace Xero.Transport
open Library List

def headerOf (stream : Bytes) : MessageHeader where
  pchMessageStart := stream.take 4
  pchCommand := (stream.drop 4).take 12
  nMessageSize := ofLittleEndian ((stream.drop 16).take 4)
  pchChecksum := (stream.drop 20).take 4

variable {stream : Bytes}

lemma unserialize_eq (h : HEADER_SIZE ≤ stream.length) :
    MessageHeader.unserialize stream=.ok (headerOf stream,stream.drop HEADER_SIZE) := by
  have hr : ∀ k n, k+n≤HEADER_SIZE →
      readBytes END_OF_DATA n (stream.drop k)=.ok ((stream.drop k).take n,stream.drop (k+n)) := by
    intro k n _
    rw [readBytes,if_neg,drop_drop]
    rw [length_drop]
    omega
  have hs : readBytes END_OF_DATA MESSAGE_START_SIZE stream=.ok (stream.take 4,stream.drop 4) :=
    hr 0 4 (by decide)
  have hc : readBytes END_OF_DATA COMMAND_SIZE (stream.drop 4)=
      .ok ((stream.drop 4).take 12,stream.drop 16) := hr 4 12 (by decide)
  have hn : serReaddata 4 (stream.drop 16)=
      .ok (ofLittleEndian ((stream.drop 16).take 4),stream.drop 20) :=
    reader_bind_of_ok (hr 16 4 (by decide))
  have hch : readBytes END_OF_DATA CHECKSUM_SIZE (stream.drop 20)=
      .ok ((stream.drop 20).take 4,stream.drop 24) := hr 20 4 (by decide)
  unfold MessageHeader.unserialize
  rw [reader_bind_of_ok hs,reader_bind_of_ok hc,reader_bind_of_ok hn,reader_bind_of_ok hch]
  rfl

lemma headerOf_append (h : HEADER_SIZE ≤ stream.length) (m : Bytes) :
    headerOf (stream++m)=headerOf stream := by
  have hp : ∀ k n, k+n≤HEADER_SIZE → ((stream++m).drop k).take n=(stream.drop k).take n := by
    intro k n _
    rw [drop_append_of_le_length (by omega),take_append_of_le_length]
    rw [length_drop]
    omega
  have hf := hp 0 4 (by decide)
  simp only [drop_zero] at hf
  unfold headerOf
  rw [hf,hp 4 12 (by decide),hp 16 4 (by decide),hp 20 4 (by decide)]

/-- The headers that do not disconnect the peer. -/
def Acceptable (params : Params) (hdr : MessageHeader) : Prop :=
  hdr.pchMessageStart=params.messageStart ∧ hdr.nMessageSize≤MAX_PROTOCOL_MESSAGE_LENGTH

instance (params : Params) (hdr : MessageHeader) : Decidable (Acceptable params hdr) :=
  inferInstanceAs (Decidable (_ ∧ _))

/- What is queued for a header and its payload. -/
def delivered (params : Params) (hdr : MessageHeader) (data : Bytes) : List SerializedNetMsg :=
  if (hash256 params.transform data).take CHECKSUM_SIZE=hdr.pchChecksum ∧ hdr.isCommandValid then
    [⟨hdr.getCommand,data⟩]
  else []

/-- What follows the last whole message: the beginning of another one, or what is not read after a
header that disconnects the peer. -/
inductive Remainder
  | waiting (pending : Bytes)
  | disconnected (unread : Bytes)
  deriving DecidableEq

structure Framing where
  messages : List SerializedNetMsg
  rest : Remainder
  deriving DecidableEq

def frames (params : Params) (stream : Bytes) : Framing :=
  if stream.length<HEADER_SIZE then ⟨[],.waiting stream⟩
  else if ¬Acceptable params (headerOf stream) then ⟨[],.disconnected (stream.drop HEADER_SIZE)⟩
  else if stream.length<HEADER_SIZE+(headerOf stream).nMessageSize then ⟨[],.waiting stream⟩
  else
    let data := (stream.drop HEADER_SIZE).take (headerOf stream).nMessageSize
    let f := frames params (stream.drop (HEADER_SIZE+(headerOf stream).nMessageSize))
    ⟨delivered params (headerOf stream) data++f.messages,f.rest⟩
termination_by stream.length
decreasing_by
  rw [length_drop]
  unfold HEADER_SIZE at *
  omega

section
variable {params : Params}

lemma frames_of_short (h : stream.length<HEADER_SIZE) :
    frames params stream=⟨[],.waiting stream⟩ := by
  rw [frames,if_pos h]

lemma frames_of_bad {s r : Bytes} (hs : s.length=HEADER_SIZE)
    (h : ¬Acceptable params (headerOf s)) :
    frames params (s++r)=⟨[],.disconnected r⟩ := by
  rw [frames,if_neg,headerOf_append hs.ge,if_pos h,drop_left' hs]
  rw [length_append]
  omega

lemma frames_of_unfinished {s d : Bytes} (hs : s.length=HEADER_SIZE)
    (h : Acceptable params (headerOf s)) (hd : d.length<(headerOf s).nMessageSize) :
    frames params (s++d)=⟨[],.waiting (s++d)⟩ := by
  have hl : (s++d).length=HEADER_SIZE+d.length := by rw [length_append,hs]
  rw [frames,if_neg (by omega),headerOf_append hs.ge,if_neg (not_not.mpr h),if_pos (by omega)]

lemma frames_of_message {s d : Bytes} (hs : s.length=HEADER_SIZE)
    (h : Acceptable params (headerOf s))
    (hd : d.length=(headerOf s).nMessageSize) (r : Bytes) :
    frames params (s++d++r)=
      ⟨delivered params (headerOf s) d++(frames params r).messages,
        (frames params r).rest⟩ := by
  have hl : (s++d).length=HEADER_SIZE+(headerOf s).nMessageSize := by
    rw [length_append,hs,hd]
  rw [frames,if_neg (by rw [length_append]; omega),append_assoc,headerOf_append hs.ge,
    if_neg (not_not.mpr h),if_neg (by rw [← append_assoc,length_append]; omega)]
  rw [← append_assoc,drop_left' hl,append_assoc,drop_left' hs,take_left' hd]

/-- The four kinds of streams. -/
lemma stream_cases (params : Params) (stream : Bytes) :
    stream.length<HEADER_SIZE ∨ ∃ start rest, stream=start++rest ∧ start.length=HEADER_SIZE ∧
      (¬Acceptable params (headerOf start) ∨ Acceptable params (headerOf start) ∧
        (rest.length<(headerOf start).nMessageSize ∨
          ∃ data rest', rest=data++rest' ∧ data.length=(headerOf start).nMessageSize)) := by
  by_cases hsh : stream.length<HEADER_SIZE
  · exact .inl hsh
  have hs : (stream.take HEADER_SIZE).length=HEADER_SIZE := by
    rw [length_take]
    omega
  refine .inr ⟨_,_,(take_append_drop HEADER_SIZE stream).symm,hs,?_⟩
  generalize stream.take HEADER_SIZE=start
  generalize stream.drop HEADER_SIZE=rest
  by_cases hb : Acceptable params (headerOf start)
  · refine .inr ⟨hb,?_⟩
    by_cases hu : rest.length<(headerOf start).nMessageSize
    · exact .inl hu
    · refine .inr ⟨_,_,(take_append_drop (headerOf start).nMessageSize rest).symm,?_⟩
      rw [length_take]
      omega
  · exact .inl hb

def Framing.extend (params : Params) (f : Framing) (more : Bytes) : Framing :=
  match f.rest with
  | .waiting pending =>
    ⟨f.messages++(frames params (pending++more)).messages,(frames params (pending++more)).rest⟩
  | .disconnected unread => ⟨f.messages,.disconnected (unread++more)⟩

lemma frames_append (params : Params) (stream m : Bytes) :
    frames params (stream++m)=(frames params stream).extend params m := by
  induction hle : stream.length using Nat.strongRecOn generalizing stream with
  | ind n ih =>
    obtain hsh | ⟨_,r,rfl,hs,hb | ⟨ho,hu | ⟨_,r,rfl,hd⟩⟩⟩ := stream_cases params stream
    · rw [frames_of_short hsh]
      rfl
    · rw [frames_of_bad hs hb,append_assoc,frames_of_bad hs hb]
      rfl
    · rw [frames_of_unfinished hs ho hu]
      rfl
    · have hl : r.length<n := by
        rw [← hle]
        simp only [length_append,hs,HEADER_SIZE]
        omega
      rw [← append_assoc,append_assoc,frames_of_message hs ho hd,
        frames_of_message hs ho hd,ih r.length hl r rfl]
      unfold Framing.extend
      cases (frames params r).rest with
      | waiting p => simp
      | disconnected u => rfl

/-- Where the header ends that disconnects the peer, counted from the start of the stream. -/
def disconnectsAt (params : Params) (stream : Bytes) : Option Nat :=
  match (frames params stream).rest with
  | .waiting _ => none
  | .disconnected unread => some (stream.length-unread.length)

lemma frames_until_bad {u : Bytes} (h : (frames params stream).rest=.disconnected u) :
    ∃ before, stream=before++u ∧ (frames params before).rest=.disconnected [] := by
  induction hle : stream.length using Nat.strongRecOn generalizing stream with
  | ind n ih =>
    obtain hsh | ⟨s,rest,rfl,hs,hb | ⟨ho,hu | ⟨d,rest,rfl,hd⟩⟩⟩ := stream_cases params stream
    · rw [frames_of_short hsh] at h
      cases h
    · rw [frames_of_bad hs hb] at h
      cases h
      refine ⟨s,rfl,?_⟩
      rw [← append_nil s,frames_of_bad hs hb]
    · rw [frames_of_unfinished hs ho hu] at h
      cases h
    · have hl : rest.length<n := by
        rw [← hle]
        simp only [length_append,hs,HEADER_SIZE]
        omega
      rw [← append_assoc,frames_of_message hs ho hd] at h
      obtain ⟨before,hbe,hr⟩ := ih rest.length hl h rfl
      refine ⟨s++d++before,?_,?_⟩
      · rw [hbe]
        simp
      · rw [frames_of_message hs ho hd]
        exact hr

lemma disconnectsAt_beginning (params : Params) (stream m : Bytes) :
    (disconnectsAt params stream).isSome ↔
      ∃ p, disconnectsAt params (stream++m)=some p ∧ p ≤ stream.length := by
  have hap := frames_append params stream m
  unfold disconnectsAt
  cases hr : (frames params stream).rest with
  | disconnected u =>
    rw [hap,Framing.extend,hr]
    refine ⟨fun _ => ⟨_,rfl,?_⟩,fun _ => rfl⟩
    rw [length_append,length_append]
    omega
  | waiting pe =>
    refine ⟨fun h => absurd h Bool.false_ne_true,fun ⟨p,hp,hle⟩ => ?_⟩
    cases ha : (frames params (stream++m)).rest with
    | waiting _ =>
      rw [ha] at hp
      cases hp
    | disconnected u =>
      rw [ha] at hp
      cases hp
      obtain ⟨b,hb,hba⟩ := frames_until_bad ha
      have hl := congrArg length hb
      simp only [length_append] at hl hle
      obtain ⟨t,hta⟩ : ∃ t, stream=b++t := by
        refine ⟨stream.drop b.length,?_⟩
        have ht := congrArg (take b.length) hb
        rw [take_left,take_append_of_le_length (by omega)] at ht
        conv_lhs => rw [← take_append_drop b.length stream,ht]
      have hn := frames_append params b t
      rw [Framing.extend,hba,← hta] at hn
      rw [hn] at hr
      cases hr
end
end Xero.Transport
