import Xero.TransportFraming

/-! The state of the deserializer as the part of the stream it stands for, and what whole runs of
ReceiveMsgBytes queue. -/
namespace Xero.Transport
open Library List V1TransportDeserializer MessageHeader
variable {start : Bytes}
section
variable {params : Params} {d : V1TransportDeserializer}

structure Fresh (params : Params) (d : V1TransportDeserializer) : Prop where
  vRecv : d.vRecv=[]
  nDataPos : d.nDataPos=0
  data_hash : d.data_hash=V1TransportDeserializer.NULL_HASH
  hasher : d.hasher.sha.Holds params.transform []

/-- The bytes of an incomplete header are in the buffer. -/
structure InHeader (params : Params) (d : V1TransportDeserializer) (got : Bytes) : Prop where
  in_data : d.in_data=false
  nHdrPos : d.nHdrPos=got.length
  short : got.length<HEADER_SIZE
  room : d.hdrbuf.length=HEADER_SIZE
  hdrbuf : d.hdrbuf.take got.length=got
  fresh : Fresh params d

/-- The header is read, and `got` of the payload is in the buffer and in the hasher. -/
structure InData (params : Params) (d : V1TransportDeserializer) (start got : Bytes) : Prop where
  in_data : d.in_data
  start_length : start.length=HEADER_SIZE
  hdr : d.hdr=headerOf start
  acceptable : Acceptable params (headerOf start)
  nDataPos : d.nDataPos=got.length
  fits : got.length≤(headerOf start).nMessageSize
  vRecv : d.vRecv.take got.length=got
  covers : got.length≤d.vRecv.length
  size : d.vRecv.length≤(headerOf start).nMessageSize
  ahead : d.vRecv.length≤got.length+256*1024
  data_hash : d.data_hash=V1TransportDeserializer.NULL_HASH
  hasher : d.hasher.sha.Holds params.transform got

variable {got : Bytes}

lemma InData.complete_iff (h : InData params d start got) :
    d.complete ↔ got.length=(headerOf start).nMessageSize := by
  rw [complete,h.in_data,Bool.true_and,decide_eq_true_eq,h.hdr,h.nDataPos]
  exact eq_comm

lemma InHeader.not_complete (h : InHeader params d got) : d.complete=false := by
  rw [complete,h.in_data,Bool.false_and]

/-- What has been received since the last message. -/
def Pending (params : Params) (d : V1TransportDeserializer) (pending : Bytes) : Prop :=
  InHeader params d pending ∨ ∃ start got, pending=start++got ∧ InData params d start got ∧
    got.length<(headerOf start).nMessageSize

lemma frames_of_pending {pending : Bytes} (h : Pending params d pending) :
    frames params pending=⟨[],.waiting pending⟩ := by
  obtain h | ⟨_,_,rfl,h,hl⟩ := h
  · exact frames_of_short h.short
  · exact frames_of_unfinished h.start_length h.acceptable hl

lemma inHeader_reset (h : d.hasher.sha.Holds params.transform got) :
    InHeader params d.reset [] where
  in_data := rfl
  nHdrPos := rfl
  short := by decide
  room := by rw [reset,length_replicate]
  hdrbuf := rfl
  fresh := ⟨rfl,rfl,rfl,CSHA256.holds_reset h.room⟩

lemma inHeader_new (params : Params) : InHeader params .new [] := by
  have he : (CSHA256.new (replicate 64 0)).Holds params.transform [] :=
    CSHA256.holds_new (by rw [length_replicate])
  exact inHeader_reset he

lemma InHeader.readHeader (h : InHeader params d got) {bytes : Bytes} (hlen : bytes.length<2^32) :
    ∃ d' n, n=min (HEADER_SIZE-got.length) bytes.length ∧
      (got.length+bytes.length<HEADER_SIZE ∧ d.readHeader params bytes=(d',some n) ∧
          InHeader params d' (got++bytes.take n) ∨
        (got++bytes.take n).length=HEADER_SIZE ∧
          (¬Acceptable params (headerOf (got++bytes.take n)) ∧ d.readHeader params bytes=(d',none) ∨
            d.readHeader params bytes=(d',some n) ∧ InData params d' (got++bytes.take n) [])) := by
  have hsh := h.short
  have ht : (bytes.take (min (HEADER_SIZE-got.length) bytes.length)).length=
      min (HEADER_SIZE-got.length) bytes.length := by
    rw [length_take]
    omega
  have hfi : got.length+(bytes.take (min (HEADER_SIZE-got.length) bytes.length)).length ≤
      d.hdrbuf.length := by
    rw [ht,h.room]
    omega
  have hb := take_writeAt h.hdrbuf (bytes.take (min (HEADER_SIZE-got.length) bytes.length))
  have hr := length_writeAt hfi
  unfold V1TransportDeserializer.readHeader
  rw [h.nHdrPos]
  dsimp only
  rw [Nat.mod_eq_of_lt hlen]
  generalize hn : min (HEADER_SIZE-got.length) bytes.length=n at *
  have hl : (got++bytes.take n).length=got.length+n := by rw [length_append,ht]
  by_cases hm : got.length+n<HEADER_SIZE
  · rw [if_pos hm]
    refine ⟨_,n,rfl,.inl ⟨by omega,rfl,?_⟩⟩
    exact ⟨h.in_data,hl.symm,by omega,hr.trans h.room,by rw [length_append]; exact hb,
      ⟨h.fresh.vRecv,h.fresh.nDataPos,h.fresh.data_hash,h.fresh.hasher⟩⟩
  · rw [if_neg hm]
    have hw : (got++bytes.take n).length=HEADER_SIZE := by omega
    have ha : writeAt d.hdrbuf got.length (bytes.take n)=got++bytes.take n := by
      have he : (writeAt d.hdrbuf got.length (bytes.take n)).length ≤
          got.length+(bytes.take n).length := by
        rw [hr,h.room,ht]
        omega
      exact (take_of_length_le he).symm.trans hb
    rw [ha,unserialize_eq hw.ge]
    dsimp only
    by_cases hs : (headerOf (got++bytes.take n)).pchMessageStart=params.messageStart
    · rw [if_neg (not_not.mpr hs)]
      by_cases hsi : MAX_SIZE<(headerOf (got++bytes.take n)).nMessageSize ∨
          MAX_PROTOCOL_MESSAGE_LENGTH<(headerOf (got++bytes.take n)).nMessageSize
      · rw [if_pos hsi]
        refine ⟨_,n,rfl,.inr ⟨hw,.inl ⟨fun ho => ?_,rfl⟩⟩⟩
        have hle := ho.2
        unfold MAX_SIZE MAX_PROTOCOL_MESSAGE_LENGTH at *
        omega
      · rw [if_neg hsi]
        refine ⟨_,n,rfl,.inr ⟨hw,.inr ⟨rfl,?_⟩⟩⟩
        have hf := h.fresh
        exact {
          in_data := rfl, start_length := hw, hdr := rfl,
          acceptable := ⟨hs,by omega⟩,
          nDataPos := hf.nDataPos, fits := Nat.zero_le _, vRecv := rfl, covers := Nat.zero_le _,
          size := by
            rw [hf.vRecv]
            exact Nat.zero_le _
          ahead := by
            rw [hf.vRecv]
            exact Nat.zero_le _
          data_hash := hf.data_hash, hasher := hf.hasher}
    · rw [if_pos hs]
      exact ⟨_,n,rfl,.inr ⟨hw,.inl ⟨fun ho => hs ho.1,rfl⟩⟩⟩

lemma InData.readData (h : InData params d start got) {bytes : Bytes} (hlen : bytes.length<2^32) :
    ∃ d', d.readData params bytes=
        (d',some (min ((headerOf start).nMessageSize-got.length) bytes.length)) ∧
      InData params d' start
        (got++bytes.take (min ((headerOf start).nMessageSize-got.length) bytes.length)) := by
  unfold V1TransportDeserializer.readData
  rw [h.nDataPos,h.hdr]
  dsimp only
  rw [Nat.mod_eq_of_lt hlen]
  generalize hn : min ((headerOf start).nMessageSize-got.length) bytes.length=n
  have ht : (bytes.take n).length=n := by
    rw [length_take]
    omega
  have hl : (got++bytes.take n).length=got.length+n := by rw [length_append,ht]
  have hc := h.covers
  have hs := h.size
  have ha := h.ahead
  -- The buffer has room for the new bs, and at most 256 KiB more.
  have hbu : ∃ b, (if d.vRecv.length<got.length+n then
        resize 0 d.vRecv (min (headerOf start).nMessageSize (got.length+n+256*1024))
      else d.vRecv)=b ∧ b.take got.length=got ∧ got.length+n≤b.length ∧
      b.length≤(headerOf start).nMessageSize ∧ b.length≤got.length+n+256*1024 := by
    refine ⟨_,rfl,?_⟩
    by_cases hg : d.vRecv.length<got.length+n
    · rw [if_pos hg,length_resize,take_resize hc (by omega)]
      exact ⟨h.vRecv,by omega,by omega,by omega⟩
    · rw [if_neg hg]
      exact ⟨h.vRecv,by omega,hs,by omega⟩
  obtain ⟨b,hb,hbe,_,_,_⟩ := hbu
  rw [hb]
  have hw : (writeAt b got.length (bytes.take n)).length=b.length := length_writeAt (by omega)
  refine ⟨_,rfl,?_⟩
  exact {
    in_data := h.in_data, start_length := h.start_length, hdr := rfl, acceptable := h.acceptable,
    nDataPos := hl.symm, fits := by omega,
    vRecv := by
      rw [length_append]
      exact take_writeAt hbe _
    covers := by
      show _≤(writeAt _ _ _).length
      omega
    size := by
      show (writeAt _ _ _).length≤_
      omega
    ahead := by
      show (writeAt _ _ _).length≤_
      omega
    data_hash := h.data_hash, hasher := h.hasher.write _}

/-- One call of Read: it meets a header that disconnects the peer, or it completes the message, or
it leaves more pending than before. -/
lemma Pending.read {pending : Bytes} (h : Pending params d pending) {bytes : Bytes}
    (hby : bytes.length≠0) (hlen : bytes.length<2^32) :
    (∃ d', d.read params bytes=(d',none) ∧
      ∃ unread, frames params (pending++bytes)=⟨[],.disconnected unread⟩) ∨
    ∃ d' n, d.read params bytes=(d',some n) ∧ 0<n ∧ n≤bytes.length ∧
      (d'.complete=false ∧ Pending params d' (pending++bytes.take n) ∨
        d'.complete ∧ ∃ start got, pending++bytes.take n=start++got ∧
          InData params d' start got) := by
  have hcs : ∀ d' start got, InData params d' start got →
      d'.complete=false ∧ Pending params d' (start++got) ∨
        d'.complete ∧ ∃ start' got', start++got=start'++got' ∧ InData params d' start' got' := by
    intro d' start got hd
    have hf := hd.fits
    cases hcm : d'.complete with
    | true => exact .inr ⟨rfl,start,got,rfl,hd⟩
    | false =>
      have hn := mt hd.complete_iff.mpr (by rw [hcm]; exact Bool.false_ne_true)
      exact .inl ⟨rfl,.inr ⟨start,got,rfl,hd,by omega⟩⟩
  obtain h | ⟨start,got,rfl,h,_⟩ := h
  · have hs := h.short
    have hr := h.in_data
    obtain ⟨d',n,_,⟨_,hc,hh⟩ | ⟨hw,⟨hb,hc⟩ | ⟨hc,hd⟩⟩⟩ := h.readHeader hlen
    · simp only [V1TransportDeserializer.read,hr,hc,Bool.false_eq_true,if_false]
      exact .inr ⟨d',n,rfl,by omega,by omega,.inl ⟨hh.not_complete,.inl hh⟩⟩
    · simp only [V1TransportDeserializer.read,hr,hc,Bool.false_eq_true,if_false]
      refine .inl ⟨_,rfl,bytes.drop n,?_⟩
      rw [← frames_of_bad hw hb,append_assoc,take_append_drop]
    · simp only [V1TransportDeserializer.read,hr,hc,Bool.false_eq_true,if_false]
      have hre := hcs d' _ [] hd
      rw [append_nil] at hre
      exact .inr ⟨d',n,rfl,by omega,by omega,hre⟩
  · have hr := h.in_data
    obtain ⟨d',hc,hd⟩ := h.readData hlen
    have hre := hcs d' start _ hd
    rw [← append_assoc] at hre
    simp only [V1TransportDeserializer.read,hr,hc,if_true]
    exact .inr ⟨d',_,rfl,by omega,by omega,hre⟩

lemma InData.getMessage (h : InData params d start got) (hc : d.complete) (t : Int) :
    ∃ msg reject, d.getMessage params t=.ok (msg,reject,d.reset) ∧
      (if reject then [] else [⟨msg.m_type,msg.m_recv⟩])=delivered params (headerOf start) got := by
  have hw := h.complete_iff.mp hc
  have hr : d.vRecv=got := by
    have hsi := h.size
    rw [← h.vRecv,take_of_length_le (by omega)]
  have hh : d.getMessageHash params=.ok (hash256 params.transform got) := by
    unfold getMessageHash
    rw [hc,if_pos h.data_hash,CHash256.finalize_eq_hash256 h.hasher]
    rfl
  have hch : (headerOf start).pchChecksum.take CHECKSUM_SIZE=(headerOf start).pchChecksum := by
    rw [headerOf,CHECKSUM_SIZE,take_take]
    rfl
  unfold V1TransportDeserializer.getMessage
  simp only [hh,ok_bind,pure_ok,h.hdr,hr,hch]
  refine ⟨_,_,rfl,?_⟩
  unfold delivered
  by_cases hs : (hash256 params.transform got).take CHECKSUM_SIZE=(headerOf start).pchChecksum
  · cases hv : (headerOf start).isCommandValid with
    | true => simp [hs]
    | false => simp [hs]
  · simp [hs]
end

def queued (node : Node) : List SerializedNetMsg :=
  node.vRecvMsg.map fun msg => ⟨msg.m_type,msg.m_recv⟩

/-- What holds of a node while `unread` of the present call is left: the bytes `pending` of a
message are in the deserializer. -/
structure Reads (params : Params) (node : Node) (pending unread : Bytes) : Prop where
  state : Pending params node.m_deserializer pending
  other : node.mapRecvBytesPerMsgType NET_MESSAGE_TYPE_OTHER≠none
  received : pending.length+unread.length≤node.nRecvBytes
  piece : unread.length<2^32

variable {node : Node}

lemma addReceived_other {key : Bytes} {s : Nat}
    (h : node.mapRecvBytesPerMsgType NET_MESSAGE_TYPE_OTHER≠none) :
    (node.addReceived key s).mapRecvBytesPerMsgType NET_MESSAGE_TYPE_OTHER≠none := by
  unfold Node.addReceived
  dsimp only
  by_cases hk : NET_MESSAGE_TYPE_OTHER=key
  · rw [← hk,Function.update_self]
    simpa using h
  · rwa [Function.update_of_ne hk]

variable {params : Params}

lemma queueMessage_spec (node : Node) {got : Bytes} (t : Int)
    (h : InData params node.m_deserializer start got)
    (hc : node.m_deserializer.complete) (ho :
    node.mapRecvBytesPerMsgType NET_MESSAGE_TYPE_OTHER≠none) :
    ∃ node' b, node.queueMessage params t=.ok (node',b) ∧
      queued node'=queued node++delivered params (headerOf start) got ∧
      InHeader params node'.m_deserializer [] ∧
      node'.mapRecvBytesPerMsgType NET_MESSAGE_TYPE_OTHER≠none ∧
      node'.nRecvBytes=node.nRecvBytes := by
  obtain ⟨m,r,hm,hd⟩ := h.getMessage hc t
  have hr := inHeader_reset h.hasher
  unfold Node.queueMessage
  rw [hm]
  simp only [ok_bind,pure_ok]
  cases r with
  | true =>
    rw [if_pos rfl,if_neg ho]
    refine ⟨_,_,rfl,?_,hr,addReceived_other ho,rfl⟩
    rw [← hd,if_pos rfl,append_nil]
    rfl
  | false =>
    have hk : ∃ i, (if node.mapRecvBytesPerMsgType m.m_type=none then NET_MESSAGE_TYPE_OTHER
        else m.m_type)=i ∧ node.mapRecvBytesPerMsgType i≠none := by
      refine ⟨_,rfl,?_⟩
      by_cases hkn : node.mapRecvBytesPerMsgType m.m_type=none
      · rwa [if_pos hkn]
      · rwa [if_neg hkn]
    obtain ⟨i,hi,hs⟩ := hk
    rw [if_neg Bool.false_ne_true,hi]
    simp only [rejectIf,decide_eq_false hs,if_neg Bool.false_ne_true]
    refine ⟨_,_,rfl,?_,hr,addReceived_other ho,rfl⟩
    rw [← hd,if_neg Bool.false_ne_true]
    exact map_append

section
variable {params : Params} {pending : Bytes}

/-- One round of the loop, as it appears in the frames of what is pending and what is unread. -/
lemma Reads.receiveStep {r : Receiving} (h : Reads params r.node pending r.msg_bytes) (t : Int) :
    r.msg_bytes=[] ∧ receiveStep params t r=.ok (.inl ⟨r.node,r.complete,true⟩) ∨
    (∃ d unread, receiveStep params t r=
        .ok (.inl ⟨{r.node with m_deserializer := d},r.complete,false⟩) ∧
      frames params (pending++r.msg_bytes)=⟨[],.disconnected unread⟩) ∨
    ∃ r' pending' new, receiveStep params t r=.ok (.inr r') ∧
      Reads params r'.node pending' r'.msg_bytes ∧ queued r'.node=queued r.node++new ∧
      frames params (pending++r.msg_bytes)=
        ⟨new++(frames params (pending'++r'.msg_bytes)).messages,
          (frames params (pending'++r'.msg_bytes)).rest⟩ := by
  unfold Transport.receiveStep
  by_cases he : r.msg_bytes.length=0
  · rw [if_pos he]
    exact .inl ⟨eq_nil_of_length_eq_zero he,rfl⟩
  rw [if_neg he]
  obtain ⟨d,hr,unread,hb⟩ | ⟨d,n,hr,_,_,hn⟩ := h.state.read he h.piece
  · rw [hr]
    exact .inr (.inl ⟨d,unread,rfl,hb⟩)
  have hrc := h.received
  have hs : pending++r.msg_bytes=pending++r.msg_bytes.take n++r.msg_bytes.drop n := by
    rw [append_assoc,take_append_drop]
  have hl : (pending++r.msg_bytes.take n).length+(r.msg_bytes.drop n).length ≤
      r.node.nRecvBytes := by
    rw [← length_append,← hs,length_append]
    exact hrc
  have hle : (r.msg_bytes.drop n).length<2^32 := by
    have hp := h.piece
    rw [length_drop]
    omega
  rw [hr,hs]
  dsimp only
  rw [if_neg (by omega)]
  refine .inr (.inr ?_)
  obtain ⟨hm,hp⟩ | ⟨hc,start,got,hw,hd⟩ := hn
  · rw [if_neg (by rw [hm]; exact Bool.false_ne_true)]
    refine ⟨_,pending++r.msg_bytes.take n,[],rfl,⟨hp,h.other,hl,hle⟩,?_,rfl⟩
    rw [append_nil]
    rfl
  · rw [if_pos hc]
    obtain ⟨node,b,hq,hqu,hh,ho,hcn⟩ :=
      queueMessage_spec {r.node with m_deserializer := d} t hd hc h.other
    rw [hq]
    refine ⟨_,[],delivered params (headerOf start) got,rfl,⟨.inl hh,ho,?_,hle⟩,hqu,?_⟩
    · rw [length_append] at hl
      rw [hcn,length_nil]
      show 0+(r.msg_bytes.drop n).length ≤ r.node.nRecvBytes
      omega
    · rw [hw]
      exact frames_of_message hd.start_length hd.acceptable (hd.complete_iff.mp hc) _

/- What a call leaves when it returns. -/
def Returns (params : Params) (messages : List SerializedNetMsg) (rest : Remainder)
    (r : Received) : Prop :=
  queued r.node=messages ∧ (r.result ∧ (∃ pending, Reads params r.node pending [] ∧
    rest=.waiting pending) ∨ r.result=false ∧ ∃ unread, rest=.disconnected unread)

/- What the rounds of a call keep: the messages queued so far, with those of what is still to be read. -/
def Continues (params : Params) (messages : List SerializedNetMsg) (rest : Remainder)
    (r : Receiving) : Prop :=
  ∃ pending, Reads params r.node pending r.msg_bytes ∧
    queued r.node++(frames params (pending++r.msg_bytes)).messages=messages ∧
    (frames params (pending++r.msg_bytes)).rest=rest

lemma Continues.receiveStep {m : List SerializedNetMsg} {re : Remainder} {r : Receiving}
    (h : Continues params m re r) (t : Int) :
    Ensures (fun _ => False) (Sum.elim (Returns params m re) (Continues params m re))
      (receiveStep params t r) := by
  obtain ⟨pending,hrd,hm,hr⟩ := h
  obtain ⟨he,hs⟩ | ⟨d,u,hs,hf⟩ | ⟨_,p',_,hs,hrd',hne,hf⟩ := hrd.receiveStep t
  · have hn : frames params (pending++r.msg_bytes)=⟨[],.waiting pending⟩ := by
      rw [he,append_nil,frames_of_pending hrd.state]
    rw [he] at hrd
    rw [hn] at hm hr
    rw [hs]
    exact ⟨by rw [← hm,append_nil],.inl ⟨rfl,pending,hrd,hr.symm⟩⟩
  · rw [hf] at hm hr
    rw [hs]
    exact ⟨by rw [← hm,append_nil]; rfl,.inr ⟨rfl,u,hr.symm⟩⟩
  · rw [hf] at hm hr
    rw [hs]
    exact ⟨p',hrd',by rw [hne,append_assoc]; exact hm,hr⟩

/-- A call of ReceiveMsgBytes returns, and it has queued the messages of the frames. -/
lemma Reads.receiveMsgBytes (h : Reads params node pending []) (t : Int) {c : Bytes}
    (hlen : c.length<2^32) :
    ∃ r, receiveMsgBytes params node t c=.ok r ∧
      Returns params (queued node++(frames params (pending++c)).messages)
        (frames params (pending++c)).rest r := by
  have hrc := h.received
  rw [length_nil] at hrc
  have hb : Continues params (queued node++(frames params (pending++c)).messages)
      (frames params (pending++c)).rest (beginReceive node t c) := by
    refine ⟨pending,⟨h.state,h.other,?_,hlen⟩,rfl,rfl⟩
    show pending.length+c.length≤node.nRecvBytes+c.length
    omega
  have hru : Ensures (fun _ => False) _ (Transport.receiveMsgBytes params node t c) :=
    Loop.run_ensures (fun r hr => hr.receiveStep t) hb
  exact hru.exists_ok fun _ hf => hf.elim

def streamOf (chunks : List (Int×RecvChunk)) : Bytes := chunks.flatMap fun chunk => chunk.2.1

lemma Reads.receiveAll (h : Reads params node pending []) (chunks : List (Int×RecvChunk)) :
    ∃ node' connected, receiveAll params node chunks=.ok (node',connected) ∧
      queued node'=queued node++(frames params (pending++streamOf chunks)).messages ∧
      (connected=false ↔ (disconnectsAt params (pending++streamOf chunks)).isSome) := by
  induction chunks generalizing node pending with
  | nil =>
    have hf := frames_of_pending h.state
    refine ⟨node,true,rfl,?_,?_⟩
    · rw [streamOf,flatMap_nil,append_nil,hf,append_nil]
    · rw [streamOf,flatMap_nil,append_nil,disconnectsAt,hf]
      simp
  | cons c chunks ih =>
    obtain ⟨t,b,hb⟩ := c
    obtain ⟨r,hc,hq,hrs⟩ := h.receiveMsgBytes t (show b.length<2^32 by omega)
    have hf := frames_append params (pending++b) (streamOf chunks)
    rw [append_assoc] at hf
    have hs : streamOf ((t,⟨b,hb⟩)::chunks)=b++streamOf chunks := flatMap_cons ..
    unfold Transport.receiveAll
    rw [hc,hs]
    simp only [ok_bind,pure_ok]
    obtain ⟨hr,p',hrd,hw⟩ | ⟨hr,_,hd⟩ := hrs
    · rw [if_pos hr]
      obtain ⟨node',connected,hre,hq',hco⟩ := ih hrd
      rw [Framing.extend,hw] at hf
      refine ⟨node',connected,hre,?_,?_⟩
      · rw [hq',hq,hf,append_assoc]
      · rw [hco,disconnectsAt,disconnectsAt,hf]
        dsimp only
        cases (frames params (p'++streamOf chunks)).rest with
        | waiting _ => rfl
        | disconnected _ => simp
    · rw [Framing.extend,hd] at hf
      refine ⟨r.node,false,by rw [hr]; rfl,?_,?_⟩
      · rw [hq,hf]
      · rw [disconnectsAt,hf]
        simp

lemma reads_new (params : Params) : Reads params .new [] [] :=
  ⟨.inl (inHeader_new params),by simp [Node.new],Nat.le_refl 0,by decide⟩
end

/-- A type of at most twelve printable characters, and a payload that is not too long. -/
structure Sendable (msg : SerializedNetMsg) : Prop where
  type_length : msg.m_type.length≤COMMAND_SIZE
  printable : ∀ c∈msg.m_type, 0x20 ≤ c ∧ c≤0x7E
  data_length : msg.data.length≤MAX_PROTOCOL_MESSAGE_LENGTH

def transport (params : Params) : List SerializedNetMsg → Except TransportError Bytes
  | [] => .ok []
  | msg::msgs => do
    let header ← prepareForTransport params msg
    let rest ← transport params msgs
    pure (header++msg.data++rest)

section
variable {ps : Params}

lemma headerOf_serialize {hdr : MessageHeader} (hs : hdr.pchMessageStart.length=4)
    (hc : hdr.pchCommand.length=12) (hsz : hdr.nMessageSize<256^4)
    (hch : hdr.pchChecksum.length=4) : headerOf hdr.serialize=hdr := by
  have hn : (serWritedata 4 hdr.nMessageSize).length=4 := length_toLittleEndian 4 _
  have hf : hdr.serialize.drop 4=
      hdr.pchCommand++(serWritedata 4 hdr.nMessageSize++hdr.pchChecksum) := drop_left' hs
  have hsi : hdr.serialize.drop 16=serWritedata 4 hdr.nMessageSize++hdr.pchChecksum := by
    rw [show 16=4+12 from rfl,← drop_drop,hf,drop_left' hc]
  have ht : hdr.serialize.drop 20=hdr.pchChecksum := by
    rw [show 20=16+4 from rfl,← drop_drop,hsi,drop_left' hn]
  have hfs : hdr.serialize.take 4=hdr.pchMessageStart := take_left' hs
  unfold headerOf
  rw [hfs,hf,hsi,ht,take_left' hc,take_left' hn,
    take_of_length_le hch.le,serWritedata,ofLittleEndian_toLittleEndian 4 _ hsz]

lemma isValidFrom_append_zeros {cs : Bytes} (h : ∀ c∈cs, 0x20 ≤ c ∧ c≤0x7E) (n : Nat) :
    isValidFrom (cs++replicate n 0) := by
  induction cs with
  | nil =>
    cases n with
    | zero => rfl
    | succ n => simp [replicate_succ,isValidFrom]
  | cons c cs ih =>
    obtain ⟨hc,hcs⟩ := forall_mem_cons.mp h
    have hz : c≠0 := by
      intro hz
      rw [hz] at hc
      exact absurd hc.1 (by decide)
    rw [cons_append,isValidFrom,if_neg hz,
      if_neg (not_or.mpr ⟨UInt8.not_lt.mpr hc.1,UInt8.not_lt.mpr hc.2⟩)]
    exact ih hcs

lemma takeWhile_append_zeros {cs : Bytes} (h : ∀ c∈cs, c≠0) (n : Nat) :
    (cs++replicate n 0).takeWhile (·≠0)=cs := by
  rw [takeWhile_append_of_pos (by simpa using h)]
  cases n with
  | zero => simp
  | succ n => simp [replicate_succ]

lemma prepareForTransport_spec (params : Params) {msg : SerializedNetMsg} (h : Sendable msg) :
    ∃ header, prepareForTransport params msg=.ok header ∧ header.length=HEADER_SIZE ∧
      Acceptable params (headerOf header) ∧ (headerOf header).nMessageSize=msg.data.length ∧
      delivered params (headerOf header) msg.data=[msg] := by
  have hn : ∀ c∈msg.m_type, c≠0 := by
    intro c hc hz
    have hp := (h.printable c hc).1
    rw [hz] at hp
    exact absurd hp (by decide)
  have hcs : msg.m_type.takeWhile (·≠0)=msg.m_type := by
    have ht := takeWhile_append_zeros hn 0
    rwa [replicate_zero,append_nil] at ht
  have hl := h.type_length
  have hd := h.data_length
  have hs : msg.data.length%2^32=msg.data.length := by
    unfold MAX_PROTOCOL_MESSAGE_LENGTH at hd
    omega
  have hcm : writeAt (replicate COMMAND_SIZE 0) 0 msg.m_type=
      msg.m_type++replicate (COMMAND_SIZE-msg.m_type.length) 0 := by
    rw [writeAt,take_zero,nil_append,Nat.zero_add,drop_replicate]
  let hdr : MessageHeader := {
    pchMessageStart := params.messageStart,
    pchCommand := msg.m_type++replicate (COMMAND_SIZE-msg.m_type.length) 0,
    nMessageSize := msg.data.length,
    pchChecksum := (hash256 params.transform msg.data).take CHECKSUM_SIZE}
  have hne : prepareForTransport params msg=.ok hdr.serialize := by
    unfold prepareForTransport MessageHeader.new
    simp only [hcs,rejectIf,decide_eq_false (not_lt.mpr hl),if_neg Bool.false_ne_true,
      ok_bind,pure_ok,hcm,hs]
    rfl
  have hco : hdr.pchCommand.length=12 := by
    rw [length_append,length_replicate]
    unfold COMMAND_SIZE at *
    omega
  have hch : hdr.pchChecksum.length=4 := by
    rfl
  have hr : headerOf hdr.serialize=hdr := by
    refine headerOf_serialize params.length_messageStart hco ?_ hch
    show msg.data.length<256^4
    omega
  refine ⟨hdr.serialize,hne,?_,?_,?_,?_⟩
  · unfold serialize
    simp only [length_append,hco,hch,serWritedata,length_toLittleEndian]
    rw [show hdr.pchMessageStart.length=4 from params.length_messageStart]
    rfl
  · rw [hr]
    exact ⟨rfl,hd⟩
  · rw [hr]
  · have hv : hdr.isCommandValid := isValidFrom_append_zeros h.printable _
    have hg : hdr.getCommand=msg.m_type := takeWhile_append_zeros hn _
    rw [hr,delivered,if_pos ⟨rfl,hv⟩,hg]

lemma frames_transport (params : Params) {m : List SerializedNetMsg} (h : ∀ msg∈m, Sendable msg) :
    ∃ stream, transport params m=.ok stream ∧ frames params stream=⟨m,.waiting []⟩ := by
  induction m with
  | nil => exact ⟨[],rfl,frames_of_short (by decide)⟩
  | cons msg m ih =>
    obtain ⟨hms,hm⟩ := forall_mem_cons.mp h
    obtain ⟨he,hh,hl,ho,hs,hd⟩ := prepareForTransport_spec params hms
    obtain ⟨r,hr,hf⟩ := ih hm
    refine ⟨he++msg.data++r,?_,?_⟩
    · simp only [transport,hh,hr,ok_bind,pure_ok]
    · rw [frames_of_message hl ho hs.symm,hd,hf]
      rfl
end

/-- The states at the head of the loop, in the calls of ReceiveMsgBytes on a new node. -/
inductive Visited (params : Params) : Node → Bytes → Prop
  | new : Visited params .new []
  | call {node : Node} (time : Int) (chunk : RecvChunk) (h : Visited params node []) :
      Visited params (beginReceive node time chunk.1).node chunk.1
  | round {r r' : Receiving} (time : Int) (h : Visited params r.node r.msg_bytes)
      (hstep : receiveStep params time r=.ok (.inr r')) : Visited params r'.node r'.msg_bytes

lemma Visited.reads {u : Bytes} (h : Visited params node u) :
    ∃ pending, Reads params node pending u := by
  induction h with
  | new => exact ⟨[],reads_new params⟩
  | @call node t c _ ih =>
    obtain ⟨pending,hr⟩ := ih
    have hrc := hr.received
    have hlen := c.2
    refine ⟨pending,hr.state,hr.other,?_,by omega⟩
    show pending.length+c.1.length≤node.nRecvBytes+c.1.length
    omega
  | @round r r' t _ hs ih =>
    obtain ⟨pending,hr⟩ := ih
    obtain ⟨-,hd⟩ | ⟨d,u,hd,-⟩ | ⟨_,p',new,hn,hr',-⟩ := hr.receiveStep t
    · rw [hd] at hs
      cases hs
    · rw [hd] at hs
      cases hs
    · rw [hn] at hs
      cases hs
      exact ⟨p',hr'⟩

/- The buffer of the payload is at most 256 KiB ahead of what has been received. -/
def Bounded (node : Node) (d : V1TransportDeserializer) : Prop :=
  d.vRecv.length≤d.nDataPos+256*1024 ∧ d.nDataPos≤node.nRecvBytes

lemma InData.bounded {d : V1TransportDeserializer} {got : Bytes}
    (h : InData params d start got) (hr : (start++got).length≤node.nRecvBytes) :
    Bounded node d := by
  rw [length_append] at hr
  have ha := h.ahead
  have hp := h.nDataPos
  exact ⟨by omega,by omega⟩

lemma Pending.bounded {d : V1TransportDeserializer} {pending : Bytes}
    (h : Pending params d pending) (hr : pending.length≤node.nRecvBytes) : Bounded node d := by
  obtain h | ⟨_,_,rfl,h,-⟩ := h
  · have hf := h.fresh
    unfold Bounded
    rw [hf.vRecv,hf.nDataPos]
    exact ⟨Nat.zero_le _,Nat.zero_le _⟩
  · exact h.bounded hr

lemma Visited.bounded {u : Bytes} (h : Visited params node u) : Bounded node node.m_deserializer ∧
      (u≠[] → Bounded node (node.m_deserializer.read params u).1) := by
  obtain ⟨pending,hrd⟩ := h.reads
  have hrc := hrd.received
  refine ⟨hrd.state.bounded (by omega),fun hu => ?_⟩
  have hl : u.length≠0 := fun hz => hu (eq_nil_of_length_eq_zero hz)
  have ht : ∀ n, n≤u.length → (pending++u.take n).length≤node.nRecvBytes := by
    intro n _
    rw [length_append,length_take]
    omega
  obtain ⟨d,hr,-⟩ | ⟨d,n,hr,-,hle,⟨-,hp⟩ | ⟨-,_,_,hw,hd⟩⟩ := hrd.state.read hl hrd.piece
  · have hre : ∃ d', d=V1TransportDeserializer.reset d' := by
      unfold V1TransportDeserializer.read at hr
      split at hr
      · cases hr
        exact ⟨_,rfl⟩
      · cases hr
    obtain ⟨d',rfl⟩ := hre
    rw [hr]
    exact ⟨Nat.zero_le _,Nat.zero_le _⟩
  · rw [hr]
    exact hp.bounded (ht n hle)
  · rw [hr]
    exact hd.bounded (hw ▸ ht n hle)

/-- However the stream is cut into pieces, the messages that are queued are those of its frames and
the peer is disconnected with the piece that ends a header it may not send; messages that were sent
arrive; and the buffer of a payload is bounded all the time. -/
theorem receive_framing (params : Params) :
    (∀ chunks i, ∃ node connected, receiveAll params .new (chunks.take i)=.ok (node,connected) ∧
      queued node=(frames params (streamOf (chunks.take i))).messages ∧
      (connected=false ↔ ∃ p, disconnectsAt params (streamOf chunks)=some p ∧
        p≤(streamOf (chunks.take i)).length)) ∧
    (∀ msgs, (∀ msg∈msgs, Sendable msg) → ∃ stream, transport params msgs=.ok stream ∧
      ∀ chunks, streamOf chunks=stream →
        ∃ node, receiveAll params .new chunks=.ok (node,true) ∧ queued node=msgs) ∧
    ∀ node unread, Visited params node unread → Bounded node node.m_deserializer ∧
      (unread≠[] → Bounded node (node.m_deserializer.read params unread).1) := by
  refine ⟨fun chunks i => ?_,fun msgs hm => ?_,fun node unread h => h.bounded⟩
  · obtain ⟨node,connected,hr,hq,hc⟩ := (reads_new params).receiveAll (chunks.take i)
    have hsp : streamOf (chunks.take i)++streamOf (chunks.drop i)=streamOf chunks := by
      rw [streamOf,streamOf,← flatMap_append,take_append_drop]
      rfl
    refine ⟨node,connected,hr,hq,?_⟩
    rw [hc,nil_append,disconnectsAt_beginning params _ (streamOf (chunks.drop i)),hsp]
  · obtain ⟨stream,hs,hf⟩ := frames_transport params hm
    refine ⟨stream,hs,fun chunks hch => ?_⟩
    obtain ⟨node,connected,hr,hq,hc⟩ := (reads_new params).receiveAll chunks
    rw [nil_append,hch,disconnectsAt,hf] at hc
    rw [nil_append,hch,hf] at hq
    cases connected with
    | true => exact ⟨node,hr,hq⟩
    | false => exact absurd (hc.mp rfl) Bool.false_ne_true
end Xero.Transport
