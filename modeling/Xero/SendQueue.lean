import Xero.TransportRuns

/-! The send queue of a node: PushMessage appends header and payload of a message, and
SocketSendData hands over what the socket takes, up to an offset into the first entry. -/
namespace Xero.Transport
open Library List

/-- What a call of Send answers: how much it took of what was offered, or an error, which closes the
socket when it is fatal. -/
inductive SendResult
  | sent (nBytes : Nat)
  | error (fatal : Bool)

/-- The fields of CNode that sending uses, and the bytes that its socket took. The two sizes are
size_t in the source, which a queue in memory cannot exceed. -/
structure SendState where
  vSendMsg : List Bytes := []
  nSendOffset : Nat := 0
  nSendSize : Nat := 0
  hasSock : Bool := true
  taken : Bytes := []

namespace SendState
/- The loop, on the entries from `it` on; without another answer Send takes nothing. -/
def sendFrom (s : SendState) : List Bytes → List SendResult → Except TransportError SendState
  | [],_ => do
    rejectIf (decide (s.nSendOffset≠0)) .asserts
    rejectIf (decide (s.nSendSize≠0)) .asserts
    pure {s with vSendMsg := []}
  | data::queue,results => do
    rejectIf (decide (data.length ≤ s.nSendOffset)) .asserts
    let stop := {s with vSendMsg := data::queue}
    if !s.hasSock then pure stop
    else match results with
    | [] => pure stop
    | .error fatal::_ => pure {stop with hasSock := !fatal}
    | .sent nBytes::results =>
      let nBytes := min nBytes (data.length-s.nSendOffset)
      let sent := {stop with
        nSendOffset := s.nSendOffset+nBytes,
        taken := s.taken++(data.drop s.nSendOffset).take nBytes}
      if nBytes=0 then pure stop
      else if sent.nSendOffset=data.length then
        sendFrom {sent with nSendOffset := 0, nSendSize := s.nSendSize-data.length} queue results
      else pure sent

def socketSendData (s : SendState) (results : List SendResult) : Except TransportError SendState :=
  s.sendFrom s.vSendMsg results

def pushMessage (params : Params) (s : SendState) (msg : SerializedNetMsg)
    (results : List SendResult) :
    Except TransportError SendState := do
  let serializedHeader ← prepareForTransport params msg
  let optimisticSend := s.vSendMsg.isEmpty
  let s := {s with
    nSendSize := s.nSendSize+(msg.data.length+serializedHeader.length),
    vSendMsg := s.vSendMsg++serializedHeader::if msg.data.length≠0 then [msg.data] else []}
  if optimisticSend then s.socketSendData results else pure s

/-- A call, with the answers of the socket while it runs. -/
inductive Call
  | pushMessage (msg : SerializedNetMsg) (results : List SendResult)
  | socketSendData (results : List SendResult)

def call (params : Params) (s : SendState) : Call → Except TransportError SendState
  | .pushMessage msg results => s.pushMessage params msg results
  | .socketSendData results => s.socketSendData results
def Call.pushed : Call → List SerializedNetMsg
  | .pushMessage msg _ => [msg]
  | .socketSendData _ => []

/-- Of the pushed bytes, the socket took all but the queue from the offset on. -/
structure Accounts (s : SendState) (bytes : Bytes) : Prop where
  unsent : bytes=s.taken++s.vSendMsg.flatten.drop s.nSendOffset
  size : s.nSendSize=s.vSendMsg.flatten.length
  offset : s.nSendOffset=0 ∨ ∃ data∈s.vSendMsg.head?, s.nSendOffset<data.length
  entries : ∀ data∈s.vSendMsg, data≠[]

variable {s : SendState} {bytes : Bytes}

lemma sendFrom_accounts (q : List Bytes) (r : List SendResult)
    (h : {s with vSendMsg := q}.Accounts bytes) :
    ∃ s', s.sendFrom q r=.ok s' ∧ s'.Accounts bytes := by
  induction q generalizing s r with
  | nil =>
    obtain ⟨hu,hs,ho,-⟩ := id h
    simp only [head?_nil,Option.not_mem_none,false_and,exists_false,or_false] at ho
    simp only [flatten_nil,length_nil] at hs
    exact ⟨_,by simp [sendFrom,ho,hs,rejectIf],h⟩
  | cons d q ih =>
    obtain ⟨hu,hs,ho,he⟩ := id h
    obtain ⟨hd,he⟩ := forall_mem_cons.mp he
    have hl : s.nSendOffset<d.length := by
      obtain ho | ⟨_,⟨⟩,hl⟩ := ho
      · exact ho ▸ length_pos_of_ne_nil hd
      · exact hl
    have ha : rejectIf (decide (d.length ≤ s.nSendOffset)) TransportError.asserts=.ok () := by
      simpa using hl
    rw [sendFrom,ha,ok_bind]
    simp only [flatten_cons,length_append] at hu hs
    split
    · exact ⟨_,rfl,h⟩
    · split
      · exact ⟨_,rfl,h⟩
      · exact ⟨_,rfl,h.1,h.2,h.3,h.4⟩
      · rename_i nb r
        generalize hn : min nb (d.length-s.nSendOffset)=n
        have ht : (d.drop s.nSendOffset).take n++(d.drop (s.nSendOffset+n)++q.flatten)=
            (d++q.flatten).drop s.nSendOffset := by
          rw [drop_append_of_le_length hl.le,← append_assoc,← drop_drop,take_append_drop]
        dsimp only
        split
        · exact ⟨_,rfl,h⟩
        · split
          · rename_i hal
            refine ih r ⟨?_,?_,.inl rfl,he⟩
            · rw [hu,← ht,hal,drop_length]
              simp
            · simp only
              omega
          · rename_i hp
            refine ⟨_,rfl,?_,hs.trans (by simp),.inr ⟨d,rfl,?_⟩,h.entries⟩
            · rw [hu,← ht]
              simp [drop_append_of_le_length (show s.nSendOffset+n≤d.length by omega)]
            · simp only
              omega

lemma prepareForTransport_ne_nil {p : Params} {msg : SerializedNetMsg} {header : Bytes}
    (h : prepareForTransport p msg=.ok header) : header≠[] := by
  obtain ⟨_,hn,h⟩ := bind_eq_ok.mp h
  obtain ⟨_,-,hn⟩ := bind_eq_ok.mp hn
  cases hn
  cases h
  exact append_ne_nil_of_left_ne_nil (ne_nil_of_length_pos
      (by rw [p.length_messageStart]; decide)) _

lemma Accounts.pushMessage {p : Params} {msg : SerializedNetMsg} {header : Bytes}
    (h : s.Accounts bytes) (hm : prepareForTransport p msg=.ok header) (r : List SendResult) :
    ∃ s', s.pushMessage p msg r=.ok s' ∧
      s'.Accounts (bytes++(header++msg.data)) := by
  have ha : (header::if msg.data.length≠0 then [msg.data] else []).flatten=header++msg.data := by
    cases hd : msg.data <;> simp
  rw [SendState.pushMessage,hm,ok_bind]
  dsimp only
  generalize hq : header::(if msg.data.length≠0 then [msg.data] else [])=added at ha
  have hac : {s with
      nSendSize := s.nSendSize+(msg.data.length+header.length),
      vSendMsg := s.vSendMsg++added}.Accounts (bytes++(header++msg.data)) := by
    obtain ⟨hu,_,ho,_⟩ := id h
    have hle : s.nSendOffset ≤ s.vSendMsg.flatten.length := by
      obtain ho | ⟨data,hda,hl⟩ := ho
      · omega
      · obtain ⟨_,hs⟩ := head?_eq_some_iff.mp hda
        rw [hs,flatten_cons,length_append]
        omega
    refine ⟨?_,?_,?_,?_⟩
    · simp only [flatten_append,ha,drop_append_of_le_length hle]
      rw [hu,append_assoc]
    · simp only [flatten_append,ha,length_append]
      omega
    · obtain ho | ⟨data,hda,hl⟩ := ho
      · exact .inl ho
      · refine .inr ⟨data,?_,hl⟩
        rw [head?_append,Option.mem_def.mp hda]
        rfl
    · have hn := prepareForTransport_ne_nil hm
      grind
  split
  · exact sendFrom_accounts _ r hac
  · exact ⟨_,rfl,hac⟩

lemma Accounts.run {p : Params} (calls : List Call) (h : s.Accounts bytes) :
    (∃ e, transport p (calls.flatMap Call.pushed)=.error e ∧
      calls.foldlM (call p) s=.error e) ∨
    ∃ more s', transport p (calls.flatMap Call.pushed)=.ok more ∧
      calls.foldlM (call p) s=.ok s' ∧ s'.Accounts (bytes++more) := by
  induction calls generalizing s bytes with
  | nil => exact .inr ⟨[],s,rfl,rfl,by simpa using h⟩
  | cons c calls ih =>
    cases c with
    | socketSendData r =>
      obtain ⟨s',hs,h'⟩ := sendFrom_accounts _ r h
      rw [foldlM_cons,call,socketSendData,hs]
      exact ih h'
    | pushMessage m r =>
      simp only [flatMap_cons,Call.pushed,singleton_append,transport,foldlM_cons,call]
      cases hm : prepareForTransport p m with
      | error e => exact .inl ⟨e,rfl,by rw [SendState.pushMessage,hm]; rfl⟩
      | ok ha =>
        obtain ⟨s',hs,h'⟩ := h.pushMessage hm r
        rw [hs]
        obtain ⟨e,he,hr⟩ | ⟨more,t,hmo,hr,ht⟩ := ih h'
        · exact .inl ⟨e,by rw [he]; rfl,hr⟩
        · refine .inr ⟨ha++m.data++more,t,by rw [hmo]; rfl,hr,?_⟩
          simpa using ht

/-- Over every run, the calls fail only where a header cannot be prepared. The socket took the first
of the pushed bytes in order, and the queue, its size and its offset account for the others. -/
theorem run_accounts (params : Params) (calls : List Call) :
    (∃ e, transport params (calls.flatMap Call.pushed)=.error e ∧
      calls.foldlM (call params) {}=.error e) ∨
    ∃ bytes s, transport params (calls.flatMap Call.pushed)=.ok bytes ∧
      calls.foldlM (call params) {}=.ok s ∧ s.taken <+: bytes ∧ s.Accounts bytes := by
  have hst : Accounts {} [] := ⟨rfl,rfl,.inl rfl,nofun⟩
  obtain he | ⟨bytes,s,hb,hr,hs⟩ := hst.run calls
  · exact .inl he
  · exact .inr ⟨bytes,s,hb,hr,⟨_,hs.unsent.symm⟩,hs⟩
lemma frames_of_append {p : Params} {a b : Bytes} {msgs : List SerializedNetMsg}
    (h : frames p (a++b)=⟨msgs,.waiting []⟩) :
    (frames p a).messages <+: msgs ∧ ¬(disconnectsAt p a).isSome := by
  rw [frames_append,Framing.extend] at h
  rw [disconnectsAt]
  cases hr : (frames p a).rest with
  | waiting q =>
    rw [hr] at h
    exact ⟨⟨_,congrArg Framing.messages h⟩,Bool.false_ne_true⟩
  | disconnected u =>
    rw [hr] at h
    cases congrArg Framing.rest h

/-- Any first part of what the socket took keeps the receiver connected, however it is cut, and
queues the first of the messages in order: all of them once nothing waits or is under way. -/
def Delivers (params : Params) (s : SendState) (msgs : List SerializedNetMsg) : Prop :=
  ∀ chunks, streamOf chunks <+: s.taken → ∃ node, receiveAll params .new chunks=.ok (node,true) ∧
    queued node <+: msgs ∧ (s.vSendMsg=[] → streamOf chunks=s.taken → queued node=msgs)

theorem run_delivers (params : Params) (calls : List Call)
    (hm : ∀ msg∈calls.flatMap Call.pushed, Sendable msg) :
    ∃ s, calls.foldlM (call params) {}=.ok s ∧ s.Delivers params (calls.flatMap Call.pushed) := by
  obtain ⟨bytes,ht,hf⟩ := frames_transport params hm
  obtain ⟨_,he,-⟩ | ⟨_,s,hb,hr,ha⟩ := (⟨rfl,rfl,.inl rfl,by simp⟩ : Accounts {} []).run calls
  · cases ht.symm.trans he
  cases ht.symm.trans hb
  refine ⟨s,hr,?_⟩
  rintro chunks ⟨t,hc⟩
  obtain ⟨node,connected,hn,hq,hd⟩ := (reads_new params).receiveAll chunks
  have hu : bytes=_ := ha.unsent
  rw [nil_append] at hq hd
  have he := hf
  rw [hu,← hc,append_assoc] at he
  obtain ⟨hp,hw⟩ := frames_of_append he
  cases connected with
  | false => exact absurd (hd.mp rfl) hw
  | true =>
    refine ⟨node,hn,hq ▸ hp,fun hv h => ?_⟩
    rw [hv,flatten_nil,drop_nil,append_nil,← h] at hu
    rw [← hu,hf] at hq
    exact hq

theorem run_delivers_resumed :
    let params : Params := ⟨[0,0,0,0],fun h _ => h,rfl⟩
    let calls := [Call.pushMessage ⟨[118],[7]⟩ [.sent 24],.pushMessage ⟨[119],[8,9]⟩ [],
      .socketSendData [.sent 1,.sent 9]]
    ∃ s, calls.foldlM (call params) {}=.ok s ∧ s.taken.length=34 ∧ s.nSendOffset=9 ∧
      s.Delivers params [⟨[118],[7]⟩,⟨[119],[8,9]⟩] := by
  intro params calls
  have hm : ∀ msg∈calls.flatMap Call.pushed, Sendable msg := by
    simp only [calls,Call.pushed,flatMap_cons,flatMap_nil,append_nil,singleton_append,
      forall_mem_cons,not_mem_nil,false_implies,implies_true,and_true]
    exact ⟨⟨by decide,by simp,by decide⟩,⟨by decide,by simp,by decide⟩⟩
  obtain ⟨s,hs,hd⟩ := run_delivers params calls hm
  cases id hs
  exact ⟨_,hs,rfl,rfl,hd⟩
end SendState
end Xero.Transport
