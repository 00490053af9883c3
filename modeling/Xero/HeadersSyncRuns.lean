import Xero.HeadersSyncPhases

/-! Runs of a headers sync over any batches a peer sends, and what they release. -/
namespace Xero
open List

structure HeadersCall where
  headers : List CBlockHeader
  full : Bool
  deriving DecidableEq, Repr

structure SyncTrace where
  state : HeadersSyncState
  presync : List CBlockHeader := []
  redownload : List CBlockHeader := []
  results : List ProcessingResult := []
  deriving DecidableEq, Repr

def SyncTrace.released (tr : SyncTrace) : List CBlockHeader :=
  tr.results.flatMap (·.powValidatedHeaders)

namespace HeadersSync
variable (c : HeadersSync)

def call (tr : SyncTrace) (x : HeadersCall) : SyncTrace :=
  let (ret,s) := c.processNextHeaders tr.state x.headers x.full
  {state := s
   presync := if tr.state.downloadState=.presync then tr.presync++x.headers else tr.presync
   redownload :=
    if tr.state.downloadState=.redownload then tr.redownload++x.headers else tr.redownload
   results := tr.results++[ret]}

variable (calls : List HeadersCall)

def run : SyncTrace := calls.foldl c.call {state := c.init}
def recorded (tr : SyncTrace) : List Bool :=
  c.commitments nextHeightInt c.chainStart.nHeight tr.presync

structure SyncInvariant (tr : SyncTrace) : Prop where
  released : tr.released <+: tr.redownload
  linked : c.Linked c.chainStart.header tr.released
  presync : tr.state.downloadState=.presync →
    Presyncing c tr.presync tr.state ∧ tr.redownload=[]
  redownload : tr.state.downloadState=.redownload → ∃ buffer,
    tr.redownload=tr.released++buffer ∧
      Redownloading c (c.recorded tr) tr.released buffer tr.state

def Buried (tr : SyncTrace) : Prop :=
  tr.released.length+REDOWNLOAD_BUFFER_SIZE≤tr.redownload.length ∧
    c.commitments (·+1) c.chainStart.nHeight tr.redownload <+: c.recorded tr ∨
  c.Reached tr.redownload

structure CallSpec (tr tr' : SyncTrace) : Prop where
  invariant : c.SyncInvariant tr'
  buried : tr'.released≠tr.released → c.Buried tr'
  failed : ∀ ret, tr'.results=tr.results++[ret] → ret.success=false →
    tr'.released=tr.released ∧ tr'.state.downloadState=.final

variable {c} {tr : SyncTrace} {x : HeadersCall} {ret : ProcessingResult} {s : HeadersSyncState}

lemma released_concat {p r : List CBlockHeader} {re : List ProcessingResult} :
    (SyncTrace.mk s p r (re++[ret])).released=
      re.flatMap (·.powValidatedHeaders)++ret.powValidatedHeaders := by
  unfold SyncTrace.released
  rw [flatMap_append,flatMap_singleton]

variable {tr' : SyncTrace}

lemma released_of_results {trace : SyncTrace} (h : tr'.results=trace.results++[ret]) :
    tr'.released=trace.released++ret.powValidatedHeaders := by
  unfold SyncTrace.released
  rw [h,flatMap_append,flatMap_singleton]

lemma SyncInvariant.of_final (hre : tr'.released <+: tr'.redownload)
    (hl : c.Linked c.chainStart.header tr'.released)
    (hf : tr'.state.downloadState=.final) : c.SyncInvariant tr' := by
  refine ⟨hre,hl,fun hp => ?_,fun hr => ?_⟩
  · cases hp.symm.trans hf
  · cases hr.symm.trans hf

lemma CallSpec.of_final {p r : List CBlockHeader} (h : c.SyncInvariant tr)
    (hm : tr.redownload <+: r) (hr : ret.powValidatedHeaders=[]) (hf : s.downloadState=.final) :
    c.CallSpec tr ⟨s,p,r,tr.results++[ret]⟩ := by
  have hs : (SyncTrace.mk s p r (tr.results++[ret])).released=tr.released := by
    rw [released_concat,hr,append_nil]
    rfl
  refine ⟨.of_final ?_ ?_ hf,fun hne => absurd hs hne,fun _ _ _ => ⟨hs,hf⟩⟩
  · rw [hs]
    exact h.released.trans hm
  · rw [hs]
    exact h.linked

lemma CallSpec.of_success (hr : tr'.results=tr.results++[ret]) (ho : ret.success)
    (h : c.SyncInvariant tr') (hb : tr'.released≠tr.released → c.Buried tr') :
    c.CallSpec tr tr' := by
  refine ⟨h,hb,fun r' hr' hf => ?_⟩
  rw [hr,append_cancel_left_eq,cons.injEq] at hr'
  rw [← hr'.1,ho] at hf
  cases hf

lemma call_eq_presync (hne : x.headers≠[]) (hs : tr.state.downloadState=.presync) :
    c.call tr x=⟨finishCall (c.processPresync tr.state x.headers x.full).1
        (c.processPresync tr.state x.headers x.full).2,
      tr.presync++x.headers,tr.redownload,
      tr.results++[(c.processPresync tr.state x.headers x.full).1]⟩ := by
  unfold call processNextHeaders
  rw [if_neg (by rwa [List.isEmpty_iff]),hs]
  rfl

lemma call_eq_redownload (hne : x.headers≠[]) (hs : tr.state.downloadState=.redownload) :
    c.call tr x=⟨finishCall (c.processRedownload tr.state x.headers x.full).1
        (c.processRedownload tr.state x.headers x.full).2,
      tr.presync,tr.redownload++x.headers,
      tr.results++[(c.processRedownload tr.state x.headers x.full).1]⟩ := by
  unfold call processNextHeaders
  rw [if_neg (by rwa [List.isEmpty_iff]),hs]
  rfl

lemma finishCall_final
    (h : (ret.success && ret.requestMore)=false) : (finishCall ret s).downloadState=.final := by
  unfold finishCall
  rw [h]
  rfl

lemma finishCall_more (headers : List CBlockHeader) (s : HeadersSyncState) :
    finishCall ⟨headers,true,true⟩ s=s := rfl

section
variable (h : c.SyncInvariant tr) (hne : x.headers≠[])
include h hne

lemma call_presync (hst : tr.state.downloadState=.presync) : c.CallSpec tr (c.call tr x) := by
  obtain ⟨hpr,hn⟩ := h.presync hst
  have hre : tr.released=[] := by
    have hi := h.released
    rw [hn] at hi
    exact prefix_nil.mp hi
  rw [call_eq_presync hne hst]
  unfold processPresync
  cases hv : c.validateAndStoreHeadersCommitments tr.state x.headers with
  | error s => exact CallSpec.of_final h prefix_rfl rfl rfl
  | ok s =>
    have hsa : (SyncTrace.mk s (tr.presync++x.headers) tr.redownload
        (tr.results++[⟨[],true,true⟩])).released=tr.released := by
      rw [released_concat,append_nil]
      rfl
    dsimp only
    obtain ⟨-,hs⟩ | ⟨-,hs⟩ := validateAndStoreHeadersCommitments_ok hpr hne hv
    · rw [hs.state]
      cases x.full with
      | false => exact CallSpec.of_final h prefix_rfl rfl (finishCall_final rfl)
      | true =>
        refine CallSpec.of_success rfl rfl ⟨?_,?_,fun _ => ⟨hs,hn⟩,fun hr => ?_⟩
          fun hne => absurd hsa hne
        · exact hsa.symm ▸ h.released
        · exact hsa.symm ▸ h.linked
        · cases hs.state.symm.trans hr
    · rw [hs.state,beq_self_eq_true,Bool.or_true,finishCall_more]
      refine CallSpec.of_success rfl rfl ⟨?_,?_,fun hp => ?_,fun _ => ⟨[],?_,?_⟩⟩
        fun hne => absurd hsa hne
      · exact hsa.symm ▸ h.released
      · exact hsa.symm ▸ h.linked
      · cases hs.state.symm.trans hp
      · rw [hsa,hre,hn]
        rfl
      · rw [hsa,hre]
        exact hs

lemma call_redownload (hst : tr.state.downloadState=.redownload) : c.CallSpec tr (c.call tr x) := by
  obtain ⟨b,hsp,hrd⟩ := h.redownload hst
  rw [call_eq_redownload hne hst]
  unfold processRedownload
  cases hv : x.headers.foldlM c.validateAndStoreRedownloadedHeader tr.state with
  | error s => exact CallSpec.of_final h (prefix_append _ _) rfl rfl
  | ok s =>
    have hs := hrd.batch hv
    have hbu : b++x.headers≠[] := append_ne_nil_of_right_ne_nil _ hne
    obtain ⟨p,re,hpp,hrt,-,ha,hso⟩ := popHeadersReadyForAcceptance_spec hs hbu
    have hrc : tr.redownload++x.headers=tr.released++p++re := by
      rw [hsp,append_assoc,hpp,append_assoc]
    have hass : tr.released++(b++x.headers)=tr.redownload++x.headers := by
      rw [hsp,append_assoc]
    rw [hass] at ha hso
    have hr : ∀ s r, (SyncTrace.mk s tr.presync (tr.redownload++x.headers)
        (tr.results++[⟨p,true,r⟩])).released=tr.released++p := by
      intro s r
      rw [released_concat]
      rfl
    have hi : tr.released++p <+: tr.redownload++x.headers := ⟨re,hrc.symm⟩
    have hl : c.Linked c.chainStart.header (tr.released++p) := by
      have hl := hs.linked
      rw [hass,hrc] at hl
      exact ((linked_append _).mp hl).1
    dsimp only
    rw [hrt]
    by_cases hre : c.Reached (tr.redownload++x.headers)
    · obtain ⟨-,he,hse⟩ := ha hre
      rw [he,hse]
      refine CallSpec.of_success rfl rfl (.of_final ?_ ?_ (finishCall_final rfl)) fun _ => .inr hre
      · exact (hr _ _).symm ▸ hi
      · exact (hr _ _).symm ▸ hl
    · obtain ⟨hsi,hle,hn⟩ := hso hre
      have hm : c.commitments (·+1) c.chainStart.nHeight (tr.redownload++x.headers) <+:
          c.recorded tr := by
        have hrec := hn.matched (hrc ▸ hre)
        rw [hrc]
        exact ⟨_,hrec.symm⟩
      have hb : tr.released++p≠tr.released → (tr.released++p).length+REDOWNLOAD_BUFFER_SIZE ≤
            (tr.redownload++x.headers).length := by
        intro hne
        have hpo : p≠[] := fun hni => hne (by rw [hni,append_nil])
        have hln : (tr.released++p++re).length=(tr.released++p).length+re.length := length_append
        rw [hrc,hln,hsi hpo]
      rw [isEmpty_eq_false_iff.mpr hle,Bool.false_and,Bool.not_false]
      cases x.full with
      | false =>
        refine CallSpec.of_success rfl rfl (.of_final ?_ ?_ (finishCall_final rfl)) fun hne =>
            .inl ?_
        · exact (hr _ _).symm ▸ hi
        · exact (hr _ _).symm ▸ hl
        · rw [hr] at hne ⊢
          exact ⟨hb hne,hm⟩
      | true =>
        refine CallSpec.of_success rfl rfl ⟨?_,?_,fun hp => ?_,fun _ =>
            ⟨re,?_,?_⟩⟩ fun hne => .inl ?_
        · exact (hr _ _).symm ▸ hi
        · exact (hr _ _).symm ▸ hl
        · cases hn.state.symm.trans hp
        · rw [hr]
          exact hrc
        · rw [hr]
          exact hn
        · rw [hr] at hne ⊢
          exact ⟨hb hne,hm⟩

lemma call_spec : c.CallSpec tr (c.call tr x) := by
  cases hs : tr.state.downloadState with
  | presync => exact call_presync h hne hs
  | redownload => exact call_redownload h hne hs
  | final =>
    unfold call processNextHeaders
    rw [if_neg (by rwa [List.isEmpty_iff]),hs]
    exact CallSpec.of_final h prefix_rfl rfl hs
end

lemma init_invariant : c.SyncInvariant {state := c.init} :=
  ⟨prefix_rfl,isChain_singleton _,fun _ => ⟨init_presyncing,rfl⟩,
    fun h => DownloadState.noConfusion h⟩

lemma run_concat (x : HeadersCall) : c.run (calls++[x])=c.call (c.run calls) x := by
  unfold run
  rw [foldl_append]
  rfl

lemma run_invariant (hne : ∀ y∈calls, y.headers≠[]) : c.SyncInvariant (c.run calls) := by
  induction calls using reverseRecOn with
  | nil => exact init_invariant
  | append_singleton calls x ih =>
    rw [run_concat]
    have hc := ih fun y hy => hne y (mem_append_left _ hy)
    exact (call_spec hc (hne x (mem_append_right _ (mem_singleton.mpr rfl)))).invariant

lemma foldl_call_final (m : List HeadersCall) (hf : tr.state.downloadState=.final) :
    (m.foldl c.call tr).released=tr.released := by
  induction m generalizing tr with
  | nil => rfl
  | cons x m ih =>
    have hc : c.processNextHeaders tr.state x.headers x.full=({},tr.state) := by
      unfold processNextHeaders
      rw [hf,ite_self]
    have hn : c.call tr x=⟨tr.state,tr.presync,tr.redownload,tr.results++[⟨[],false,false⟩]⟩ := by
      unfold call
      rw [hc,hf]
      rfl
    have hs : (c.call tr x).state.downloadState=.final := by
      rw [hn]
      exact hf
    rw [foldl_cons,ih hs,hn,released_concat,append_nil]
    rfl

lemma call_presync_succeeds (h : c.SyncInvariant tr) (hne : x.headers≠[]) (hf : x.full)
    (hst : tr.state.downloadState=.presync) (hl : c.Linked (c.tip tr.presync) x.headers)
    (hpe : c.Permitted nextHeightInt c.chainStart.nHeight c.chainStart.header.nBits
      (tr.presync++x.headers))
    (hcn : (c.commitments nextHeightInt c.chainStart.nHeight (tr.presync++x.headers)).length ≤
      c.maxCommitments) :
    (c.call tr x).results=tr.results++[⟨[],true,true⟩] ∧
      (c.call tr x).presync=tr.presync++x.headers ∧ (c.call tr x).redownload=tr.redownload ∧
      (c.call tr x).state.downloadState=
        if c.minimumRequiredWork ≤ c.workAfter (tr.presync++x.headers) then .redownload
        else .presync := by
  obtain ⟨hp,-⟩ := h.presync hst
  obtain ⟨s,hs⟩ := validateAndStoreHeadersCommitments_succeeds hp hl hpe hcn
  have hc : c.processPresync tr.state x.headers x.full=(⟨[],true,true⟩,s) := by
    unfold processPresync
    rw [hs,hf]
    rfl
  rw [call_eq_presync hne hst,hc]
  refine ⟨rfl,rfl,rfl,?_⟩
  obtain ⟨hw,hn⟩ | ⟨hw,hn⟩ := validateAndStoreHeadersCommitments_ok hp hne hs
  · rw [if_neg (not_le.mpr hw)]
    exact hn.state
  · rw [if_pos hw]
    exact hn.state

lemma call_redownload_succeeds (h : c.SyncInvariant tr) (hne : x.headers≠[])
    (hf : x.full) (hst : tr.state.downloadState=.redownload)
    (hl : c.Linked c.chainStart.header (tr.redownload++x.headers))
    (hp : c.Permitted (·+1) c.chainStart.nHeight c.chainStart.header.nBits
      (tr.redownload++x.headers))
    (hm : ∀ M, M <+: tr.redownload++x.headers → ¬c.Reached M →
      c.commitments (·+1) c.chainStart.nHeight M <+: c.recorded tr) :
    ∃ popped more, (c.call tr x).results=tr.results++[⟨popped,true,more⟩] ∧
      (c.call tr x).presync=tr.presync ∧ (c.call tr x).redownload=tr.redownload++x.headers ∧
      (c.Reached (tr.redownload++x.headers) → tr.released++popped=tr.redownload++x.headers) ∧
      (¬c.Reached (tr.redownload++x.headers) → (c.call tr x).state.downloadState=.redownload ∧
        (popped=[] → (tr.redownload++x.headers).length ≤
          tr.released.length+REDOWNLOAD_BUFFER_SIZE)) := by
  obtain ⟨b,hsp,hre⟩ := h.redownload hst
  have ha : tr.released++(b++x.headers)=tr.redownload++x.headers := by
    rw [hsp,append_assoc]
  rw [← ha] at hl hp hm
  obtain ⟨s,hs⟩ := hre.succeeds hl hp hm
  have hnx := hre.batch hs
  have hb : b++x.headers≠[] := append_ne_nil_of_right_ne_nil _ hne
  obtain ⟨popped,_,hpo,hrt,hno,hal,hso⟩ := popHeadersReadyForAcceptance_spec hnx hb
  rw [call_eq_redownload hne hst]
  unfold processRedownload
  rw [hs,hf]
  dsimp only
  rw [hrt,Bool.and_true]
  refine ⟨popped,_,rfl,rfl,rfl,fun hr => ?_,fun hn => ⟨?_,fun hni => ?_⟩⟩
  · rw [← ha] at hr ⊢
    rw [hpo,(hal hr).1,append_nil]
  · rw [← ha] at hn
    obtain ⟨-,hle,hst⟩ := hso hn
    rw [isEmpty_eq_false_iff.mpr hle,Bool.false_and,Bool.not_false]
    exact hst.state
  · rw [← ha,length_append]
    exact Nat.add_le_add_left (hno hni) _
end HeadersSync
end Xero
