import Xero.HeadersSyncBurial

/-! A headers sync never rejects a peer that serves one chain twice. -/
namespace Xero
namespace HeadersSync
open List
variable {c : HeadersSync} {chain L : List CBlockHeader}

lemma permitted_nextHeightInt {ht : Int} {nb : Nat} (h : 0≤ht)
    (hl : ht+L.length<2^31) (hL : c.Permitted (·+1) ht nb L) :
    c.Permitted nextHeightInt ht nb L := by
  induction L generalizing ht nb with
  | nil => trivial
  | cons x L ih =>
    rw [length_cons] at hl
    unfold Permitted at hL ⊢
    rw [nextHeightInt_of_lt (by omega) (by omega)]
    exact ⟨hL.1,ih (by omega) (by omega) hL.2⟩

def fullCalls (batches : List (List CBlockHeader)) : List HeadersCall :=
  batches.map fun headers => ⟨headers,true⟩

/-- A peer that serves one chain of enough work twice, in any batches: until the work is enough at
the end of a batch, and again until it is enough or the peer stops. -/
structure HonestPeer (c : HeadersSync) (chain : List CBlockHeader)
    (first second : List (List CBlockHeader)) : Prop where
  linked : c.Linked c.chainStart.header chain
  permitted : c.Permitted (·+1) c.chainStart.nHeight c.chainStart.header.nBits chain
  first_served : first.flatten <+: chain
  second_served : second.flatten <+: chain
  nonempty : ∀ headers∈first++second, headers≠[]
  few : (c.commitments (·+1) c.chainStart.nHeight first.flatten).length ≤ c.maxCommitments
  first_ne_nil : first≠[]
  enough : c.minimumRequiredWork ≤ c.workAfter first.flatten
  until_enough : ∀ batches, batches <+: first → batches≠[] → batches≠first →
    c.workAfter batches.flatten < c.minimumRequiredWork
  until_reached : ∀ batches, batches <+: second → batches≠second → ¬c.Reached batches.flatten

def honestRun (c : HeadersSync) (first second : List (List CBlockHeader)) : SyncTrace :=
  c.run (fullCalls first++fullCalls second)

variable {first second bts : List (List CBlockHeader)}

lemma fullCalls_concat {hd : List CBlockHeader} :
    fullCalls (bts++[hd])=fullCalls bts++[⟨hd,true⟩] := by
  unfold fullCalls
  rw [map_append]
  rfl

lemma flatten_initial {α : Type} {L M : List (List α)} (h : L <+: M) : L.flatten <+: M.flatten := by
  obtain ⟨N,rfl⟩ := h
  rw [flatten_append]
  exact prefix_append _ _

lemma flatten_concat {α : Type} (L : List (List α)) (x : List α) :
    (L++[x]).flatten=L.flatten++x := by
  rw [flatten_append,flatten_singleton]

lemma fullCalls_ne_nil (h : ∀ headers∈bts, headers≠[]) : ∀ y∈fullCalls bts, y.headers≠[] := by
  intro y hy
  obtain ⟨headers,hm,rfl⟩ := mem_map.mp hy
  exact h headers hm

lemma forall_success_concat {trace tr' : SyncTrace} {ret : ProcessingResult}
    (hre : tr'.results=trace.results++[ret]) (h : ∀ ret∈trace.results, ret.success)
    (hrt : ret.success) : ∀ ret∈tr'.results, ret.success := by
  rw [hre]
  intro r hr
  cases mem_append.mp hr with
  | inl hr => exact h r hr
  | inr hr => rw [mem_singleton.mp hr,hrt]

section
variable (h : c.HonestPeer chain first second)
include h

lemma HonestPeer.run_first (hh : c.chainStart.nHeight+first.flatten.length<2^31)
    (hi : bts <+: first) :
    (c.run (fullCalls bts)).presync=bts.flatten ∧
      (c.run (fullCalls bts)).redownload=[] ∧
      (c.run (fullCalls bts)).released=[] ∧
      (∀ ret∈(c.run (fullCalls bts)).results, ret.success) ∧
      (c.run (fullCalls bts)).state.downloadState=
        if bts=first then .redownload else .presync := by
  induction bts using reverseRecOn with
  | nil =>
    rw [if_neg (Ne.symm h.first_ne_nil)]
    exact ⟨rfl,rfl,rfl,fun ret hrt => absurd hrt not_mem_nil,rfl⟩
  | append_singleton bts he ih =>
    obtain ⟨hp,hre,hrl,hr,hst⟩ := ih ((prefix_append bts [he]).trans hi)
    have hn : ∀ b∈bts++[he], b≠[] := fun b hb =>
      h.nonempty b (mem_append_left _ (hi.subset hb))
    have hca : c.SyncInvariant (c.run (fullCalls bts)) :=
      run_invariant _ (fullCalls_ne_nil fun b hb => hn b (mem_append_left _ hb))
    have hbe : bts≠first := by
      intro heq
      have hle := hi.length_le
      rw [heq,length_append,length_singleton] at hle
      omega
    have hf : bts.flatten++he <+: first.flatten := by
      rw [← flatten_concat]
      exact flatten_initial hi
    have hsh : c.chainStart.nHeight+(bts.flatten++he).length<2^31 := by
      have hle := hf.length_le
      omega
    have hln := linked_of_initial (hf.trans h.first_served) h.linked
    have hpe := permitted_of_initial (hf.trans h.first_served) h.permitted
    have hc := (commitments_initial hf c.chainStart.nHeight).length_le.trans h.few
    rw [← commitments_nextHeightInt c.chainStart.nHeight_nonneg hsh] at hc
    rw [if_neg hbe] at hst
    have hs := call_presync_succeeds (x := ⟨he,true⟩) hca
      (hn he (mem_append_right _ (mem_singleton_self _))) rfl hst
    rw [hp,hre,← run_concat,← fullCalls_concat] at hs
    obtain ⟨hr',hp',hre',hst'⟩ := hs ((linked_append _).mp hln).2
      (permitted_nextHeightInt c.chainStart.nHeight_nonneg hsh hpe) hc
    refine ⟨?_,hre',?_,forall_success_concat hr' hr rfl,?_⟩
    · rw [hp',flatten_concat]
    · rw [released_of_results hr',hrl]
      rfl
    · rw [hst',← flatten_concat]
      by_cases hl : bts++[he]=first
      · rw [if_pos hl,hl,if_pos h.enough]
      · have hls := h.until_enough _ hi (concat_ne_nil _ _) hl
        rw [if_neg hl,if_neg (not_le.mpr hls)]

lemma HonestPeer.reached_first : c.Reached first.flatten := by
  refine ⟨first.flatten,fun hn => ?_,prefix_rfl,h.enough⟩
  obtain ⟨b,hb⟩ := exists_mem_of_ne_nil first h.first_ne_nil
  exact h.nonempty b (mem_append_left _ hb) (flatten_eq_nil_iff.mp hn b hb)

lemma HonestPeer.run_second (hh : c.chainStart.nHeight+first.flatten.length<2^31)
    (hi : bts <+: second) :
    (c.honestRun first bts).presync=first.flatten ∧
      (c.honestRun first bts).redownload=bts.flatten ∧
      (∀ ret∈(c.honestRun first bts).results, ret.success) ∧
      (¬c.Reached bts.flatten →
        (c.honestRun first bts).state.downloadState=.redownload) ∧
      (c.Reached bts.flatten → (c.honestRun first bts).released=bts.flatten) := by
  induction bts using reverseRecOn with
  | nil =>
    obtain ⟨hp,hrd,hrl,hre,hst⟩ := h.run_first hh prefix_rfl
    have hru : c.honestRun first []=c.run (fullCalls first) := congrArg c.run (append_nil _)
    rw [if_pos rfl] at hst
    rw [hru]
    exact ⟨hp,hrd,hre,fun _ => hst,fun _ => hrl⟩
  | append_singleton bts he ih =>
    obtain ⟨hp,hrd,hre,hst,-⟩ := ih ((prefix_append bts [he]).trans hi)
    have hne : ∀ b∈bts++[he], b≠[] := fun b hb =>
      h.nonempty b (mem_append_right _ (hi.subset hb))
    have hc : c.SyncInvariant (c.honestRun first bts) := by
      refine run_invariant _ fun y hy => ?_
      cases mem_append.mp hy with
      | inl hy => exact fullCalls_ne_nil (fun b hb => h.nonempty b (mem_append_left _ hb)) y hy
      | inr hy => exact fullCalls_ne_nil (fun b hb => hne b (mem_append_left _ hb)) y hy
    have hbe : bts≠second := by
      intro heq
      have hle := hi.length_le
      rw [heq,length_append,length_singleton] at hle
      omega
    have hf : bts.flatten++he <+: chain := by
      rw [← flatten_concat]
      exact (flatten_initial hi).trans h.second_served
    have hno := h.until_reached bts ((prefix_append bts [he]).trans hi) hbe
    have hs := call_redownload_succeeds (x := ⟨he,true⟩) hc
      (hne he (mem_append_right _ (mem_singleton_self _))) rfl (hst hno)
    have hru : c.honestRun first (bts++[he])= c.call (c.honestRun first bts) ⟨he,true⟩ := by
      unfold honestRun
      rw [fullCalls_concat,← append_assoc,run_concat]
    unfold recorded at hs
    rw [hp,hrd,commitments_nextHeightInt c.chainStart.nHeight_nonneg hh,← hru] at hs
    have hm : ∀ M, M <+: bts.flatten++he → ¬c.Reached M →
        c.commitments (·+1) c.chainStart.nHeight M <+:
          c.commitments (·+1) c.chainStart.nHeight first.flatten := by
      intro M hM hl
      obtain hi | hi := prefix_or_prefix_of_prefix (hM.trans hf) h.first_served
      · exact commitments_initial hi _
      · exact absurd (h.reached_first.mono hi) hl
    obtain ⟨_,_,hre',hp',hrd',ha,hn⟩ := hs
      (linked_of_initial hf h.linked) (permitted_of_initial hf h.permitted) hm
    refine ⟨hp',?_,forall_success_concat hre' hre rfl,fun hl => ?_,fun hr => ?_⟩
    · rw [hrd',flatten_concat]
    · rw [flatten_concat] at hl
      exact (hn hl).1
    · rw [flatten_concat] at hr ⊢
      rw [released_of_results hre']
      exact ha hr
end

/-- Every call succeeds, and once the work is reached all headers of the second download have
been released in order. -/
theorem honestRun_accepts (c : HeadersSync) (chain : List CBlockHeader)
    (first second : List (List CBlockHeader)) (h : c.HonestPeer chain first second)
    (hheight : c.chainStart.nHeight+first.flatten.length<2^31) :
    (∀ ret∈(c.honestRun first second).results, ret.success) ∧
      (c.Reached second.flatten → (c.honestRun first second).released=second.flatten) := by
  obtain ⟨-,-,hre,-,hr⟩ := h.run_second hheight prefix_rfl
  exact ⟨hre,hr⟩

instance (headers : List CBlockHeader) : Decidable (c.Reached headers) :=
  decidable_of_iff (∃ L∈headers.inits, L≠[] ∧ c.minimumRequiredWork ≤ c.workAfter L) <| by
    unfold Reached
    simp only [mem_inits]
    exact exists_congr fun L => ⟨fun ⟨h,hne,hw⟩ => ⟨hne,h,hw⟩,fun ⟨hne,h,hw⟩ => ⟨h,hne,hw⟩⟩

lemma shortSync_honest : shortSync.HonestPeer [limitHeader 0 1,limitHeader 1 2]
    [[limitHeader 0 1,limitHeader 1 2]] [[limitHeader 0 1],[limitHeader 1 2]] where
  linked := isChain_cons_cons.mpr ⟨rfl,isChain_cons_cons.mpr ⟨rfl,isChain_singleton _⟩⟩
  permitted := ⟨permitted_limit _,permitted_limit _,trivial⟩
  first_served := prefix_rfl
  second_served := prefix_rfl
  nonempty := by decide
  few := by decide +kernel
  first_ne_nil := cons_ne_nil _ _
  enough := by decide +kernel
  until_enough := by
    simp only [← mem_inits]
    decide +kernel
  until_reached := by
    simp only [← mem_inits]
    decide +kernel

theorem honestRun_accepts_two_batches : (∀ ret∈(shortSync.honestRun [[limitHeader 0 1,
    limitHeader 1 2]]
      [[limitHeader 0 1],[limitHeader 1 2]]).results, ret.success) ∧
    (shortSync.Reached [[limitHeader 0 1],[limitHeader 1 2]].flatten →
      (shortSync.honestRun [[limitHeader 0 1,limitHeader 1 2]]
        [[limitHeader 0 1],[limitHeader 1 2]]).released=
          [[limitHeader 0 1],[limitHeader 1 2]].flatten) :=
  honestRun_accepts shortSync _ _ _ shortSync_honest (by decide)

/- Three headers up to above 2^31, where the first download misses a commitment. -/
def shortWrapSync : HeadersSync :=
  {wrapSync with minimumRequiredWork := 3*getBlockProof 0x1e0ffff0}

lemma shortWrapSync_honest : shortWrapSync.HonestPeer (replicate 3 (limitHeader 0 0))
    [replicate 3 (limitHeader 0 0)] [replicate 3 (limitHeader 0 0)] where
  linked := linked_replicate rfl 3
  permitted := ⟨permitted_limit _,permitted_limit _,permitted_limit _,trivial⟩
  first_served := prefix_rfl
  second_served := prefix_rfl
  nonempty := by decide
  few := by decide +kernel
  first_ne_nil := cons_ne_nil _ _
  enough := by decide +kernel
  until_enough := by
    simp only [← mem_inits]
    decide +kernel
  until_reached := by
    simp only [← mem_inits]
    decide +kernel

/- The second download runs out of commitments at 2^31. -/
theorem honestRun_rejects_above_int : ¬∀ (c : HeadersSync) (chain : List CBlockHeader)
    (first second : List (List CBlockHeader)), c.HonestPeer chain first second →
    (∀ ret∈(c.honestRun first second).results, ret.success) ∧
      (c.Reached second.flatten → (c.honestRun first second).released=second.flatten) := by
  intro ha
  have ho := (ha shortWrapSync _ _ _ shortWrapSync_honest).1
  revert ho
  decide +kernel
end HeadersSync
end Xero
