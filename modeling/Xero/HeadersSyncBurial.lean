import Xero.HeadersSyncRuns

/-! A headers sync releases only headers that are well buried, or on a chain of enough work. -/
namespace Xero
namespace HeadersSync
open List Int Nat
variable {c : HeadersSync} {L M : List CBlockHeader} {nx : Int → Int} {height : Int}

lemma nextHeightInt_of_lt (h : -2^31≤height) (hl : height+1<2^31) :
    nextHeightInt height=height+1 := by
  unfold nextHeightInt
  apply bmod_eq_of_le
  · omega
  · omega

lemma commitments_nextHeightInt (h : 0≤height) (hl : height+L.length<2^31) :
    c.commitments nextHeightInt height L=c.commitments (·+1) height L := by
  induction L generalizing height with
  | nil => rfl
  | cons x L ih =>
    rw [length_cons,cast_succ] at hl
    simp only [commitments]
    rw [nextHeightInt_of_lt (by omega) (by omega),ih (by omega) (by omega)]

lemma commitments_ne_nil {j : Nat} {y : CBlockHeader} (hy : L[j]?=some y)
    (hc : c.isCommitmentHeight (height+j+1)) : c.commitments (·+1) height L≠[] := by
  induction L generalizing height j with
  | nil => cases hy
  | cons x L ih =>
    unfold commitments
    cases j with
    | zero =>
      rw [Nat.cast_zero,Int.add_zero] at hc
      rw [if_pos hc]
      exact cons_ne_nil _ _
    | succ j =>
      rw [cast_succ,← add_assoc,add_right_comm height] at hc
      exact append_ne_nil_of_right_ne_nil _ (ih hy hc)

lemma commitments_agree (height : Int) (h :
    c.commitments (·+1) height L <+: c.commitments (·+1) height M)
    {j : Nat} {y : CBlockHeader} (hy : L[j]?=some y) (hc : c.isCommitmentHeight (height+j+1)) :
    ∃ z, M[j]?=some z ∧ c.hasher (c.getHash y)=c.hasher (c.getHash z) := by
  induction L generalizing height M j with
  | nil => cases hy
  | cons x L ih =>
    cases M with
    | nil => exact absurd (prefix_nil.mp h) (commitments_ne_nil hy hc)
    | cons x' M =>
      unfold commitments at h
      cases j with
      | zero =>
        rw [Nat.cast_zero,Int.add_zero] at hc
        cases hy
        rw [if_pos hc,if_pos hc] at h
        exact ⟨x',rfl,(cons_prefix_cons.mp h).1⟩
      | succ j =>
        rw [cast_succ,← add_assoc,add_right_comm height] at hc
        have ht : c.commitments (·+1) (height+1) L <+: c.commitments (·+1) (height+1) M := by
          by_cases hh : c.isCommitmentHeight (height+1)
          · rw [if_pos hh,if_pos hh] at h
            exact (cons_prefix_cons.mp h).2
          · rw [if_neg hh,if_neg hh] at h
            exact h
        obtain ⟨z,hz,hb⟩ := ih (height+1) ht hy hc
        exact ⟨z,hz,hb⟩

/-- What a call may add to the released headers of a run. The commitments are compared only where
`inRange` holds. -/
structure ReleasesBuried (c : HeadersSync) (calls : List HeadersCall) (x : HeadersCall)
    (inRange : Prop) : Prop where
  released : (c.run (calls++[x])).released <+: (c.run (calls++[x])).redownload
  linked : c.Linked c.chainStart.header (c.run (calls++[x])).released
  buried : ∀ i, (c.run calls).released.length ≤ i → i<(c.run (calls++[x])).released.length →
    i+REDOWNLOAD_BUFFER_SIZE<(c.run (calls++[x])).redownload.length ∧
      (inRange → ∀ (j : Nat) y, (c.run (calls++[x])).redownload[j]?=some y →
        c.isCommitmentHeight (c.chainStart.nHeight+j+1) →
        ∃ z, (c.run (calls++[x])).presync[j]?=some z ∧
          c.hasher (c.getHash y)=c.hasher (c.getHash z)) ∨
    c.Reached (c.run (calls++[x])).redownload
  bounded : (c.run (calls++[x])).state.downloadState≠.final →
    (c.run (calls++[x])).state.headerCommitments.length ≤ c.maxCommitments
  stopped : ∀ ret, (c.run (calls++[x])).results=(c.run calls).results++[ret] →
    ret.success=false → ∀ more, (c.run (calls++[x]++more)).released=(c.run calls).released

/-- The released headers are the first ones of the second download, a hash-linked chain on top of
the start. Each was released with a buffer of headers on top of it and, while the heights of the
first download are ints, all commitments in agreement with it, or on a chain that has reached the
work. -/
theorem run_releases_buried (c : HeadersSync) (calls : List HeadersCall) (x : HeadersCall)
    (hne : ∀ y∈calls++[x], y.headers≠[]) :
    c.ReleasesBuried calls x
      (c.chainStart.nHeight+(c.run (calls++[x])).presync.length<2^31) := by
  have hca : c.SyncInvariant (c.run calls) := run_invariant calls fun y hy =>
      hne y (mem_append_left _ hy)
  have hsp := call_spec hca (hne x (mem_append_right _ (mem_singleton.mpr rfl)))
  rw [← run_concat] at hsp
  refine ⟨hsp.invariant.released,hsp.invariant.linked,fun i hi hl => ?_,fun hst => ?_,
    fun r hr hfa m => ?_⟩
  · have hm : (c.run (calls++[x])).released≠(c.run calls).released := by
      intro he
      rw [he] at hl
      omega
    refine (hsp.buried hm).imp_left fun ⟨hsi,hin⟩ => ⟨by omega,fun hheight j y hy hc => ?_⟩
    unfold recorded at hin
    rw [commitments_nextHeightInt c.chainStart.nHeight_nonneg hheight] at hin
    exact commitments_agree _ hin hy hc
  · cases hs : (c.run (calls++[x])).state.downloadState with
    | presync => exact (hsp.invariant.presync hs).1.bounded
    | redownload =>
      obtain ⟨b,-,h⟩ := hsp.invariant.redownload hs
      exact h.bounded
    | final => exact absurd hs hst
  · obtain ⟨hsa,hf⟩ := hsp.failed r hr hfa
    rw [← hsa]
    unfold run at hf ⊢
    rw [foldl_append]
    exact foldl_call_final m hf

def limitHeader (hashPrevBlock : Uint256) (nNonce : UInt32) : CBlockHeader :=
  ⟨⟨1,0,0x1e0ffff0⟩,hashPrevBlock,0,nNonce⟩

def shortSync : HeadersSync where
  consensusParams := .main
  getHash header := header.nNonce.toNat
  hasher hash := hash%2==1
  commitOffset := 1
  chainStart := ⟨limitHeader 0 0,0,0,le_rfl⟩
  minimumRequiredWork := 2*getBlockProof 0x1e0ffff0
  maxCommitments := 1

theorem run_releases_buried_two : (shortSync.run [⟨[limitHeader 0 1,limitHeader 1 2],true⟩,
      ⟨[limitHeader 0 1,limitHeader 1 2],true⟩]).released=[limitHeader 0 1,limitHeader 1 2] ∧
    shortSync.ReleasesBuried [⟨[limitHeader 0 1,limitHeader 1 2],true⟩]
      ⟨[limitHeader 0 1,limitHeader 1 2],true⟩
      (shortSync.chainStart.nHeight+(shortSync.run [⟨[limitHeader 0 1,limitHeader 1 2],true⟩,
        ⟨[limitHeader 0 1,limitHeader 1 2],true⟩]).presync.length<2^31) :=
  ⟨by decide +kernel,run_releases_buried shortSync _ _ (by decide)⟩

section
/- The start is two below 2^31, which is a commitment height. -/
def wrapSync : HeadersSync where
  consensusParams := .main
  getHash header := header.nNonce.toNat
  hasher hash := hash%2==1
  commitOffset := 16
  chainStart := ⟨limitHeader 0 0,2^31-2,0,by decide⟩
  minimumRequiredWork := 15000*getBlockProof 0x1e0ffff0
  maxCommitments := 15000

/- In the first download the header at 2^31 would have a commitment of its own; in the second one
   all headers are alike. -/
def wrapTail : List CBlockHeader := limitHeader 1 0::replicate 14997 (limitHeader 0 0)

def wrapFirst : List CBlockHeader := [limitHeader 0 0,limitHeader 0 1]++wrapTail
def wrapSecond : List CBlockHeader := replicate 13960 (limitHeader 0 0)

lemma getBlockProof_limit : getBlockProof 0x1e0ffff0=1048592 := by decide +kernel

lemma permitted_limit (height : Int) :
    permittedDifficultyTransition .main height 0x1e0ffff0 0x1e0ffff0 := by
  unfold permittedDifficultyTransition
  split_ifs with h1 h2 h3
  · decide +kernel
  · rfl
  · decide +kernel
  · rfl

lemma wrapSync_permitted (hL : ∀ y∈L, y.nBits=0x1e0ffff0) :
    wrapSync.Permitted nx height 0x1e0ffff0 L := by
  induction L generalizing height with
  | nil => trivial
  | cons x L ih =>
    rw [forall_mem_cons] at hL
    unfold Permitted
    rw [hL.1]
    exact ⟨permitted_limit _,ih hL.2⟩

lemma wrapSync_workAfter (hL : ∀ y∈L, y.nBits=0x1e0ffff0) (hl : L.length≤15000) :
    wrapSync.workAfter L=L.length*1048592 := by
  induction L using reverseRecOn with
  | nil => rfl
  | append_singleton L x ih =>
    rw [length_append,length_singleton] at hl ⊢
    rw [workAfter_concat,ih (fun y hy => hL y (mem_append_left _ hy)) (by omega),
      hL x (mem_append_right _ (mem_singleton.mpr rfl)),getBlockProof_limit]
    omega

lemma commitments_eq_replicate (hL : ∀ y∈L, c.hasher (c.getHash y)=false) :
    c.commitments nx height L=
      replicate (c.commitments nx height L).length false := by
  refine eq_replicate_iff.mpr ⟨rfl,?_⟩
  induction L generalizing height with
  | nil => exact fun b hb => absurd hb not_mem_nil
  | cons x L ih =>
    rw [forall_mem_cons] at hL
    intro b hb
    unfold commitments at hb
    cases mem_append.mp hb with
    | inl hb =>
      split_ifs at hb
      · rw [mem_singleton.mp hb,hL.1]
      · cases hb
    | inr hb => exact ih hL.2 b hb

lemma length_commitments_le (height : Int) : (c.commitments nx height L).length≤L.length := by
  induction L generalizing height with
  | nil => exact le_rfl
  | cons x L ih =>
    unfold commitments
    have ht := ih (nx height)
    rw [length_append,length_cons]
    split_ifs
    · rw [length_singleton]
      omega
    · rw [length_nil]
      omega

lemma length_commitments {r : Nat} (ho : c.commitOffset<584)
    (hr : ∀ k≤L.length, c.isCommitmentHeight (nx^[k] height)=((r+k)%584==c.commitOffset)) :
    (c.commitments nx height L).length+(r+584-c.commitOffset)/584=
      (r+L.length+584-c.commitOffset)/584 := by
  induction L using reverseRecOn with
  | nil => rw [commitments,length_nil,zero_add,length_nil,add_zero]
  | append_singleton L x ih =>
    rw [length_append,length_singleton] at hr ⊢
    have hb := ih fun k hk => hr k (by omega)
    rw [commitments_concat,hr _ le_rfl,length_append]
    by_cases hc : (r+(L.length+1))%584=c.commitOffset
    · rw [if_pos (by rwa [beq_iff_eq]),length_singleton]
      omega
    · rw [if_neg (by rwa [beq_iff_eq]),length_nil]
      omega

lemma wrapped_height (k : Nat) (hk : k≤15000) : nextHeightInt^[k] (-2^31)=-2^31+k := by
  induction k with
  | zero => rfl
  | succ k ih =>
    rw [Function.iterate_succ_apply',ih (by omega),nextHeightInt_of_lt (by omega) (by omega)]
    omega

lemma nBits_of_mem_wrapFirst : ∀ y∈wrapFirst, y.nBits=0x1e0ffff0 := by
  intro y hy
  unfold wrapFirst wrapTail at hy
  simp only [mem_append,mem_cons,mem_replicate,not_mem_nil,or_false] at hy
  obtain (rfl | rfl) | rfl | ⟨-,rfl⟩ := hy
  all_goals rfl

lemma eq_of_prefix_wrapSecond (h : L <+: wrapSecond) : L.length≤13960 ∧
    ∀ y∈L, y=limitHeader 0 0 := by
  refine ⟨h.length_le.trans (length_replicate).le,fun y hy => ?_⟩
  exact eq_of_mem_replicate (h.subset hy)

lemma wrapSecond_not_reached (h : L <+: wrapSecond) : ¬wrapSync.Reached L := by
  rintro ⟨M,-,hM,hw⟩
  obtain ⟨_,ha⟩ := eq_of_prefix_wrapSecond (hM.trans h)
  rw [wrapSync_workAfter (fun y hy => ha y hy ▸ rfl) (by omega)] at hw
  change 15000*getBlockProof 0x1e0ffff0≤M.length*1048592 at hw
  rw [getBlockProof_limit] at hw
  omega

lemma length_wrapTail : wrapTail.length=14998 := by
  unfold wrapTail
  rw [length_cons,length_replicate]

lemma length_commitments_wrapTail :
    24≤(wrapSync.commitments nextHeightInt (-2^31) wrapTail).length := by
  have hp : ∀ k≤wrapTail.length, wrapSync.isCommitmentHeight (nextHeightInt^[k] (-2^31))=
      ((2^64-2^31+k)%584==wrapSync.commitOffset) := by
    intro k hk
    rw [length_wrapTail] at hk
    have hh : ((-2^31+(k : Int))%2^64).toNat=2^64-2^31+k := by omega
    rw [wrapped_height k (by omega)]
    unfold isCommitmentHeight
    rw [hh]
    rfl
  have hl := length_commitments (by decide) hp
  rw [length_wrapTail,show wrapSync.commitOffset=16 from rfl] at hl
  omega

/- The first download has no commitment to the header at 2^31, but enough of them. -/
lemma commitments_wrapFirst : wrapSync.commitments nextHeightInt
    wrapSync.chainStart.nHeight wrapFirst=
      replicate (wrapSync.commitments nextHeightInt (-2^31) wrapTail).length false := by
  have hs : nextHeightInt^[2] wrapSync.chainStart.nHeight=-2^31 := by decide
  have hn : wrapSync.commitments nextHeightInt wrapSync.chainStart.nHeight
      [limitHeader 0 0,limitHeader 0 1]=[] := by decide +kernel
  have ht : ∀ y∈wrapTail, wrapSync.hasher (wrapSync.getHash y)=false := by
    refine forall_mem_cons.mpr ⟨by decide,fun y hy => ?_⟩
    rw [eq_of_mem_replicate hy]
    decide
  unfold wrapFirst
  rw [commitments_append,hn,nil_append]
  change wrapSync.commitments nextHeightInt
      (nextHeightInt^[2] wrapSync.chainStart.nHeight) wrapTail=_
  rw [hs]
  exact commitments_eq_replicate ht

lemma commitments_wrapSecond (h : L <+: wrapSecond) :
    wrapSync.commitments (·+1) wrapSync.chainStart.nHeight L <+:
      wrapSync.commitments nextHeightInt wrapSync.chainStart.nHeight wrapFirst := by
  obtain ⟨_,ha⟩ := eq_of_prefix_wrapSecond h
  have hp : ∀ k≤L.length, wrapSync.isCommitmentHeight ((·+1)^[k] (2^31-2))=
      ((2^31-2+k)%584==wrapSync.commitOffset) := by
    intro k _
    have hh : ((2^31-2+(k : Int))%2^64).toNat=2^31-2+k := by omega
    rw [iterate_succ_height]
    unfold isCommitmentHeight
    rw [hh]
    rfl
  have hc := length_commitments (by decide) hp
  rw [show wrapSync.commitOffset=16 from rfl] at hc
  have hm := length_commitments_wrapTail
  rw [commitments_wrapFirst,commitments_eq_replicate fun y hy => by rw [ha y hy]; decide]
  change replicate (wrapSync.commitments (·+1) (2^31-2) L).length false <+: _
  rw [← Nat.add_sub_cancel' (show (wrapSync.commitments (·+1) (2^31-2) L).length ≤
    (wrapSync.commitments nextHeightInt (-2^31) wrapTail).length by omega),replicate_add]
  exact prefix_append _ _

lemma length_wrapFirst : wrapFirst.length=15000 := by
  unfold wrapFirst
  rw [length_append,length_wrapTail]
  rfl

lemma linked_replicate {parent : CBlockHeader} (h : parent.nNonce=0) (n : Nat) :
    wrapSync.Linked parent (replicate n (limitHeader 0 0)) := by
  induction n generalizing parent with
  | zero => exact isChain_singleton _
  | succ n ih => exact isChain_cons_cons.mpr ⟨(congrArg UInt32.toNat h).symm,ih rfl⟩

/- The first call fills the commitments and starts the second download. -/
lemma run_wrapFirst : (wrapSync.run [⟨wrapFirst,true⟩]).state.downloadState=.redownload ∧
      (wrapSync.run [⟨wrapFirst,true⟩]).presync=wrapFirst ∧
      (wrapSync.run [⟨wrapFirst,true⟩]).redownload=[] ∧
      (wrapSync.run [⟨wrapFirst,true⟩]).released=[] := by
  have hw : wrapSync.minimumRequiredWork≤wrapSync.workAfter wrapFirst := by
    rw [wrapSync_workAfter nBits_of_mem_wrapFirst length_wrapFirst.le,length_wrapFirst]
    exact (congrArg (15000*·) getBlockProof_limit).le
  have hc : (wrapSync.commitments nextHeightInt wrapSync.chainStart.nHeight
      wrapFirst).length≤wrapSync.maxCommitments :=
          (length_commitments_le _).trans length_wrapFirst.le
  have hl : wrapSync.Linked wrapSync.chainStart.header wrapFirst := by
    unfold wrapFirst wrapTail
    refine isChain_cons_cons.mpr ⟨rfl,isChain_cons_cons.mpr ⟨rfl,?_⟩⟩
    refine isChain_cons_cons.mpr ⟨rfl,?_⟩
    exact linked_replicate rfl 14997
  obtain ⟨hr,hp,hre,hs⟩ := call_presync_succeeds
    (x := ⟨wrapFirst,true⟩) init_invariant (cons_ne_nil _ _) rfl rfl hl
    (wrapSync_permitted nBits_of_mem_wrapFirst) hc
  simp only [nil_append] at hs
  rw [if_pos hw] at hs
  have hru : wrapSync.run [⟨wrapFirst,true⟩]=
      wrapSync.call {state := wrapSync.init} ⟨wrapFirst,true⟩ := by
    unfold run
    rw [foldl_cons,foldl_nil]
  rw [hru]
  refine ⟨hs,hp,hre,?_⟩
  exact released_of_results hr

/- The first header of the second download is released although the commitment height 2^31 does
   not agree with the first one. -/
theorem releases_unmatched_above_int : ¬∀ (c : HeadersSync) (calls : List HeadersCall)
    (x : HeadersCall), (∀ y∈calls++[x], y.headers≠[]) → c.ReleasesBuried calls x True := by
  intro hal
  obtain ⟨hst,hp,hre,hr⟩ := run_wrapFirst
  have hne : ∀ y∈[HeadersCall.mk wrapFirst true]++[⟨wrapSecond,true⟩], y.headers≠[] := by
    intro y hy
    simp only [cons_append,nil_append,mem_cons,not_mem_nil,or_false] at hy
    obtain rfl | rfl := hy
    · exact cons_ne_nil _ _
    · exact cons_ne_nil _ _
  have hi : wrapSync.SyncInvariant (wrapSync.run [⟨wrapFirst,true⟩]) :=
    run_invariant _ fun y hy => hne y (mem_append_left _ hy)
  have hb := (hal wrapSync [⟨wrapFirst,true⟩] ⟨wrapSecond,true⟩ hne).buried 0
  have hsp := call_redownload_succeeds (x := ⟨wrapSecond,true⟩) hi (cons_ne_nil _ _) rfl hst
  unfold recorded at hsp
  rw [hp,hre,hr,← run_concat] at hsp
  simp only [nil_append] at hsp
  obtain ⟨p,_,hrs,hf,hs,-,hn⟩ := hsp (linked_replicate rfl 13960)
    (wrapSync_permitted fun y hy => (eq_of_prefix_wrapSecond prefix_rfl).2 y hy ▸ rfl)
    fun M hM _ => commitments_wrapSecond hM
  have hpo : p≠[] := by
    intro hni
    have hl := (hn (wrapSecond_not_reached prefix_rfl)).2 hni
    unfold wrapSecond REDOWNLOAD_BUFFER_SIZE at hl
    rw [length_replicate,length_nil] at hl
    omega
  have ha : (wrapSync.run ([⟨wrapFirst,true⟩]++[⟨wrapSecond,true⟩])).released=p := by
    rw [released_of_results hrs,hr,nil_append]
  rw [hr,ha,hf,hs] at hb
  cases hb le_rfl (length_pos_of_ne_nil hpo) with
  | inl h =>
    have hs : wrapSecond[1]?=some (limitHeader 0 0) := getElem?_replicate_of_lt (by decide)
    obtain ⟨z,hz,hbi⟩ := h.2 trivial 1 (limitHeader 0 0) hs (by decide)
    cases hz
    cases hbi
  | inr h => exact wrapSecond_not_reached prefix_rfl h
end
end HeadersSync
end Xero
