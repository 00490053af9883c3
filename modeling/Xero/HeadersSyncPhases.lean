import Xero.HeadersSync

/-! What a headers sync says of the headers received in its phase. -/
namespace Xero
namespace HeadersSync
open Library List Function Except CBlockHeader
variable (height : Int)
variable (c : HeadersSync)

/-- The headers form a hash-linked chain on top of `parent`. -/
def Linked (parent : CBlockHeader) (headers : List CBlockHeader) : Prop :=
  List.IsChain (fun p x => x.hashPrevBlock=c.getHash p) (parent::headers)

/-- The commitments to headers whose heights follow `height` by `next`. -/
def commitments (next : Int → Int) : Int → List CBlockHeader → List Bool
  | _, [] => []
  | height, x::xs =>
    (if c.isCommitmentHeight (next height) then [c.hasher (c.getHash x)] else [])++
      commitments next (next height) xs

/-- Every difficulty transition from a header of target `nBits` on is permitted. -/
def Permitted (next : Int → Int) : Int → Nat → List CBlockHeader → Prop
  | _, _, [] => True
  | height, nBits, x::xs =>
    permittedDifficultyTransition c.consensusParams (next height) nBits x.nBits ∧
      Permitted next (next height) x.nBits xs

variable (headers : List CBlockHeader)

def workAfter : Nat :=
  headers.foldl (fun work x => (work+getBlockProof x.nBits)%2^256) c.chainStart.nChainWork
def Reached : Prop :=
  ∃ L, L≠[] ∧ L <+: headers ∧ c.minimumRequiredWork ≤ c.workAfter L
def tip : CBlockHeader := headers.getLastD c.chainStart.header

variable {c} {L M : List CBlockHeader} {x : CBlockHeader} {nx : Int → Int}

@[simp] lemma tip_concat : c.tip (L++[x])=x := getLastD_concat

lemma workAfter_concat : c.workAfter (L++[x])=(c.workAfter L+getBlockProof x.nBits)%2^256 := by
  unfold workAfter
  rw [foldl_append,foldl_cons,foldl_nil]

lemma commitments_append : c.commitments nx height (L++M)=
      c.commitments nx height L++c.commitments nx (nx^[L.length] height) M := by
  induction L generalizing height with
  | nil => rfl
  | cons x L ih =>
    simp only [cons_append,commitments,ih,append_assoc,length_cons,iterate_succ_apply]

lemma commitments_concat : c.commitments nx height (L++[x])=c.commitments nx height L++
      if c.isCommitmentHeight (nx^[L.length+1] height) then [c.hasher (c.getHash x)] else [] := by
  rw [commitments_append,iterate_succ_apply']
  simp only [commitments,append_nil]

lemma permitted_append (nb : Nat) : c.Permitted nx height nb (L++M) ↔ c.Permitted nx height nb L ∧
      c.Permitted nx (nx^[L.length] height) ((L.map (·.nBits)).getLastD nb) M := by
  induction L generalizing height nb with
  | nil => simp [Permitted]
  | cons x L ih =>
    simp only [cons_append,Permitted,ih,and_assoc,length_cons,
      iterate_succ_apply,map_cons,getLastD_cons]

lemma permitted_concat : c.Permitted nx c.chainStart.nHeight c.chainStart.header.nBits (L++[x]) ↔
      c.Permitted nx c.chainStart.nHeight c.chainStart.header.nBits L ∧
        permittedDifficultyTransition c.consensusParams
          (nx^[L.length+1] c.chainStart.nHeight) (c.tip L).nBits x.nBits := by
  have ht : (L.map (·.nBits)).getLastD c.chainStart.header.nBits=(c.tip L).nBits := by
    unfold tip
    rw [getLastD_eq_getLast?,getLastD_eq_getLast?,getLast?_map]
    cases L.getLast? with
    | none => rfl
    | some y => rfl
  rw [permitted_append,ht,iterate_succ_apply']
  simp only [Permitted,and_true]

lemma linked_append (parent : CBlockHeader) :
    c.Linked parent (L++M) ↔ c.Linked parent L ∧ c.Linked (L.getLastD parent) M := by
  unfold Linked
  induction L generalizing parent with
  | nil => simp
  | cons x L ih =>
    rw [cons_append,isChain_cons_cons,ih,isChain_cons_cons,and_assoc,getLastD_cons]

lemma linked_concat : c.Linked c.chainStart.header (L++[x]) ↔
    c.Linked c.chainStart.header L ∧ x.hashPrevBlock=c.getHash (c.tip L) := by
  rw [linked_append]
  unfold Linked tip
  simp

lemma permitted_of_initial {height : Int} {nb : Nat} (h : L <+: M)
    (hM : c.Permitted nx height nb M) : c.Permitted nx height nb L := by
  obtain ⟨N,rfl⟩ := h
  exact ((permitted_append height nb).mp hM).1

lemma linked_of_initial {parent : CBlockHeader} (h : L <+: M) (hM : c.Linked parent M) :
    c.Linked parent L := by
  obtain ⟨N,rfl⟩ := h
  exact ((linked_append parent).mp hM).1

lemma reached_concat :
    c.Reached (L++[x]) ↔ c.Reached L ∨ c.minimumRequiredWork ≤ c.workAfter (L++[x]) := by
  constructor
  · rintro ⟨M,hn,hi,hw⟩
    cases prefix_concat_iff.mp hi with
    | inl h => exact .inr (h ▸ hw)
    | inr h => exact .inl ⟨M,hn,h,hw⟩
  · rintro (⟨M,hn,hi,hw⟩ | h)
    · exact ⟨M,hn,hi.trans (prefix_append L [x]),hw⟩
    · exact ⟨L++[x],concat_ne_nil x L,prefix_rfl,h⟩

lemma Reached.mono (h : c.Reached L) (hi : L <+: M) : c.Reached M := by
  obtain ⟨N,hn,hN,hw⟩ := h
  exact ⟨N,hn,hN.trans hi,hw⟩

lemma iterate_succ_height (n : Nat) (height : Int) : (·+1)^[n] height=height+n := by
  induction n with
  | zero => exact (Int.add_zero height).symm
  | succ n ih =>
    rw [iterate_succ_apply']
    omega

structure Presyncing (c : HeadersSync) (P : List CBlockHeader) (s : HeadersSyncState) : Prop where
  state : s.downloadState=.presync
  commitments : s.headerCommitments=c.commitments nextHeightInt c.chainStart.nHeight P
  bounded : s.headerCommitments.length ≤ c.maxCommitments
  last : s.lastHeaderReceived=c.tip P
  height : s.currentHeight=nextHeightInt^[P.length] c.chainStart.nHeight
  work : s.currentChainWork=c.workAfter P
  unset : s.processAllRemainingHeaders=false

variable {P R : List CBlockHeader} {s s' : HeadersSyncState}

lemma init_presyncing : Presyncing c [] c.init :=
  ⟨rfl,rfl,Nat.zero_le _,rfl,rfl,rfl,rfl⟩

lemma validateAndProcessSingleHeader_ok_iff (h : Presyncing c P s) :
    c.validateAndProcessSingleHeader s x=.ok s' ↔
      permittedDifficultyTransition c.consensusParams
        (nextHeightInt^[P.length+1] c.chainStart.nHeight) (c.tip P).nBits x.nBits ∧
      (c.isCommitmentHeight (nextHeightInt^[P.length+1] c.chainStart.nHeight) →
        (c.commitments nextHeightInt c.chainStart.nHeight (P++[x])).length ≤ c.maxCommitments) ∧
      s'={s with
        headerCommitments := c.commitments nextHeightInt c.chainStart.nHeight (P++[x])
        currentChainWork := c.workAfter (P++[x])
        lastHeaderReceived := x
        currentHeight := nextHeightInt^[P.length+1] c.chainStart.nHeight} := by
  have hh : nextHeightInt s.currentHeight= nextHeightInt^[P.length+1] c.chainStart.nHeight := by
    rw [h.height,iterate_succ_apply']
  unfold validateAndProcessSingleHeader
  rw [if_neg (not_not.mpr h.state)]
  dsimp only
  rw [hh,h.last,commitments_concat,workAfter_concat,← h.commitments,← h.work]
  cases permittedDifficultyTransition c.consensusParams
      (nextHeightInt^[P.length+1] c.chainStart.nHeight) (c.tip P).nBits x.nBits with
  | false => simp
  | true =>
    cases c.isCommitmentHeight (nextHeightInt^[P.length+1] c.chainStart.nHeight) with
    | false => simp [eq_comm]
    | true =>
      simp only [Bool.not_true,Bool.false_eq_true,if_false,if_true,true_and,true_implies]
      split_ifs with hm
      · simp only [false_iff]
        exact fun hn => absurd hm (not_lt.mpr hn.1)
      · simp only [ok.injEq]
        exact ⟨fun he => ⟨not_lt.mp hm,he.symm⟩,fun he => he.2.symm⟩

lemma Presyncing.step (h : Presyncing c P s)
    (ho : c.validateAndProcessSingleHeader s x=.ok s') : Presyncing c (P++[x]) s' := by
  obtain ⟨-,hcn,rfl⟩ := (validateAndProcessSingleHeader_ok_iff h).mp ho
  refine ⟨h.state,rfl,?_,tip_concat.symm,?_,rfl,h.unset⟩
  · cases hc : c.isCommitmentHeight (nextHeightInt^[P.length+1] c.chainStart.nHeight) with
    | true => exact hcn hc
    | false =>
      rw [commitments_concat,hc,← h.commitments]
      simpa using h.bounded
  · rw [length_append]
    rfl

/-- The state of the second phase: what the first recorded, what was released and what is in the
buffer. -/
structure Redownloading (c : HeadersSync) (recorded : List Bool)
    (released buffer : List CBlockHeader)
    (s : HeadersSyncState) : Prop where
  state : s.downloadState=.redownload
  linked : c.Linked c.chainStart.header (released++buffer)
  headers : s.redownloadedHeaders=buffer.map CBlockHeader.compress
  first : s.redownloadBufferFirstPrevHash=c.getHash (c.tip released)
  last : s.redownloadBufferLastHash=c.getHash (c.tip (released++buffer))
  height : s.redownloadBufferLastHeight=c.chainStart.nHeight+(released++buffer).length
  work : s.redownloadChainWork=c.workAfter (released++buffer)
  all_iff : s.processAllRemainingHeaders ↔ c.Reached (released++buffer)
  matched : ¬c.Reached (released++buffer) →
    recorded=c.commitments (·+1) c.chainStart.nHeight (released++buffer)++s.headerCommitments
  bounded : s.headerCommitments.length ≤ c.maxCommitments
  kept : released=[] ∨ buffer≠[]

variable {rec : List Bool} {rel buf : List CBlockHeader}

lemma Redownloading.previousNBits (h : Redownloading c rec rel buf s) :
    c.previousNBits s=(c.tip (rel++buf)).nBits := by
  unfold HeadersSync.previousNBits
  rw [h.headers,getLast?_map]
  cases eq_nil_or_concat buf with
  | inl hni =>
    subst hni
    have hn : rel=[] := h.kept.resolve_right (not_not.mpr rfl)
    rw [hn]
    rfl
  | inr hc =>
    obtain ⟨_,y,rfl⟩ := hc
    rw [concat_eq_append,← append_assoc,tip_concat,getLast?_concat]
    rfl

lemma validateAndStoreRedownloadedHeader_ok_iff (h : Redownloading c rec rel buf s) :
    c.validateAndStoreRedownloadedHeader s x=.ok s' ↔
      x.hashPrevBlock=c.getHash (c.tip (rel++buf)) ∧
      permittedDifficultyTransition c.consensusParams
        (c.chainStart.nHeight+(rel++buf).length+1) (c.tip (rel++buf)).nBits
        x.nBits ∧
      ∃ rest, (c.Reached (rel++buf++[x]) → s.headerCommitments=rest) ∧
        (¬c.Reached (rel++buf++[x]) → s.headerCommitments=
          (if c.isCommitmentHeight (c.chainStart.nHeight+(rel++buf).length+1)
          then [c.hasher (c.getHash x)] else [])++rest) ∧
        s'={s with
          headerCommitments := rest
          redownloadChainWork := c.workAfter (rel++buf++[x])
          processAllRemainingHeaders := s.processAllRemainingHeaders ||
            decide (c.minimumRequiredWork ≤ c.workAfter (rel++buf++[x]))
          redownloadedHeaders := (buf++[x]).map compress
          redownloadBufferLastHeight := c.chainStart.nHeight+(rel++buf).length+1
          redownloadBufferLastHash := c.getHash x} := by
  have ha : (s.processAllRemainingHeaders ||
      decide (c.minimumRequiredWork ≤ c.workAfter (rel++buf++[x]))) ↔
      c.Reached (rel++buf++[x]) := by
    rw [Bool.or_eq_true,decide_eq_true_eq,h.all_iff,reached_concat]
  have hbu : s.redownloadedHeaders++[x.compress]=(buf++[x]).map compress := by
    rw [h.headers,map_append]
    rfl
  unfold validateAndStoreRedownloadedHeader
  rw [if_neg (not_not.mpr h.state)]
  dsimp only
  rw [h.previousNBits,h.height,h.last,h.work,← workAfter_concat,hbu]
  by_cases hl : x.hashPrevBlock=c.getHash (c.tip (rel++buf))
  · rw [if_neg (not_not.mpr hl)]
    simp only [hl,true_and]
    cases permittedDifficultyTransition c.consensusParams
        (c.chainStart.nHeight+(rel++buf).length+1) (c.tip (rel++buf)).nBits x.nBits with
    | false => simp
    | true =>
      simp only [Bool.not_true,Bool.false_eq_true,if_false,true_and]
      cases hra : (s.processAllRemainingHeaders ||
          decide (c.minimumRequiredWork ≤ c.workAfter (rel++buf++[x]))) with
      | true =>
        simp only [ha.mp hra,Bool.not_true,Bool.false_and,Bool.false_eq_true,if_false,
          ok.injEq,true_implies,not_true,false_implies,true_and]
        exact ⟨fun he => ⟨_,rfl,he.symm⟩,fun ⟨_,hre,he⟩ => by rw [he,hre]⟩
      | false =>
        have hr : ¬c.Reached (rel++buf++[x]) := fun hr => by
          rw [ha.mpr hr] at hra
          cases hra
        simp only [hr,false_implies,not_false_eq_true,true_implies,true_and,Bool.not_false,
          Bool.true_and]
        cases c.isCommitmentHeight (c.chainStart.nHeight+(rel++buf).length+1) with
        | false =>
          simp only [Bool.false_eq_true,if_false,ok.injEq,nil_append]
          exact ⟨fun he => ⟨_,rfl,he.symm⟩,fun ⟨_,hre,he⟩ => by rw [he,hre]⟩
        | true =>
          cases s.headerCommitments with
          | nil => simp
          | cons e rest =>
            by_cases hb : c.hasher (c.getHash x)=e
            · simp only [hb]
              simp [eq_comm]
            · simp [hb,Ne.symm hb]
  · simp [hl]

lemma commitments_succ_concat : c.commitments (·+1) c.chainStart.nHeight (L++[x])=
      c.commitments (·+1) c.chainStart.nHeight L++
        if c.isCommitmentHeight (c.chainStart.nHeight+L.length+1) then [c.hasher (c.getHash x)]
        else [] := by
  rw [commitments_concat,iterate_succ_height,Nat.cast_succ,← Int.add_assoc]

lemma Redownloading.step (h : Redownloading c rec rel buf s)
    (ho : c.validateAndStoreRedownloadedHeader s x=.ok s') :
    Redownloading c rec rel (buf++[x]) s' := by
  obtain ⟨hl,-,_,hre,hm,rfl⟩ := (validateAndStoreRedownloadedHeader_ok_iff h).mp ho
  have ha : rel++(buf++[x])=rel++buf++[x] := (append_assoc ..).symm
  constructor
  case state => exact h.state
  case linked =>
    rw [ha]
    exact linked_concat.mpr ⟨h.linked,hl⟩
  case headers => rfl
  case first => exact h.first
  case last => rw [ha,tip_concat]
  case height =>
    have hle : (rel++buf++[x]).length=(rel++buf).length+1 := length_append
    rw [ha,hle,Nat.cast_succ,← Int.add_assoc]
  case work => rw [ha]
  case all_iff => rw [ha,Bool.or_eq_true,decide_eq_true_eq,h.all_iff,reached_concat]
  case matched =>
    rw [ha]
    intro hn
    have hb : ¬c.Reached (rel++buf) := fun hr =>
      hn (hr.mono (prefix_append _ _))
    rw [commitments_succ_concat,append_assoc,← hm hn]
    exact h.matched hb
  case bounded =>
    have hbd := h.bounded
    by_cases hr : c.Reached (rel++buf++[x])
    · rw [hre hr] at hbd
      exact hbd
    · rw [hm hr,length_append] at hbd
      exact (Nat.le_add_left _ _).trans hbd
  case kept => exact .inr (append_ne_nil_of_right_ne_nil _ (cons_ne_nil x []))

lemma Redownloading.batch (h : Redownloading c rec rel buf s)
    (ho : L.foldlM c.validateAndStoreRedownloadedHeader s=.ok s') :
    Redownloading c rec rel (buf++L) s' :=
  foldlM_tracks (fun _ _ _ _ h ho => Redownloading.step h ho) L h ho

lemma popHeaders_spec (all : Bool) {parent : CBlockHeader} (hln : c.Linked parent buf) :
    ∃ popped rest, buf=popped++rest ∧
      c.popHeaders all (buf.map compress) (c.getHash parent)=
        (popped,rest.map compress,c.getHash (popped.getLastD parent)) ∧
      (all → rest=[]) ∧
      (all=false → buf.length≤REDOWNLOAD_BUFFER_SIZE ∧ popped=[] ∨
        rest.length=REDOWNLOAD_BUFFER_SIZE) := by
  induction buf generalizing parent with
  | nil => exact ⟨[],[],rfl,rfl,fun _ => rfl,fun _ => .inl ⟨Nat.zero_le _,rfl⟩⟩
  | cons x buf ih =>
    obtain ⟨hl,ht⟩ := isChain_cons_cons.mp hln
    obtain ⟨popped,rest,hs,hpo,ha,hsi⟩ := ih ht
    rw [map_cons]
    unfold popHeaders
    rw [← hl,getFullHeader_compress]
    dsimp only
    rw [hpo,← map_cons,length_map]
    by_cases hp : REDOWNLOAD_BUFFER_SIZE<(x::buf).length || all
    · rw [if_pos hp]
      refine ⟨x::popped,rest,congrArg _ hs,?_,ha,fun hf => .inr ?_⟩
      · rw [getLastD_cons]
      · rw [hf,Bool.or_false,decide_eq_true_eq,length_cons] at hp
        cases hsi hf with
        | inl hle =>
          rw [hs,hle.2,nil_append] at hp
          have hr := hle.1
          rw [hs,hle.2,nil_append] at hr
          omega
        | inr he => exact he
    · rw [if_neg hp]
      rw [Bool.or_eq_true,not_or,decide_eq_true_eq] at hp
      refine ⟨[],x::buf,rfl,?_,fun htr => absurd htr hp.2,fun _ => .inl ?_⟩
      · rw [hl]
        rfl
      · exact ⟨not_lt.mp hp.1,rfl⟩

lemma not_reached_nil : ¬c.Reached [] := by
  rintro ⟨L,hn,hi,-⟩
  exact hn (prefix_nil.mp hi)

/-- A batch of the first phase leads on in it, or to the second phase if the work is enough. -/
lemma validateAndStoreHeadersCommitments_ok (h : Presyncing c P s) (hn : L≠[])
    (ho : c.validateAndStoreHeadersCommitments s L=.ok s') :
    c.workAfter (P++L) < c.minimumRequiredWork ∧ Presyncing c (P++L) s' ∨
      c.minimumRequiredWork ≤ c.workAfter (P++L) ∧
        Redownloading c (c.commitments nextHeightInt c.chainStart.nHeight (P++L)) [] [] s' := by
  cases L with
  | nil => exact absurd rfl hn
  | cons x L =>
    unfold validateAndStoreHeadersCommitments at ho
    dsimp only at ho
    split_ifs at ho
    obtain ⟨_,hf,hs'⟩ := bind_eq_ok.mp ho
    have h1 := foldlM_tracks (fun d x s s' h ho => Presyncing.step h ho) (x::L) h hf
    rw [h1.work] at hs'
    by_cases hw : c.minimumRequiredWork ≤ c.workAfter (P++x::L)
    · rw [if_pos hw] at hs'
      cases hs'
      refine .inr ⟨hw,?_⟩
      constructor
      case state => rfl
      case linked => exact isChain_singleton _
      case headers => rfl
      case first => rfl
      case last => rfl
      case height => exact (Int.add_zero _).symm
      case work => rfl
      case all_iff =>
        refine ⟨fun ha => ?_,fun hr => absurd hr not_reached_nil⟩
        rw [h1.unset] at ha
        cases ha
      case matched => exact fun _ => h1.commitments.symm
      case bounded => exact h1.bounded
      case kept => exact .inl rfl
    · rw [if_neg hw] at hs'
      cases hs'
      exact .inl ⟨not_le.mp hw,h1⟩

lemma commitments_initial (h : L <+: M) (height : Int) :
    c.commitments nx height L <+: c.commitments nx height M := by
  obtain ⟨N,rfl⟩ := h
  rw [commitments_append]
  exact prefix_append _ _

/-- A batch that continues the chain with permitted transitions and few enough commitments
passes the first phase. -/
lemma validateAndStoreHeadersCommitments_succeeds (h : Presyncing c P s) (hl : c.Linked (c.tip P) L)
    (hpe : c.Permitted nextHeightInt c.chainStart.nHeight c.chainStart.header.nBits (P++L))
    (hc : (c.commitments nextHeightInt c.chainStart.nHeight (P++L)).length ≤ c.maxCommitments) :
    ∃ s', c.validateAndStoreHeadersCommitments s L=.ok s' := by
  cases L with
  | nil => exact ⟨s,rfl⟩
  | cons x L =>
    have hs : ∀ d y s, d++[y] <+: P++x::L → Presyncing c d s →
        ∃ s', c.validateAndProcessSingleHeader s y=.ok s' ∧ Presyncing c (d++[y]) s' := by
      intro d y s hi hd
      have hp := (permitted_concat.mp (permitted_of_initial hi hpe)).2
      have ho := (validateAndProcessSingleHeader_ok_iff hd).mpr
        ⟨hp,fun _ => (commitments_initial hi _).length_le.trans hc,rfl⟩
      exact ⟨_,ho,hd.step ho⟩
    obtain ⟨_,hf,-⟩ := foldlM_completes hs (x::L) rfl h
    unfold validateAndStoreHeadersCommitments
    have hfs : x.hashPrevBlock=c.getHash s.lastHeaderReceived := by
      rw [h.last]
      exact (isChain_cons_cons.mp hl).1
    dsimp only
    rw [if_neg (not_not.mpr h.state),if_neg (not_not.mpr hfs),hf]
    exact ⟨_,rfl⟩

/-- Headers that continue the chain with permitted transitions pass the second phase when the
commitments agree until the work is enough. -/
lemma Redownloading.succeeds (h : Redownloading c rec rel buf s)
    (hln : c.Linked c.chainStart.header (rel++(buf++L)))
    (hpe : c.Permitted (·+1) c.chainStart.nHeight c.chainStart.header.nBits (rel++(buf++L)))
    (hm : ∀ M, M <+: rel++(buf++L) → ¬c.Reached M →
    c.commitments (·+1) c.chainStart.nHeight M <+: rec) :
    ∃ s', L.foldlM c.validateAndStoreRedownloadedHeader s=.ok s' := by
  have hs : ∀ d y s, d++[y] <+: buf++L → Redownloading c rec rel d s →
      ∃ s', c.validateAndStoreRedownloadedHeader s y=.ok s' ∧
        Redownloading c rec rel (d++[y]) s' := by
    intro d y s hi hd
    have hi : rel++d++[y] <+: rel++(buf++L) := by
      rw [append_assoc]
      exact (prefix_append_right_inj rel).mpr hi
    obtain ⟨-,hp⟩ := permitted_concat.mp (permitted_of_initial hi hpe)
    obtain ⟨-,hl⟩ := linked_concat.mp (linked_of_initial hi hln)
    rw [iterate_succ_height,Nat.cast_succ,← Int.add_assoc] at hp
    by_cases hr : c.Reached (rel++d++[y])
    · have ho := (validateAndStoreRedownloadedHeader_ok_iff hd).mpr
        ⟨hl,hp,_,fun _ => rfl,fun hn => absurd hr hn,rfl⟩
      exact ⟨_,ho,hd.step ho⟩
    · have hc := hm _ hi hr
      rw [hd.matched fun h => hr (h.mono (prefix_append _ _)),commitments_succ_concat,
        prefix_append_right_inj] at hc
      obtain ⟨r,hre⟩ := hc
      have ho := (validateAndStoreRedownloadedHeader_ok_iff hd).mpr
        ⟨hl,hp,r,fun h => absurd h hr,fun _ => hre.symm,rfl⟩
      exact ⟨_,ho,hd.step ho⟩
  obtain ⟨s',hf,-⟩ := foldlM_completes hs L rfl h
  exact ⟨s',hf⟩

lemma popHeadersReadyForAcceptance_spec (h : Redownloading c rec rel buf s) (hne : buf≠[]) :
    ∃ popped rest, buf=popped++rest ∧ (c.popHeadersReadyForAcceptance s).1=popped ∧
      (popped=[] → buf.length≤REDOWNLOAD_BUFFER_SIZE) ∧
      (c.Reached (rel++buf) → rest=[] ∧
        (c.popHeadersReadyForAcceptance s).2.redownloadedHeaders=[] ∧
        (c.popHeadersReadyForAcceptance s).2.processAllRemainingHeaders) ∧
      (¬c.Reached (rel++buf) → (popped≠[] → rest.length=REDOWNLOAD_BUFFER_SIZE) ∧
        (c.popHeadersReadyForAcceptance s).2.redownloadedHeaders≠[] ∧
        Redownloading c rec (rel++popped) rest (c.popHeadersReadyForAcceptance s).2) := by
  have hl := ((linked_append c.chainStart.header).mp h.linked).2
  obtain ⟨popped,rest,hsp,hpo,hal,hsi⟩ := popHeaders_spec s.processAllRemainingHeaders hl
  unfold popHeadersReadyForAcceptance
  rw [if_neg (not_not.mpr h.state),h.headers,h.first]
  dsimp only [tip]
  rw [hpo]
  refine ⟨popped,rest,hsp,rfl,fun hn => ?_,fun hr => ?_,fun hno => ?_⟩
  · rw [hsp,hn]
    cases hs : s.processAllRemainingHeaders with
    | true => exact (hal hs).symm ▸ Nat.zero_le _
    | false =>
      cases hsi hs with
      | inl hle =>
        rw [hsp,hn] at hle
        exact hle.1
      | inr he => exact he.le
  · have hs := h.all_iff.mpr hr
    have hre := hal hs
    exact ⟨hre,by rw [hre]; rfl,hs⟩
  · have hu : s.processAllRemainingHeaders=false := by
      rw [← Bool.not_eq_true]
      exact fun hs => hno (h.all_iff.mp hs)
    have hre : rest≠[] := by
      intro hn
      cases hsi hu with
      | inl hle =>
        rw [hle.2,hn] at hsp
        exact hne hsp
      | inr he =>
        rw [hn] at he
        cases he
    refine ⟨fun hp => (hsi hu).resolve_left fun hle => hp hle.2,?_,?_⟩
    · exact fun hn => hre (map_eq_nil_iff.mp hn)
    · have ha : rel++popped++rest=rel++buf := by rw [append_assoc,hsp]
      constructor
      case state => exact h.state
      case linked => rw [ha]; exact h.linked
      case headers => rfl
      case first =>
        unfold tip
        cases eq_nil_or_concat popped with
        | inl hn => rw [hn,append_nil]; rfl
        | inr hc =>
          obtain ⟨_,y,rfl⟩ := hc
          rw [concat_eq_append,← append_assoc,getLastD_concat,getLastD_concat]
      case last => rw [ha]; exact h.last
      case height => rw [ha]; exact h.height
      case work => rw [ha]; exact h.work
      case all_iff => rw [ha]; exact h.all_iff
      case matched => rw [ha]; exact h.matched
      case bounded => exact h.bounded
      case kept => exact .inr hre
end HeadersSync
end Xero
