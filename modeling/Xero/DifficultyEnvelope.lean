import Mathlib.Tactic.Ring
import Xero.ProofOfWork

/-! The bits the main network requires of a header against the envelope headers presync allows.
They agree at every height; the legacy retarget alone can bring the target down to zero. -/
namespace Xero
open Library Except PowParams HeaderChain BlockHeader List Nat
variable {lim x : Nat}

/- The compact encodings of the targets the main network can require. -/
def TargetBits (nBits : Nat) : Prop := ∃ x≤PowParams.main.powLimit, nBits=getCompact x

/-- What GetNextWorkRequired can answer on the main network on top of `pindexLast`. -/
inductive RequiredBits (chain : HeaderChain) (pindexLast : BlockHeader) : Nat → Prop
  | activation (h : chain.nHeight+1=4920) : RequiredBits chain pindexLast 0x1a44b82f
  | asert {t : Nat} (h : 4920 < chain.nHeight+1) (hpos : 0<t) (ht : t≤PowParams.main.powLimit) :
      RequiredBits chain pindexLast (getCompact t)
  | unchanged (h : chain.nHeight+1<4920) (hoff : (chain.nHeight+1)%12≠0) :
      RequiredBits chain pindexLast pindexLast.nBits
  | retarget {pindexFirst : BlockHeader} (h : chain.nHeight+1<4920) (hon : (chain.nHeight+1)%12=0)
      (hfirst : chain.getAncestor (chain.nHeight-11)=some pindexFirst) :
      RequiredBits chain pindexLast (getCompact (scaledTarget .main pindexLast.nBits
        (clampTimespan .main (pindexLast.getBlockTime-pindexFirst.getBlockTime))))

lemma powLimit_lt : main.powLimit<2^256 := by
  decide

lemma clampTarget_bounds (h : 0<lim) (t : Nat) : 0 < clampTarget lim t ∧ clampTarget lim t≤lim := by
  unfold clampTarget
  split
  · omega
  · split <;> omega

lemma getAncestor_some (chain : HeaderChain) (height : Int) (hl : 0≤height)
    (hh : height ≤ chain.nHeight) : ∃ b, chain.getAncestor height=some b := by
  unfold getAncestor
  rw [if_neg (by omega)]
  unfold nHeight at *
  exact ⟨_,getElem?_eq_getElem (by omega)⟩

variable {chain : HeaderChain}

lemma legacyWorkRequired_main (pindexLast p : BlockHeader)
    (hn : 0 ≤ chain.nHeight) (h : chain.nHeight+1<4920) :
    ∃ n, legacyWorkRequired .main chain pindexLast p=.ok n ∧ RequiredBits chain pindexLast n := by
  have hi : main.difficultyAdjustmentInterval=12 := by decide
  unfold legacyWorkRequired
  rw [hi]
  by_cases ho : (chain.nHeight+1)%12≠0
  · rw [if_pos ho]
    exact ⟨_,rfl,.unchanged h ho⟩
  · rw [if_neg ho]
    obtain ⟨_,hf⟩ := getAncestor_some chain (chain.nHeight-11) (by omega) (by omega)
    have hh : chain.nHeight-(12-1)=chain.nHeight-11 := by omega
    simp only [hh,hf]
    exact ⟨_,rfl,.retarget h (not_not.1 ho) hf⟩

lemma assertThat_eq_ok {b : Bool} {u : Unit} : assertThat b=.ok u ↔ b := by
  simp [assertThat]

lemma calculateASERT_ok {target t : Nat} {s td heig halfL : Int}
    (h : calculateASERT target s td heig lim halfL=.ok t) : 0<t ∧ t≤lim := by
  simp only [calculateASERT,bind_eq_ok,pure_eq_ok,assertThat_eq_ok] at h
  obtain ⟨_,_,_,hl,_,_,_,_,_,_,rfl⟩ := h
  exact clampTarget_bounds (by simpa using hl) _

/- The four asserts on the arguments are all CalculateASERT can stop at: the split of the
   exponent into its integral and fractional parts is exact. -/
lemma calculateASERT_succeeds {target : Nat} {s td heig : Int} (halfL : Int)
    (hr : 0<target ∧ target≤lim)
    (hh : 0≤heig) (hti : (td-s*heig).natAbs<2^47) :
    ∃ t, calculateASERT target s td heig lim halfL=.ok t := by
  have hl : 0<lim := by omega
  have he : ∀ e : Int, e=(e >>> (16 : Nat))*65536+((e%65536).toNat : Int) := by
    intro e
    rw [Int.shiftRight_eq_div_pow]
    omega
  simp only [calculateASERT,bind_eq_ok,pure_eq_ok,assertThat_eq_ok,decide_eq_true_eq]
  exact ⟨_,(),hr,(),hl,(),hh,(),hti,(),he _,rfl⟩

variable {pindexLast : BlockHeader} {n : Nat}

lemma asertWorkRequired_main
    (h : 4920 < chain.nHeight+1) (hn : asertWorkRequired .main chain pindexLast=.ok n) :
    RequiredBits chain pindexLast n := by
  obtain ⟨_,hp⟩ := getAncestor_some chain (4920-1) (by omega) (by omega)
  have ha : main.nASERTActivationHeight=4920 := rfl
  simp only [asertWorkRequired,ha,hp,map_eq_ok] at hn
  obtain ⟨t,ht,rfl⟩ := hn
  obtain ⟨hpo,hl⟩ := calculateASERT_ok ht
  exact .asert h hpo hl

/- Times are 32 bits wide and heights are ints, so the assert on the time difference holds. -/
lemma asertWorkRequired_succeeds (pindexLast : BlockHeader)
    (h : 4920 < chain.nHeight+1) (hle : chain.length<2^31) :
    ∃ n, asertWorkRequired .main chain pindexLast=.ok n := by
  obtain ⟨p,hp⟩ := getAncestor_some chain (4920-1) (by omega) (by omega)
  have ha : main.nASERTActivationHeight=4920 := rfl
  have hs : main.nPowTargetSpacing=600 := rfl
  have hl := pindexLast.nTime.toNat_lt
  have hf := p.nTime.toNat_lt
  obtain ⟨t,ht⟩ := calculateASERT_succeeds main.nASERTHalfLife
    (show 0<(setCompact 0x1a44b82f).value ∧ (setCompact 0x1a44b82f).value ≤ main.powLimit by decide)
    (show 0 ≤ chain.nHeight-4920 by omega)
    (show (pindexLast.getBlockTime-p.getBlockTime-600*(chain.nHeight-4920)).natAbs<2^47 by
      unfold getBlockTime nHeight
      omega)
  refine ⟨getCompact t,?_⟩
  simp only [asertWorkRequired,ha,hp,hs,map_eq_ok]
  exact ⟨t,ht,rfl⟩

variable {rest : HeaderChain}

lemma nHeight_nonneg {b : BlockHeader} (h : chain=b::rest) : 0 ≤ chain.nHeight := by
  subst h
  simp [nHeight]

/- On the main network only the height decides between the branches of GetNextWorkRequired. -/
lemma getNextWorkRequired_main (hc : chain=pindexLast::rest) (p : BlockHeader) :
    getNextWorkRequired .main chain p =
      if chain.nHeight+1=4920 then .ok 0x1a44b82f
      else if 4920 < chain.nHeight+1 then asertWorkRequired .main chain pindexLast
      else legacyWorkRequired .main chain pindexLast p := by
  have ha : main.nASERTActivationHeight=4920 := rfl
  have hb : main.nASERTStartBits=0x1a44b82f := rfl
  have hr : main.fPowNoRetargeting=false := rfl
  subst hc
  simp only [getNextWorkRequired,isASERTActive,ha,hb,hr]
  by_cases h : 4920≤nHeight (pindexLast::rest)+1
  · simp [h]
  · have hn : nHeight (pindexLast::rest)+1≠4920 := by omega
    have hl : ¬4920<nHeight (pindexLast::rest)+1 := by omega
    simp only [h,if_neg hn,if_neg hl,decide_false,Bool.false_and,Bool.false_eq_true,if_false]

lemma getNextWorkRequired_ok {p : BlockHeader}
    (hc : chain=pindexLast::rest) (h : getNextWorkRequired .main chain p=.ok n) :
    RequiredBits chain pindexLast n := by
  rw [getNextWorkRequired_main hc] at h
  split at h
  · rename_i hh
    obtain rfl : 0x1a44b82f=n := ok.inj h
    exact .activation hh
  · split at h
    · rename_i hh
      exact asertWorkRequired_main hh h
    · obtain ⟨m,hm,hr⟩ := legacyWorkRequired_main pindexLast p (nHeight_nonneg hc) (by omega)
      obtain rfl : m=n := ok.inj (hm.symm.trans h)
      exact hr

lemma getNextWorkRequired_succeeds (hc : chain=pindexLast::rest) (hl : chain.length<2^31)
    (p : BlockHeader) :
    ∃ n, getNextWorkRequired .main chain p=.ok n := by
  rw [getNextWorkRequired_main hc]
  split
  · exact ⟨_,rfl⟩
  · split
    · rename_i hh
      exact asertWorkRequired_succeeds pindexLast hh hl
    · obtain ⟨n,hn,_⟩ := legacyWorkRequired_main pindexLast p (nHeight_nonneg hc) (by omega)
      exact ⟨n,hn⟩

lemma scaledTarget_le (ps : PowParams) (ni : Nat) (t : Int) :
    scaledTarget ps ni t≤ps.powLimit := min_le_right _ _

lemma RequiredBits.targetBits
    (h : RequiredBits chain pindexLast n) (hl : TargetBits pindexLast.nBits) : TargetBits n := by
  cases h with
  | activation => exact ⟨(setCompact 0x1a44b82f).value,by decide,by decide +kernel⟩
  | asert _ _ ht => exact ⟨_,ht,rfl⟩
  | unchanged => exact hl
  | retarget => exact ⟨_,scaledTarget_le _ _ _,rfl⟩

/-- Every header of a valid chain carries the compact form of a target the network allows. -/
lemma ValidChain.targetBits (h : ValidChain .main chain) :
    ∀ {b rest}, chain=b::rest → TargetBits b.nBits := by
  induction h with
  | genesis =>
    intro b rest he
    obtain ⟨rfl,_⟩ := cons.inj he
    exact ⟨(setCompact 0x1e0ffff0).value,by decide,by decide +kernel⟩
  | @accept p bl c hp hc ih =>
    intro b rest he
    obtain ⟨rfl,rfl⟩ := cons.inj he
    cases p with
    | nil => cases hp
    | cons l o =>
      simp only [contextualCheckBlockHeader,bind_eq_ok,rejectIf_eq_ok] at hc
      obtain ⟨n,hn,_,hb,_⟩ := hc
      obtain rfl : bl.nBits=n := by simpa using hb
      exact (getNextWorkRequired_ok rfl hn).targetBits (ih rfl)

lemma setCompact_targetBits (hx : x ≤ main.powLimit) :
    setCompact (getCompact x)=⟨keepBytes 3 x,false,false⟩ :=
  setCompact_getCompact (lt_of_le_of_lt hx powLimit_lt)

variable {nb : Nat}

lemma TargetBits.value_le (h : TargetBits nb) : (setCompact nb).value ≤ main.powLimit := by
  obtain ⟨x,hx,rfl⟩ := h
  rw [setCompact_targetBits hx]
  exact (keepBytes_le 3 x).trans hx

/- Of the four range checks only the one against zero can fail on bits the node requires. -/
lemma TargetBits.checkTargetRange_iff (h : TargetBits nb) :
    checkTargetRange .main nb ↔ (setCompact nb).value≠0 := by
  have hl := h.value_le
  obtain ⟨x,hx,rfl⟩ := h
  rw [setCompact_targetBits hx] at hl ⊢
  simp [checkTargetRange,setCompact_targetBits hx,hl]

lemma value_getCompact_ne_zero (hx : x ≤ main.powLimit) :
    (setCompact (getCompact x)).value≠0 ↔ x≠0 := by
  rw [setCompact_targetBits hx]
  exact not_congr (keepBytes_eq_zero (by decide))

lemma value_getCompact_mono {y : Nat} (hy : y ≤ main.powLimit) (h : x≤y) :
    (setCompact (getCompact x)).value≤(setCompact (getCompact y)).value := by
  rw [setCompact_targetBits hy,setCompact_targetBits (h.trans hy)]
  exact keepBytes_mono (by decide) h

lemma clampTimespan_bounds (t : Int) : 1800 ≤ clampTimespan .main t ∧
    clampTimespan .main t≤28800 := by
  have hs : main.nPowTargetTimespan=7200 := rfl
  unfold clampTimespan
  simp only [hs]
  split <;> split <;> omega

lemma scaledTarget_main {t : Int} (h : TargetBits nb) (ht : t≤28800) : scaledTarget .main nb t =
      min ((setCompact nb).value*t.toNat/7200) main.powLimit := by
  have hl := h.value_le
  have hs : t.toNat≤28800 := by omega
  have hsm : t.toNat%2^32=t.toNat := mod_eq_of_lt (by omega)
  have hp : (setCompact nb).value*t.toNat<2^256 :=
    calc (setCompact nb).value*t.toNat ≤ main.powLimit*28800 := Nat.mul_le_mul hl hs
      _<2^256 := by decide
  unfold scaledTarget
  rw [hsm,mod_eq_of_lt hp]
  rfl

lemma scaledTarget_mono {s t : Int} (h : TargetBits nb) (hs : s≤t) (ht : t≤28800) :
    scaledTarget .main nb s ≤ scaledTarget .main nb t := by
  rw [scaledTarget_main h ht,scaledTarget_main h (hs.trans ht)]
  have hn : s.toNat≤t.toNat := by omega
  exact min_le_min_right _ (Nat.div_le_div_right (Nat.mul_le_mul_left _ hn))

lemma permitted_asert {height : Int} {oldBits newBits : Nat} (h : 4920≤height)
    (hb : TargetBits newBits) (hp : (setCompact newBits).value≠0) :
    permittedDifficultyTransition .main height oldBits newBits := by
  have ha : main.isASERTActive height := decide_eq_true h
  have hr := hb.checkTargetRange_iff.2 hp
  unfold permittedDifficultyTransition
  rw [if_pos ha]
  simp only [checkTargetRange,Bool.not_or,Bool.and_eq_true] at hr ⊢
  tauto

lemma permitted_legacy {height : Int} (oldBits newBits : Nat) (h : height<4920) :
    permittedDifficultyTransition .main height oldBits newBits ↔
      if height%12=0 then
        (setCompact newBits).value≤(setCompact
        (getCompact (scaledTarget .main oldBits 28800))).value ∧
        (setCompact (getCompact (scaledTarget .main oldBits 1800))).value≤(setCompact newBits).value
      else oldBits=newBits := by
  have ha : main.isASERTActive height=false := decide_eq_false (not_le.2 h)
  have hi : main.difficultyAdjustmentInterval=12 := by decide
  have hm : main.fPowAllowMinDifficultyBlocks=false := rfl
  have hl : main.nPowTargetTimespan*4=28800 := rfl
  have hs : main.nPowTargetTimespan/4=1800 := rfl
  simp only [permittedDifficultyTransition,ha,hi,hm,hl,hs,Bool.false_eq_true,if_false]
  split <;> simp

/-- The two implementations agree at every height: presync permits the bits the node requires. -/
lemma RequiredBits.permitted (h : RequiredBits chain pindexLast n)
    (hl : TargetBits pindexLast.nBits) :
    permittedDifficultyTransition .main (chain.nHeight+1) pindexLast.nBits n := by
  have hn := h.targetBits hl
  cases h with
  | activation h => exact permitted_asert (by omega) hn (by decide)
  | asert h hp ht =>
      exact permitted_asert (by omega) hn ((value_getCompact_ne_zero ht).2 (by omega))
  | unchanged h ho =>
    rw [permitted_legacy _ _ h,if_neg ho]
  | @retarget f h hon =>
    obtain ⟨hs,hlo⟩ := clampTimespan_bounds (pindexLast.getBlockTime-f.getBlockTime)
    rw [permitted_legacy _ _ h,if_pos hon]
    exact ⟨value_getCompact_mono (scaledTarget_le _ _ _) (scaledTarget_mono hl hlo le_rfl),
      value_getCompact_mono (scaledTarget_le _ _ _) (scaledTarget_mono hl hs hlo)⟩

/-- What the node requires on top of `chain` is permitted and in the range CheckProofOfWork accepts. -/
def RequiredBitsPermitted (params : PowParams) (chain : HeaderChain)
    (pindexLast pblock : BlockHeader) :
    Prop :=
  ∃ n, getNextWorkRequired params chain pblock=.ok n ∧
    permittedDifficultyTransition params (chain.nHeight+1) pindexLast.nBits n ∧
    checkTargetRange params n

/-- The next height is below the ASERT activation and its legacy target is zero: the target of
the last header is, or at a retarget its product with the timespan is below the divisor. -/
def LegacyTargetVanishes (chain : HeaderChain) (pindexLast : BlockHeader) : Prop :=
  chain.nHeight+1<4920 ∧
    if (chain.nHeight+1)%12=0 then
      ∃ pindexFirst, chain.getAncestor (chain.nHeight-11)=some pindexFirst ∧
        (setCompact pindexLast.nBits).value*
          (clampTimespan .main (pindexLast.getBlockTime-pindexFirst.getBlockTime)).toNat<7200
    else (setCompact pindexLast.nBits).value=0

lemma RequiredBits.value_ne_zero (h : RequiredBits chain pindexLast n)
    (hl : TargetBits pindexLast.nBits) :
    (setCompact n).value≠0 ↔ ¬LegacyTargetVanishes chain pindexLast := by
  unfold LegacyTargetVanishes
  cases h with
  | activation h =>
    have hv : (setCompact 0x1a44b82f).value≠0 := by decide
    simp [hv,h]
  | asert h hp ht =>
    have hlt : ¬chain.nHeight+1<4920 := by omega
    simp only [value_getCompact_ne_zero ht,hlt,false_and,not_false_eq_true,iff_true]
    omega
  | unchanged h ho => simp [h,ho]
  | @retarget f h hon hf =>
    obtain ⟨_,hlo⟩ := clampTimespan_bounds (pindexLast.getBlockTime-f.getBlockTime)
    have hli : 0 < main.powLimit := by decide
    rw [value_getCompact_ne_zero (scaledTarget_le _ _ _),scaledTarget_main hl hlo]
    simp only [h,if_pos hon,hf,Option.some.injEq,exists_eq_left',true_and]
    generalize (setCompact pindexLast.nBits).value*_=p
    omega

theorem requiredBitsPermitted_iff {chain rest : HeaderChain} {pindexLast : BlockHeader}
    (hchain : chain=pindexLast::rest) (hvalid : ValidChain .main chain) (hlen : chain.length<2^31)
    (pblock : BlockHeader) :
    RequiredBitsPermitted .main chain pindexLast pblock ↔
    ¬LegacyTargetVanishes chain pindexLast := by
  obtain ⟨n,hn⟩ := getNextWorkRequired_succeeds hchain hlen pblock
  have hl := hvalid.targetBits hchain
  have hre := getNextWorkRequired_ok hchain hn
  rw [← hre.value_ne_zero hl,← (hre.targetBits hl).checkTargetRange_iff]
  constructor
  · rintro ⟨m,hm,_,hr⟩
    obtain rfl : m=n := ok.inj (hm.symm.trans hn)
    exact hr
  · exact fun hr => ⟨n,hn,hre.permitted hl,hr⟩

section
/-- Times at which the headers of a chain are stamped, counted from genesis. -/
structure Schedule where
  time : Nat → Nat
  genesis : time 0=0
  increasing : ∀ height, time height < time (height+1)
  bounded : ∀ height≤4920, time height<2^31

namespace Schedule
variable (s : Schedule) {height : Nat}

/- The bits of every twelfth block on, by the legacy retarget. -/
def bits : Nat → Nat
  | 0 => PowParams.main.genesis.nBits
  | k+1 => getCompact (scaledTarget .main (bits k)
      (clampTimespan .main ((s.time (12*k+11) : Int)-s.time (12*k))))

def nTime (height : Nat) : UInt32 := 1765296310+UInt32.ofNat (s.time height)

def header (height : Nat) : BlockHeader :=
  ⟨if height=0 then 1 else 4,s.nTime height,s.bits (height/12)⟩

def headers : Nat → HeaderChain
  | 0 => [s.header 0]
  | height+1 => s.header (height+1)::headers height

lemma nTime_toNat (h : height≤4920) : ((s.nTime height).toNat : Int)=1765296310+s.time height := by
  have hb := s.bounded height h
  simp [nTime,UInt32.toNat_add]
  omega

lemma header_getBlockTime (h : height≤4920) :
    (s.header height).getBlockTime=1765296310+s.time height := s.nTime_toNat h

lemma headers_cons (height : Nat) : ∃ rest, s.headers height=s.header height::rest := by
  cases height <;> exact ⟨_,rfl⟩

lemma headers_length (height : Nat) : (s.headers height).length=height+1 := by
  induction height with
  | zero => rfl
  | succ height ih => rw [headers,length_cons,ih]

lemma headers_nHeight (height : Nat) : (s.headers height).nHeight=height := by
  simp [nHeight,headers_length]

lemma headers_getElem? {i : Nat} (h : i≤height) :
    (s.headers height)[i]? = some (s.header (height-i)) := by
  induction height generalizing i with
  | zero =>
    obtain rfl : i=0 := by omega
    rfl
  | succ height ih =>
    cases i with
    | zero => rfl
    | succ i =>
      rw [headers,List.getElem?_cons_succ,ih (by omega),Nat.add_sub_add_right]

lemma headers_time_le (h : height<4920) :
    ∀ b∈s.headers height, b.getBlockTime≤1765296310+s.time height := by
  intro b hb
  obtain ⟨i,hi⟩ := List.mem_iff_getElem?.1 hb
  have hl := (List.getElem?_eq_some_iff.1 hi).1
  rw [headers_length] at hl
  rw [s.headers_getElem? (by omega)] at hi
  obtain rfl := Option.some.inj hi
  have hm := (strictMono_nat_of_lt_succ s.increasing).monotone (show height-i≤height by omega)
  rw [s.header_getBlockTime (by omega)]
  omega

lemma headers_requires (h : height+1<4920) (pblock : BlockHeader) :
    getNextWorkRequired .main (s.headers height) pblock=.ok (s.bits ((height+1)/12)) := by
  obtain ⟨_,hr⟩ := s.headers_cons height
  have hi : main.difficultyAdjustmentInterval=12 := by decide
  have hm : main.fPowAllowMinDifficultyBlocks=false := rfl
  rw [getNextWorkRequired_main hr,headers_nHeight,if_neg (by omega),if_neg (by omega)]
  simp only [legacyWorkRequired,headers_nHeight,hi,hm]
  by_cases ho : ((height : Int)+1)%12≠0
  · have hs : (height+1)/12=height/12 := by omega
    rw [if_pos ho,hs]
    rfl
  · have hf : (s.headers height).getAncestor (height-(12-1))=some (s.header (height-11)) := by
      unfold getAncestor
      rw [headers_nHeight,if_neg (by omega),← s.headers_getElem? (by omega)]
      congr 1
      omega
    have hn : (height+1)/12=height/12+1 := by omega
    have hlast : 12*(height/12)+11=height := by omega
    have hfirst : 12*(height/12)=height-11 := by omega
    have hspan : (s.header height).getBlockTime-(s.header (height-11)).getBlockTime =
        (s.time (12*(height/12)+11) : Int)-s.time (12*(height/12)) := by
      rw [s.header_getBlockTime (by omega),s.header_getBlockTime (by omega),hlast,hfirst]
      ring
    rw [if_neg ho,hf,hn]
    simp only [calculateNextWorkRequired,hspan]
    rfl

lemma accept {nBits : Nat} (h : height<4920) (hvalid : ValidChain .main (s.headers height))
    (hbits : ∀ pblock, getNextWorkRequired .main (s.headers height) pblock=.ok nBits) :
    ValidChain .main (⟨4,s.nTime (height+1),nBits⟩::s.headers height) := by
  refine .accept ⟨1765296310+s.time (height+1),none⟩ hvalid ?_
  have hm := median_of_times (P := (·≤1765296310+(s.time height : Int))) (by omega)
    (s.headers_time_le h)
  have ht : BlockHeader.getBlockTime ⟨4,s.nTime (height+1),nBits⟩=1765296310+s.time (height+1) :=
    s.nTime_toNat (by omega)
  have hlt := s.increasing height
  simp only [contextualCheckBlockHeader,hbits,bind_eq_ok,rejectIf_eq_ok]
  refine ⟨_,rfl,(),bne_self_eq_false _,(),rfl,(),?_,(),?_,?_⟩
  · rw [decide_eq_false_iff_not]
    omega
  · rw [decide_eq_false_iff_not,MAX_FUTURE_BLOCK_TIME]
    omega
  · simp

lemma headers_valid (h : height<4920) : ValidChain .main (s.headers height) := by
  induction height with
  | zero =>
    have hg : s.headers 0=[main.genesis] := by
      simp only [headers,header,nTime,s.genesis]
      rfl
    rw [hg]
    exact .genesis
  | succ height ih => exact s.accept (by omega) (ih (by omega)) (s.headers_requires h)

/- The chain with the first block that carries the bits ASERT starts from. -/
def anchored : HeaderChain := ⟨4,s.nTime 4920,0x1a44b82f⟩::s.headers 4919

lemma anchored_length : s.anchored.length=4921 := by
  rw [anchored,length_cons,headers_length]

lemma anchored_nHeight : s.anchored.nHeight=4920 := by
  simp [nHeight,anchored_length]

lemma anchored_valid : ValidChain .main s.anchored := by
  have hlast : ValidChain .main (s.headers 4919) := s.headers_valid (by decide)
  refine s.accept (by decide) hlast fun pblock => ?_
  obtain ⟨_,hr⟩ := s.headers_cons 4919
  rw [getNextWorkRequired_main hr,headers_nHeight,if_pos (by decide)]

lemma bits_targetBits (k : Nat) : TargetBits (s.bits k) := by
  cases k with
  | zero => exact ValidChain.genesis.targetBits rfl
  | succ k => exact ⟨_,scaledTarget_le _ _ _,rfl⟩
end Schedule

/-- Two hours from the first block of a retarget period to its last, as the target asks. -/
def steady : Schedule where
  time height := 7300*(height/12)+if height%12=11 then 7200 else 600*(height%12)
  genesis := rfl
  increasing height := by
    split <;> split <;> omega
  bounded height h := by
    split <;> omega

/- At the first retarget, and once ASERT is active. -/
theorem requiredBitsPermitted_steady :
    RequiredBitsPermitted .main (steady.headers 11) (steady.header 11) (steady.header 12) ∧
    RequiredBitsPermitted .main steady.anchored ⟨4,steady.nTime 4920,0x1a44b82f⟩
      (steady.header 4921) := by
  constructor
  · have hchain : steady.headers 11=steady.header 11::steady.headers 10 := rfl
    refine (requiredBitsPermitted_iff hchain (steady.headers_valid (by decide)) ?_ _).2 ?_
    · rw [Schedule.headers_length]
      decide
    · rintro ⟨_,hz⟩
      rw [Schedule.headers_nHeight,if_pos (by decide)] at hz
      obtain ⟨first,_,hlt⟩ := hz
      have hs := (clampTimespan_bounds ((steady.header 11).getBlockTime-first.getBlockTime)).1
      have hv : (setCompact (steady.header 11).nBits).value=0xffff0*2^216 := by decide
      rw [hv] at hlt
      omega
  · have hchain : steady.anchored=⟨4,steady.nTime 4920,0x1a44b82f⟩::steady.headers 4919 := rfl
    refine (requiredBitsPermitted_iff hchain steady.anchored_valid ?_ _).2 ?_
    · rw [Schedule.anchored_length]
      decide
    · rintro ⟨hlt,_⟩
      rw [steady.anchored_nHeight] at hlt
      omega

/-- One second a block. -/
def fast : Schedule where
  time := id
  genesis := rfl
  increasing := lt_succ_self
  bounded height h := show height<2^31 by omega

lemma fast_bits_succ (k : Nat) : fast.bits (k+1)=getCompact
    (scaledTarget .main (fast.bits k) 1800) := by
  have hspan : ((fast.time (12*k+11) : Int)-fast.time (12*k))=11 := by
    show ((12*k+11 : Nat) : Int)-(12*k : Nat)=11
    omega
  rw [Schedule.bits,hspan]
  rfl

lemma fast_bits_value (k : Nat) : (setCompact (fast.bits k)).value*4^k ≤ main.powLimit := by
  induction k with
  | zero => decide
  | succ k ih =>
    have hs : (setCompact (fast.bits (k+1))).value≤(setCompact (fast.bits k)).value/4 := by
      rw [fast_bits_succ,setCompact_targetBits (scaledTarget_le _ _ _)]
      refine (keepBytes_le _ _).trans ?_
      rw [scaledTarget_main (fast.bits_targetBits k) (by decide)]
      refine (min_le_left _ _).trans ?_
      show (setCompact (fast.bits k)).value*1800/7200≤_
      omega
    calc (setCompact (fast.bits (k+1))).value*4^(k+1)
        ≤ (setCompact (fast.bits k)).value/4*4^(k+1) := mul_le_mul_right _ hs
      _=(setCompact (fast.bits k)).value/4*4*4^k := by ring
      _≤(setCompact (fast.bits k)).value*4^k := mul_le_mul_right _ (div_mul_le_self _ _)
      _ ≤ main.powLimit := ih

lemma fast_bits_vanish : (setCompact (fast.bits 118)).value=0 := by
  have hv := fast_bits_value 118
  by_contra hn
  have hb : 4^118≤(setCompact (fast.bits 118)).value*4^118 :=
    Nat.le_mul_of_pos_left _ (Nat.pos_of_ne_zero hn)
  exact absurd (hb.trans hv) (by decide)

/-- After 117 retargets every header still has a target, and the next one is asked for a target
CheckProofOfWork rejects outright. -/
theorem requiredBits_vanish_on_fastChain : ValidChain .main (fast.headers 1415) ∧
      (∀ k≤117, (setCompact (fast.bits k)).value≠0) ∧
      getNextWorkRequired .main (fast.headers 1415) (fast.header 1416)=.ok (fast.bits 118) ∧
      (setCompact (fast.bits 118)).value=0 ∧
      ¬RequiredBitsPermitted .main (fast.headers 1415) (fast.header 1415) (fast.header 1416) := by
  have hre := fast.headers_requires (show 1415+1<4920 by decide) (fast.header 1416)
  refine ⟨fast.headers_valid (by decide),by decide +kernel,hre,fast_bits_vanish,?_⟩
  rintro ⟨n,hn,_,hr⟩
  have he : n=fast.bits 118 := ok.inj (hn.symm.trans hre)
  rw [he] at hr
  exact (fast.bits_targetBits 118).checkTargetRange_iff.1 hr fast_bits_vanish
end
end Xero
