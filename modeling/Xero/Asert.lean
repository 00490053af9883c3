import Xero.DifficultyEnvelope

/-! CalculateASERT against the target it approximates, floor(refTarget*factor*2^(shifts-16)) over
the integers. A product past 2^256 or a shift count past 2^32 is harmless only where the answer is
clamped to the same end. -/
namespace Xero
open Library Except Nat
variable {f n p : Nat}

def asertExponent (spacing timeDiff heightDiff halfLife : Int) : Int :=
  ((timeDiff-spacing*(heightDiff+1))*65536).tdiv halfLife
def asertSum (frac : Nat) : Nat :=
  195766423245049*frac+971821376*frac*frac+5127*frac*frac*frac+2^47
def asertFactor (frac : Nat) : Nat := (65536+asertSum frac%2^64/2^48)%2^32

/-- A product shifted by a signed count, over unbounded integers. -/
def scaledProduct (product : Nat) (shifts : Int) : Nat :=
  product*2^shifts.toNat/2^(-shifts).toNat

/-- The target of an exponent over unbounded integers. -/
def exactTarget (refTarget : Nat) (exponent : Int) : Nat :=
  scaledProduct (refTarget*asertFactor (exponent%65536).toNat) (exponent/65536-16)

/- A shift count is converted to unsigned int after its sign has chosen the direction. -/
def narrowedShift (shifts : Int) : Int := shifts.sign*(shifts.natAbs%2^32 : Nat)

/-- The target with the product kept in 256 bits and the shift count in 32. -/
def wrappedTarget (refTarget : Nat) (exponent : Int) : Nat :=
  scaledProduct (refTarget*asertFactor (exponent%65536).toNat%2^256)
    (narrowedShift (exponent/65536-16))

/-- The four assertions of CalculateASERT on its arguments. -/
def AsertAsserts (refTarget : Nat) (spacing timeDiff heightDiff : Int) (powLimit : Nat) : Prop :=
  (0 < refTarget ∧ refTarget≤powLimit) ∧ 0<powLimit ∧ 0≤heightDiff ∧
    (timeDiff-spacing*heightDiff).natAbs<2^47

lemma asertSum_mono {g : Nat} (h : f≤g) : asertSum f≤asertSum g := by
  unfold asertSum
  gcongr

/- The sum stays below 2^64, if only by a hair. -/
lemma asertFactor_eq (h : f≤65535) : asertFactor f=65536+asertSum f/2^48 := by
  have hs : asertSum f<2^64 := lt_of_le_of_lt (asertSum_mono h) (by decide)
  unfold asertFactor
  rw [mod_eq_of_lt hs]
  exact mod_eq_of_lt (by omega)

lemma asertFactor_mono {g : Nat} (h : f≤g) (hg : g≤65535) : asertFactor f≤asertFactor g := by
  rw [asertFactor_eq hg,asertFactor_eq (h.trans hg)]
  exact Nat.add_le_add_left (Nat.div_le_div_right (asertSum_mono h)) _

lemma asertFactor_bounds (h : f≤65535) : 65536≤asertFactor f ∧ asertFactor f≤131071 := by
  have hl := asertFactor_mono (zero_le f) h
  have hh := asertFactor_mono h le_rfl
  exact ⟨hl,hh⟩

lemma frac_le (e : Int) : (e%65536).toNat≤65535 := by
  omega

variable {refTarget powLimit t t' : Nat} {spacing timeDiff heightDiff halfLife : Int}

lemma calculateASERT_iff :
    calculateASERT refTarget spacing timeDiff heightDiff powLimit halfLife=.ok t ↔
      AsertAsserts refTarget spacing timeDiff heightDiff powLimit ∧
      t=clampTarget powLimit (shiftTarget powLimit
        (refTarget*asertFactor (asertExponent spacing timeDiff heightDiff
        halfLife%65536).toNat%2^256)
        (asertExponent spacing timeDiff heightDiff halfLife/65536-16)) := by
  have he : ∀ e : Int, e=e/65536*65536+((e%65536).toNat : Int) := by
    intro e
    omega
  have hs : ∀ e : Int, e >>> (16 : Nat)=e/65536 := fun e => Int.shiftRight_eq_div_pow e 16
  simp only [calculateASERT,bind_eq_ok,pure_eq_ok,assertThat_eq_ok,decide_eq_true_eq,hs]
  constructor
  · rintro ⟨_,hr,_,hl,_,hh,_,ht,_,_,rfl⟩
    exact ⟨⟨hr,hl,hh,ht⟩,rfl⟩
  · rintro ⟨⟨hr,hl,hh,ht⟩,rfl⟩
    exact ⟨(),hr,(),hl,(),hh,(),ht,(),he _,rfl⟩

lemma clampTarget_eq (h : 0<powLimit) (x : Nat) :
    clampTarget powLimit x=min powLimit (max 1 x) := by
  unfold clampTarget
  split
  · omega
  · split <;> omega

/- Narrowing a shift count to 32 bits keeps it, or leaves one that still shifts every bit out. -/
def CountKept (shifts : Int) : Prop := min (shifts.natAbs%2^32) 256=min shifts.natAbs 256

lemma CountKept.of_lt {s : Int} (h : s.natAbs<2^32) : CountKept s := by
  rw [CountKept,mod_eq_of_lt h]

lemma scaledProduct_left (product n : Nat) : scaledProduct product n=product*2^n := by
  have hz : (-(n : Int)).toNat=0 := by omega
  rw [scaledProduct,hz,pow_zero,Nat.div_one,Int.toNat_natCast]

lemma scaledProduct_right (product n : Nat) : scaledProduct product (-(n : Int))=product/2^n := by
  have hz : (-(n : Int)).toNat=0 := by omega
  rw [scaledProduct,hz,pow_zero,mul_one,neg_neg,Int.toNat_natCast]

lemma narrowedShift_left (h : 0<n) : narrowedShift n=(n%2^32 : Nat) := by
  rw [narrowedShift,Int.sign_natCast_of_ne_zero (by omega),one_mul,Int.natAbs_natCast]

lemma narrowedShift_right (n : Nat) : narrowedShift (-(n : Int)) = -((n%2^32 : Nat) : Int) := by
  obtain rfl | h := Nat.eq_zero_or_pos n
  · rfl
  · rw [narrowedShift,Int.sign_neg,Int.sign_natCast_of_ne_zero (by omega),Int.natAbs_neg,
      Int.natAbs_natCast,neg_one_mul]

/- A left shift that loses bits is seen by shifting back, and then the limit is answered. -/
lemma shiftTarget_left (hli : powLimit<2^256) (hn : 0<n) :
    min powLimit (max 1 (shiftTarget powLimit p n))=min powLimit (max 1 (p*2^(n%2^32))) := by
  unfold shiftTarget
  rw [if_neg (by omega),Int.toNat_natCast]
  simp only [Nat.shiftLeft_eq,Nat.shiftRight_eq_div_pow]
  by_cases hf : p*2^(n%2^32)<2^256
  · rw [Nat.mod_eq_of_lt hf,Nat.mul_div_cancel _ (Nat.two_pow_pos _),if_neg (by simp)]
  · have hl : p*2^(n%2^32)%2^256/2^(n%2^32)≠p := by
      intro heq
      have hb := div_mul_le_self (p*2^(n%2^32)%2^256) (2^(n%2^32))
      rw [heq] at hb
      omega
    rw [if_pos hl]
    omega

lemma shiftTarget_right (n : Nat) : shiftTarget powLimit p (-(n : Int))=p/2^(n%2^32) := by
  unfold shiftTarget
  rw [if_pos (by omega),neg_neg,Int.toNat_natCast,Nat.shiftRight_eq_div_pow]

lemma shiftTarget_scaled (hl : powLimit<2^256) (shifts : Int) :
    min powLimit (max 1 (shiftTarget powLimit p shifts)) =
      min powLimit (max 1 (scaledProduct p (narrowedShift shifts))) := by
  by_cases hs : shifts≤0
  · obtain ⟨n,rfl⟩ : ∃ n : Nat, shifts = -(n : Int) := ⟨shifts.natAbs,by omega⟩
    rw [shiftTarget_right,narrowedShift_right,scaledProduct_right]
  · obtain ⟨n,rfl⟩ := Int.eq_ofNat_of_zero_le (show 0 ≤ shifts by omega)
    rw [shiftTarget_left hl (by omega),narrowedShift_left (by omega),scaledProduct_left]

/-- Whatever wraps, CalculateASERT answers the wrapped target, clamped. -/
lemma calculateASERT_wrapped (hl : powLimit<2^256)
    (ha : AsertAsserts refTarget spacing timeDiff heightDiff powLimit) :
    calculateASERT refTarget spacing timeDiff heightDiff powLimit halfLife=.ok (min powLimit
      (max 1 (wrappedTarget refTarget (asertExponent spacing timeDiff heightDiff halfLife)))) := by
  rw [calculateASERT_iff,clampTarget_eq ha.2.1,shiftTarget_scaled hl]
  exact ⟨ha,rfl⟩

/-- Two values that the clamp between 1 and the limit takes to the same end. -/
def ClampedAlike (powLimit x y : Nat) : Prop :=
  powLimit=1 ∨ (x≤1 ∧ y≤1) ∨ (powLimit≤x ∧ powLimit≤y)

lemma clamped_eq_iff {x y : Nat} (h : 0<powLimit) :
    min powLimit (max 1 x)=min powLimit (max 1 y) ↔ x=y ∨ ClampedAlike powLimit x y := by
  unfold ClampedAlike
  omega

/-- The product stays below 2^256 and the narrowing keeps what the shift does. -/
def NothingWraps (refTarget : Nat) (exponent : Int) : Prop :=
  refTarget*asertFactor (exponent%65536).toNat<2^256 ∧ CountKept (exponent/65536-16)

lemma shiftLeft_ge (hp : 0<p) (hn : 256≤n) : 2^256≤p*2^n :=
  calc 2^256≤2^n := Nat.pow_le_pow_right (by decide) hn
    _≤p*2^n := Nat.le_mul_of_pos_left _ hp

lemma shiftRight_zero {m : Nat} (hp : p<2^m) (hn : m≤n) : p/2^n=0 :=
  Nat.div_eq_of_lt (lt_of_lt_of_le hp (Nat.pow_le_pow_right (by decide) hn))

/- Where nothing wraps the counts differ only when both shift every bit out. -/
lemma scaledProduct_kept {shifts : Int} (hl : powLimit<2^256) (hpos : 0<p) (hp : p<2^256)
    (hk : CountKept shifts) : scaledProduct p (narrowedShift shifts)=scaledProduct p shifts ∨
      ClampedAlike powLimit (scaledProduct p (narrowedShift shifts)) (scaledProduct p shifts) := by
  have hc : shifts.natAbs%2^32=shifts.natAbs ∨ 256 ≤ shifts.natAbs%2^32 ∧ 256 ≤ shifts.natAbs := by
    unfold CountKept at hk
    omega
  by_cases hs : shifts≤0
  · obtain ⟨n,rfl⟩ : ∃ n : Nat, shifts = -(n : Int) := ⟨shifts.natAbs,by omega⟩
    rw [Int.natAbs_neg,Int.natAbs_natCast] at hc
    rw [narrowedShift_right,scaledProduct_right,scaledProduct_right]
    obtain h | ⟨h,h'⟩ := hc
    · rw [h]
      exact .inl rfl
    · rw [shiftRight_zero hp h,shiftRight_zero hp h']
      exact .inl rfl
  · obtain ⟨n,rfl⟩ := Int.eq_ofNat_of_zero_le (show 0 ≤ shifts by omega)
    rw [Int.natAbs_natCast] at hc
    rw [narrowedShift_left (by omega),scaledProduct_left,scaledProduct_left]
    obtain h | ⟨h,h'⟩ := hc
    · rw [h]
      exact .inl rfl
    · have hw := shiftLeft_ge hpos h
      have hx := shiftLeft_ge hpos h'
      exact .inr (.inr (.inr ⟨by omega,by omega⟩))

/- A shift by at most 256 bits sees the multiple of 2^256 that the product lost. -/
lemma wrapped_lt_shiftRight (hp : 2^256≤p) (hn : n≤256) : p%2^256/2^n<p/2^n := by
  have hsplit : p=p%2^256+p/2^256*2^(256-n)*2^n := by
    rw [mul_assoc,← pow_add,Nat.sub_add_cancel hn]
    omega
  have hq : 0 < p/2^256*2^(256-n) :=
    Nat.mul_pos (Nat.div_pos hp (Nat.two_pow_pos 256)) (Nat.two_pow_pos _)
  calc p%2^256/2^n<p%2^256/2^n+p/2^256*2^(256-n) := Nat.lt_add_of_pos_right hq
    _=(p%2^256+p/2^256*2^(256-n)*2^n)/2^n := (Nat.add_mul_div_right _ _ (Nat.two_pow_pos n)).symm
    _=p/2^n := by rw [← hsplit]

/- Where something wraps the two values are apart, or at the same end of the clamp. -/
lemma scaledProduct_apart {shifts : Int} (hl : powLimit<2^256) (hpos : 0<p) (hbig : p<2^273)
    (hw : ¬(p<2^256 ∧ CountKept shifts))
    (he : scaledProduct (p%2^256) (narrowedShift shifts)=scaledProduct p shifts) :
    ClampedAlike powLimit (scaledProduct (p%2^256) (narrowedShift shifts))
      (scaledProduct p shifts) := by
  rw [he]
  by_cases hs : shifts≤0
  · obtain ⟨n,rfl⟩ : ∃ n : Nat, shifts = -(n : Int) := ⟨shifts.natAbs,by omega⟩
    rw [narrowedShift_right,scaledProduct_right,scaledProduct_right] at he
    rw [scaledProduct_right]
    by_cases hn : n<2^32
    · have hover : 2^256≤p := by
        by_contra hlt
        exact hw ⟨by omega,.of_lt (by omega)⟩
      rw [Nat.mod_eq_of_lt hn] at he
      by_cases hsmall : n≤256
      · exact absurd he (wrapped_lt_shiftRight hover hsmall).ne
      · have hz := shiftRight_zero (Nat.mod_lt p (Nat.two_pow_pos 256)) (show 256≤n by omega)
        exact .inr (.inl ⟨by omega,by omega⟩)
    · have hz := shiftRight_zero hbig (show 273≤n by omega)
      exact .inr (.inl ⟨by omega,by omega⟩)
  · obtain ⟨n,rfl⟩ := Int.eq_ofNat_of_zero_le (show 0 ≤ shifts by omega)
    rw [scaledProduct_left]
    have hge : 2^256≤p*2^n := by
      by_cases hlt : p<2^256
      · have hn : 256≤n := by
          by_contra hn
          exact hw ⟨hlt,.of_lt (by omega)⟩
        exact shiftLeft_ge hpos hn
      · exact (not_lt.1 hlt).trans (Nat.le_mul_of_pos_right _ (Nat.two_pow_pos n))
    exact .inr (.inr ⟨by omega,by omega⟩)

lemma product_bounds {e : Int} (hr : 0 < refTarget) (hl : refTarget<2^256) :
    0 < refTarget*asertFactor (e%65536).toNat ∧ refTarget*asertFactor (e%65536).toNat<2^273 := by
  obtain ⟨hlo,hhi⟩ := asertFactor_bounds (frac_le e)
  constructor
  · exact Nat.mul_pos hr (by omega)
  · calc refTarget*asertFactor (e%65536).toNat ≤ refTarget*131071 := Nat.mul_le_mul_left _ hhi
      _<2^273 := by omega

/-- The wrapped target is clamped to the exact one exactly where nothing wraps or both are clamped
to the same end. -/
lemma wrappedTarget_clamped_iff {e : Int} (hr : 0 < refTarget) (hle : refTarget≤powLimit)
    (hl : powLimit<2^256) :
    min powLimit (max 1 (wrappedTarget refTarget e))=min powLimit
    (max 1 (exactTarget refTarget e)) ↔
      NothingWraps refTarget e ∨
        ClampedAlike powLimit (wrappedTarget refTarget e) (exactTarget refTarget e) := by
  obtain ⟨hpos,hbig⟩ := product_bounds (e := e) hr (lt_of_le_of_lt hle hl)
  rw [clamped_eq_iff (by omega)]
  unfold NothingWraps wrappedTarget exactTarget
  by_cases hw : refTarget*asertFactor (e%65536).toNat<2^256 ∧ CountKept (e/65536-16)
  · have hk := scaledProduct_kept hl hpos hw.1 hw.2
    rw [Nat.mod_eq_of_lt hw.1]
    exact ⟨fun _ => .inl hw,fun _ => hk⟩
  · constructor
    · rintro (he | h)
      · exact .inr (scaledProduct_apart hl hpos hbig hw he)
      · exact .inr h
    · rintro (h | h)
      · exact absurd h hw
      · exact .inr h

/-- Where nothing wraps, CalculateASERT answers the exact target, clamped. -/
lemma calculateASERT_exact (hl : powLimit<2^256)
    (ha : AsertAsserts refTarget spacing timeDiff heightDiff powLimit)
    (hw : NothingWraps refTarget (asertExponent spacing timeDiff heightDiff halfLife)) :
    calculateASERT refTarget spacing timeDiff heightDiff powLimit halfLife=.ok (min powLimit
      (max 1 (exactTarget refTarget (asertExponent spacing timeDiff heightDiff halfLife)))) := by
  rw [calculateASERT_wrapped hl ha,(wrappedTarget_clamped_iff ha.1.1 ha.1.2 hl).2 (.inl hw)]

lemma nothingWraps_of_lt {e : Int} (hle : refTarget≤powLimit) (hl : powLimit<2^239)
    (hc : (e/65536).natAbs<2^31) : NothingWraps refTarget e := by
  refine ⟨?_,.of_lt (by omega)⟩
  calc refTarget*asertFactor (e%65536).toNat≤powLimit*131071 :=
        Nat.mul_le_mul hle (asertFactor_bounds (frac_le e)).2
    _<2^256 := by omega

lemma scaled_le_scaled {x y a b : Nat} (hb : 0<b) (h : x*b≤y*a) : x/a≤y/b := by
  rw [Nat.le_div_iff_mul_le hb]
  obtain rfl | ha := Nat.eq_zero_or_pos a
  · simp
  · refine le_of_mul_le_mul_right ?_ ha
    calc x/a*b*a=x/a*a*b := mul_right_comm _ _ _
      _≤x*b := mul_le_mul_right b (div_mul_le_self x a)
      _≤y*a := h

/- Within an octave the factor grows; at its end the factor falls by less than the half the next
   shift makes up for. -/
lemma exactTarget_succ (refTarget : Nat) (e : Int) :
    exactTarget refTarget e≤exactTarget refTarget (e+1) := by
  unfold exactTarget scaledProduct
  by_cases hse : e%65536=65535
  · have hs : (e+1)/65536-16=e/65536-16+1 := by omega
    have hf : ((e+1)%65536).toNat=0 := by omega
    have hl : (e%65536).toNat=65535 := by omega
    rw [hs,hf,hl]
    generalize e/65536-16=s
    refine scaled_le_scaled (Nat.two_pow_pos _) ?_
    have hp : 2^(s+1).toNat*2^(-s).toNat=2*(2^s.toNat*2^(-(s+1)).toNat) := by
      rw [← pow_add,← pow_add,← pow_succ']
      congr 1
      omega
    calc refTarget*asertFactor 65535*2^s.toNat*2^(-(s+1)).toNat
        = refTarget*asertFactor 65535*(2^s.toNat*2^(-(s+1)).toNat) := mul_assoc _ _ _
      _ ≤ refTarget*(asertFactor 0*2)*(2^s.toNat*2^(-(s+1)).toNat) := by
          gcongr
          decide
      _=refTarget*asertFactor 0*2^(s+1).toNat*2^(-s).toNat := by
          rw [mul_assoc (refTarget*asertFactor 0),hp]
          ring
  · have hs : (e+1)/65536=e/65536 := by omega
    have hf : (e%65536).toNat≤((e+1)%65536).toNat := by omega
    rw [hs]
    have hfa := asertFactor_mono hf (frac_le (e+1))
    gcongr

lemma exactTarget_mono (refTarget : Nat) {a b : Int} (h : a≤b) :
    exactTarget refTarget a≤exactTarget refTarget b :=
  monotone_int_of_le_succ (exactTarget_succ refTarget) h

lemma exactTarget_zero (refTarget : Nat) : exactTarget refTarget 0=refTarget := by
  unfold exactTarget scaledProduct
  have hu : ((0 : Int)/65536-16).toNat=0 := by decide
  have hd : (-((0 : Int)/65536-16)).toNat=16 := by decide
  rw [hu,hd,pow_zero,mul_one]
  exact Nat.mul_div_cancel _ (Nat.two_pow_pos 16)

def asertShifts (spacing timeDiff heightDiff halfLife : Int) : Int :=
  asertExponent spacing timeDiff heightDiff halfLife/65536

lemma calculateASERT_le {td' heightDiff' : Int} (hli : powLimit<2^239)
    (hl : 0<halfLife) (hc : (asertShifts spacing timeDiff heightDiff halfLife).natAbs<2^31)
    (hc' : (asertShifts spacing td' heightDiff' halfLife).natAbs<2^31)
    (h : calculateASERT refTarget spacing timeDiff heightDiff powLimit halfLife=.ok t)
    (h' : calculateASERT refTarget spacing td' heightDiff' powLimit halfLife=.ok t')
    (hle : timeDiff-spacing*(heightDiff+1)≤td'-spacing*(heightDiff'+1)) : t≤t' := by
  unfold asertShifts at hc hc'
  have ha := (calculateASERT_iff.1 h).1
  have ha' := (calculateASERT_iff.1 h').1
  rw [calculateASERT_exact (by omega) ha (nothingWraps_of_lt ha.1.2 hli hc)] at h
  rw [calculateASERT_exact (by omega) ha' (nothingWraps_of_lt ha.1.2 hli hc')] at h'
  obtain rfl := ok.inj h
  obtain rfl := ok.inj h'
  have he : asertExponent spacing timeDiff heightDiff halfLife ≤
      asertExponent spacing td' heightDiff' halfLife := Int.tdiv_le_tdiv hl (by omega)
  exact min_le_min_left _ (max_le_max_left _ (exactTarget_mono refTarget he))

/-- ASERT responds in the right direction, stays between 1 and the limit, and is the identity on
schedule. -/
theorem calculateASERT_responds (href : 0 < refTarget) (hle : refTarget≤powLimit)
    (hlimit : powLimit<2^239) (hlife : 0<halfLife) :
    (∀ timeDiff timeDiff' heightDiff t t', timeDiff≤timeDiff' →
      (asertShifts spacing timeDiff heightDiff halfLife).natAbs<2^31 →
      (asertShifts spacing timeDiff' heightDiff halfLife).natAbs<2^31 →
      calculateASERT refTarget spacing timeDiff heightDiff powLimit halfLife=.ok t →
      calculateASERT refTarget spacing timeDiff' heightDiff powLimit halfLife=.ok t' → t≤t') ∧
    (0 < spacing → ∀ timeDiff heightDiff heightDiff' t t', heightDiff≤heightDiff' →
      (asertShifts spacing timeDiff heightDiff halfLife).natAbs<2^31 →
      (asertShifts spacing timeDiff heightDiff' halfLife).natAbs<2^31 →
      calculateASERT refTarget spacing timeDiff heightDiff powLimit halfLife=.ok t →
      calculateASERT refTarget spacing timeDiff heightDiff' powLimit halfLife=.ok t' → t'≤t) ∧
    (∀ timeDiff heightDiff t,
      calculateASERT refTarget spacing timeDiff heightDiff powLimit halfLife=.ok t →
      1≤t ∧ t≤powLimit) ∧
    (∀ heightDiff, 0≤heightDiff → spacing.natAbs<2^47 →
      calculateASERT refTarget spacing (spacing*(heightDiff+1)) heightDiff powLimit halfLife =
        .ok refTarget) := by
  refine ⟨?_,?_,fun _ _ _ h => calculateASERT_ok h,?_⟩
  · intro timeDiff timeDiff' heightDiff t t' _ hc hc' h h'
    exact calculateASERT_le hlimit hlife hc hc' h h' (by omega)
  · intro hs timeDiff heightDiff heightDiff' t t' hh hc hc' h h'
    refine calculateASERT_le hlimit hlife hc' hc h' h ?_
    have := Int.mul_le_mul_of_nonneg_left (show heightDiff+1≤heightDiff'+1 by omega) hs.le
    omega
  · intro heightDiff hh hs
    have hz : asertExponent spacing (spacing*(heightDiff+1)) heightDiff halfLife=0 := by
      simp [asertExponent]
    have hl : spacing*(heightDiff+1)-spacing*heightDiff=spacing := by ring
    have ha : AsertAsserts refTarget spacing (spacing*(heightDiff+1)) heightDiff powLimit :=
      ⟨⟨href,hle⟩,by omega,hh,by rw [hl]; exact hs⟩
    have hw : NothingWraps refTarget (asertExponent spacing (spacing*(heightDiff+1))
        heightDiff halfLife) :=
      nothingWraps_of_lt hle hlimit (by rw [hz]; decide)
    rw [calculateASERT_exact (by omega) ha hw,hz,exactTarget_zero]
    congr 1
    omega

theorem mainAnchor_responds : ∃ t t', t≤t' ∧ calculateASERT 1000 600 1200 1 (2^236-1) 172800=.ok t ∧
    calculateASERT 1000 600 2200 1 (2^236-1) 172800=.ok t' :=
  ⟨1000,1004,(@calculateASERT_responds 1000 (2^236-1) 600 172800 (by decide) (by decide) (by decide)
    (by decide)).1 1200 2200 1 1000 1004 (by decide) (by decide) (by decide) (by decide +kernel)
    (by decide +kernel),by decide +kernel,by decide +kernel⟩

def inInt64 (x : Int) : Prop := -2^63≤x ∧ x<2^63

/-- No signed 64-bit operation of CalculateASERT overflows. After the exponent only its parts and
small sums of them are formed. -/
def AsertFits (spacing timeDiff heightDiff halfLife : Int) : Prop :=
  inInt64 (spacing*heightDiff) ∧ inInt64 (timeDiff-spacing*heightDiff) ∧
    timeDiff-spacing*heightDiff ≠ -2^63 ∧ inInt64 (heightDiff+1) ∧
    inInt64 (spacing*(heightDiff+1)) ∧ inInt64 (timeDiff-spacing*(heightDiff+1)) ∧
    inInt64 ((timeDiff-spacing*(heightDiff+1))*65536) ∧ halfLife≠0 ∧
    inInt64 (asertExponent spacing timeDiff heightDiff halfLife)

/-- The distance from the schedule at the next height is below 2^47, as the assertion has it at
this height only, and the products and the half-life are in range. -/
def AsertInRange (spacing timeDiff heightDiff halfLife : Int) : Prop :=
  inInt64 (spacing*heightDiff) ∧ inInt64 (spacing*(heightDiff+1)) ∧ heightDiff<2^63-1 ∧
    -2^47≤timeDiff-spacing*(heightDiff+1) ∧ timeDiff-spacing*(heightDiff+1)<2^47 ∧
    halfLife≠0 ∧ ¬(timeDiff-spacing*(heightDiff+1) = -2^47 ∧ halfLife = -1)

/- A truncated quotient of a 64-bit number leaves the range only when -2^63 is divided by -1. -/
lemma inInt64_tdiv {n d : Int} (hn : inInt64 n) : inInt64 (n.tdiv d) ↔ ¬(n = -2^63 ∧ d = -1) := by
  obtain ⟨_,_⟩ := hn
  have ha : (n.tdiv d).natAbs=n.natAbs/d.natAbs := Int.natAbs_tdiv n d
  constructor
  · rintro ⟨_,h⟩ ⟨rfl,rfl⟩
    exact absurd h (by decide)
  · intro _
    have hl : (n.tdiv d).natAbs≤n.natAbs := ha ▸ div_le_self _ _
    unfold inInt64
    by_cases hm : n = -2^63
    · by_cases ho : d=1
      · subst ho
        rw [Int.tdiv_one]
        omega
      · have hh : n.natAbs/d.natAbs≤2^62 := by
          obtain hz | hz := Nat.eq_zero_or_pos d.natAbs
          · rw [hz]
            omega
          · calc n.natAbs/d.natAbs≤n.natAbs/2 := div_le_div_left (by omega) (by decide)
              _≤2^62 := by omega
        omega
    · omega

lemma asertFits_iff (h : AsertAsserts refTarget spacing timeDiff heightDiff powLimit) :
    AsertFits spacing timeDiff heightDiff halfLife ↔
      AsertInRange spacing timeDiff heightDiff halfLife := by
  obtain ⟨_,_,_,_⟩ := h
  unfold AsertFits AsertInRange asertExponent
  generalize spacing*heightDiff=now at *
  generalize spacing*(heightDiff+1)=next at *
  constructor
  · rintro ⟨hno,_,_,hsu,hn,_,hs,hl,he⟩
    rw [inInt64_tdiv hs] at he
    unfold inInt64 at *
    omega
  · rintro ⟨hno,hn,hsu,_,_,hl,_⟩
    have hs : inInt64 ((timeDiff-next)*65536) := by
      unfold inInt64
      omega
    rw [inInt64_tdiv hs]
    unfold inInt64 at *
    omega

/-- What the comment in CalculateASERT promises of one call. -/
def AsertSafe (refTarget : Nat) (spacing timeDiff heightDiff : Int) (powLimit : Nat)
    (halfLife : Int) : Prop :=
  AsertFits spacing timeDiff heightDiff halfLife ∧
    calculateASERT refTarget spacing timeDiff heightDiff powLimit halfLife=.ok (min powLimit
      (max 1 (exactTarget refTarget (asertExponent spacing timeDiff heightDiff halfLife))))

/-- The promise holds of a call exactly when its 64-bit steps are in range and nothing wraps, or what
wraps is clamped to the end the exact target is clamped to. -/
theorem calculateASERT_safe_iff (hlimit : powLimit<2^256)
    (hasserts : AsertAsserts refTarget spacing timeDiff heightDiff powLimit) :
    AsertSafe refTarget spacing timeDiff heightDiff powLimit halfLife ↔
      AsertInRange spacing timeDiff heightDiff halfLife ∧
      (NothingWraps refTarget (asertExponent spacing timeDiff heightDiff halfLife) ∨
        ClampedAlike powLimit
          (wrappedTarget refTarget (asertExponent spacing timeDiff heightDiff halfLife))
          (exactTarget refTarget (asertExponent spacing timeDiff heightDiff halfLife))) := by
  obtain ⟨⟨hr,hle⟩,_,_,_⟩ := id hasserts
  rw [AsertSafe,asertFits_iff hasserts,calculateASERT_wrapped hlimit hasserts,ok.injEq,
    wrappedTarget_clamped_iff hr hle hlimit]

/- Half a day late on the main network nothing wraps; on the regression network, 34 days late at the
limit itself, the product wraps and both values are above the limit. -/
theorem mainAndRegtest_safe : AsertSafe 1000 600 44400 1 (2^236-1) 172800 ∧
    ¬NothingWraps (2^255-1) (asertExponent 600 2938200 0 172800) ∧
    AsertSafe (2^255-1) 600 2938200 0 (2^255-1) 172800 := by
  refine ⟨(calculateASERT_safe_iff (by decide) ⟨by decide,by decide,by decide,by decide⟩).2
      ⟨?_,.inl ?_⟩,
    ?_,(calculateASERT_safe_iff (by decide) ⟨by decide,by decide,by decide,by decide⟩).2
        ⟨?_,.inr ?_⟩⟩
  · unfold AsertInRange inInt64
    decide
  · exact nothingWraps_of_lt (le_refl 1000) (by decide) (by decide)
  · exact fun h => absurd h.1 (by decide +kernel)
  · unfold AsertInRange inInt64
    decide
  · exact .inr (.inr (by decide +kernel))

/- On schedule, with half the regression network's limit to spare, the product wraps to zero. -/
theorem onSchedule_wraps : AsertAsserts (2^240) 600 600 0 (2^255-1) ∧
    calculateASERT (2^240) 600 600 0 (2^255-1) 172800=.ok 1 ∧
    ¬AsertSafe (2^240) 600 600 0 (2^255-1) 172800 := by
  have hc : calculateASERT (2^240) 600 600 0 (2^255-1) 172800=.ok 1 := by decide +kernel
  refine ⟨⟨by decide,by decide,by decide,by decide⟩,hc,?_⟩
  rintro ⟨_,hs⟩
  exact absurd (ok.inj hs) (by decide)

/- Above the activation height the call of GetNextWorkRequired is far inside every range. -/
lemma asertFits_main {chain : HeaderChain} (hh : 4920 < chain.nHeight+1)
    (hi : chain.nHeight+1<2^31) (pl pap : BlockHeader) :
    AsertFits 600 (pl.getBlockTime-pap.getBlockTime) (chain.nHeight-4920) 172800 := by
  have hl := pl.nTime.toNat_lt
  have hf := pap.nTime.toNat_lt
  unfold BlockHeader.getBlockTime
  rw [asertFits_iff (show AsertAsserts 1 _ _ _ 1 from ⟨by decide,by decide,by omega,by omega⟩)]
  unfold AsertInRange inInt64
  omega

/-- On the main network GetNextWorkRequired meets every assertion, no product of a target wraps,
and from the activation on the answer depends on one height and two times. -/
theorem getNextWorkRequired_safe {chain rest : HeaderChain} {pindexLast : BlockHeader}
    (hchain : chain=pindexLast::rest) (hvalid : ValidChain .main chain)
    (hint : chain.nHeight+1<2^31) (pblock : BlockHeader) :
    (∃ n, getNextWorkRequired .main chain pblock=.ok n) ∧
    (∀ pindexFirst : BlockHeader, (setCompact pindexLast.nBits).value*
      (clampTimespan .main (pindexLast.getBlockTime-pindexFirst.getBlockTime)).toNat<2^256) ∧
    (∀ frac≤65535, (setCompact PowParams.main.nASERTStartBits).value*asertFactor frac<2^256) ∧
    (4920 < chain.nHeight+1 → ∀ pAnchorParent : BlockHeader,
      AsertFits 600 (pindexLast.getBlockTime-pAnchorParent.getBlockTime)
      (chain.nHeight-4920) 172800) ∧
    (4920 ≤ chain.nHeight+1 → ∀ (chain' rest' : HeaderChain) (pindexLast' pblock' : BlockHeader),
      chain'=pindexLast'::rest' →
      chain'.nHeight=chain.nHeight → pindexLast'.getBlockTime=pindexLast.getBlockTime →
      (chain'.getAncestor 4919).map BlockHeader.getBlockTime =
        (chain.getAncestor 4919).map BlockHeader.getBlockTime →
      getNextWorkRequired .main chain' pblock'=getNextWorkRequired .main chain pblock) := by
  refine ⟨getNextWorkRequired_succeeds hchain ?_ pblock,?_,?_,fun h => asertFits_main h hint _,?_⟩
  · unfold HeaderChain.nHeight at hint
    omega
  · intro pindexFirst
    have hsp := (clampTimespan_bounds (pindexLast.getBlockTime-pindexFirst.getBlockTime)).2
    calc (setCompact pindexLast.nBits).value*_≤PowParams.main.powLimit*28800 :=
          Nat.mul_le_mul (hvalid.targetBits hchain).value_le (by omega)
      _<2^256 := by decide
  · intro frac hf
    calc (setCompact PowParams.main.nASERTStartBits).value*asertFactor frac≤2^236*131071 :=
          Nat.mul_le_mul (by decide) (asertFactor_bounds hf).2
      _<2^256 := by decide
  · intro _ chain' rest' pindexLast' pblock' h' hs hl han
    rw [getNextWorkRequired_main hchain,getNextWorkRequired_main h',hs]
    by_cases ha : chain.nHeight+1=4920
    · rw [if_pos ha,if_pos ha]
    · have hab : 4920 < chain.nHeight+1 := by omega
      obtain ⟨pa,hp⟩ := getAncestor_some chain 4919 (by omega) (by omega)
      obtain ⟨p',hp'⟩ := getAncestor_some chain' 4919 (by omega) (by omega)
      have ht : p'.getBlockTime=pa.getBlockTime := by
        simpa [hp,hp'] using han
      have hb : PowParams.main.nASERTActivationHeight-1=4919 := rfl
      rw [if_neg ha,if_neg ha,if_pos hab,if_pos hab]
      simp only [asertWorkRequired,hb,hp,hp',hs,hl,ht]

/- At the first retarget of a steady chain, and once ASERT is active. -/
theorem steady_getNextWorkRequired_safe :
    (∃ n, getNextWorkRequired .main (steady.headers 11) (steady.header 12)=.ok n) ∧
    (∃ n, getNextWorkRequired .main steady.anchored (steady.header 4921)=.ok n) ∧
    AsertFits 600 (BlockHeader.getBlockTime ⟨4,steady.nTime 4920,0x1a44b82f⟩-
      (steady.header 4919).getBlockTime) 0 172800 ∧
    getNextWorkRequired .main (⟨5,steady.nTime 4920,0⟩::steady.headers 4919) (fast.header 4921) =
      getNextWorkRequired .main steady.anchored (steady.header 4921) := by
  have hlast : steady.headers 11=steady.header 11::steady.headers 10 := rfl
  have hanchored : steady.anchored=⟨4,steady.nTime 4920,0x1a44b82f⟩::steady.headers 4919 := rfl
  have hnext := getNextWorkRequired_safe hanchored steady.anchored_valid
    (by rw [Schedule.anchored_nHeight]; decide) (steady.header 4921)
  rw [Schedule.anchored_nHeight] at hnext
  have hsame : HeaderChain.getAncestor (⟨5,steady.nTime 4920,0⟩::steady.headers 4919) 4919 =
      HeaderChain.getAncestor steady.anchored 4919 := by
    simp [HeaderChain.getAncestor,HeaderChain.nHeight,Schedule.anchored,Schedule.headers_length]
  refine ⟨(getNextWorkRequired_safe hlast (steady.headers_valid (by decide))
    (by rw [Schedule.headers_nHeight]; decide) _).1,hnext.1,hnext.2.2.2.1 (by decide)
        (steady.header 4919),
    hnext.2.2.2.2 (by decide) _ (steady.headers 4919) ⟨5,steady.nTime 4920,0⟩ _ rfl ?_ rfl ?_⟩
  · simp [HeaderChain.nHeight,Schedule.headers_length]
  · rw [hsame]
end Xero
