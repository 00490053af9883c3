import Xero.Library.Loop
import Mathlib.Algebra.BigOperators.Group.Finset.Basic
import Mathlib.Algebra.Order.Ring.Int
import Mathlib.Data.Nat.Log

/-! The map from addresses to autonomous systems: a bit-coded program, its interpreter, and the
check made before its use. -/
namespace Xero.AsMap
open Library List

def INVALID : Nat := 0xFFFFFFFF

inductive AsMapError
  | asserts
  | outOfBounds
  deriving DecidableEq, Repr

def readBit (bits : List Bool) (pos : Nat) : Except AsMapError Bool :=
  match bits[pos]? with
  | some bit => .ok bit
  | none => .error .outOfBounds

/- The mantissa, from the most significant bit on: its value and the new position. -/
def decodeMantissa (asmap : List Bool) : Nat → Nat → Nat → Except AsMapError (Nat×Nat)
  | 0, pos, val => .ok (val,pos)
  | b+1, pos, val =>
    if pos=asmap.length then .ok (INVALID,pos)
    else do
      let bit ← readBit asmap pos
      decodeMantissa asmap b (pos+1) ((val+bit.toNat*2^b)%2^32)

def decodeBits (asmap : List Bool) : List Nat → Nat → Nat → Except AsMapError (Nat×Nat)
  | [], pos, _ => .ok (INVALID,pos)
  | [size], pos, val => decodeMantissa asmap size pos val
  | size::next::sizes, pos, val =>
    if pos=asmap.length then .ok (INVALID,pos)
    else do
      let bit ← readBit asmap pos
      if bit then decodeBits asmap (next::sizes) (pos+1) ((val+2^size)%2^32)
      else decodeMantissa asmap size (pos+1) val

inductive Instruction
  | RETURN | JUMP | MATCH | DEFAULT
  deriving DecidableEq, Repr

def instructionOf : Nat → Option Instruction
  | 0 => some .RETURN
  | 1 => some .JUMP
  | 2 => some .MATCH
  | 3 => some .DEFAULT
  | _ => none

def TYPE_BIT_SIZES : List Nat := [0,0,1]
def ASN_BIT_SIZES : List Nat := [15,16,17,18,19,20,21,22,23,24]
def MATCH_BIT_SIZES : List Nat := [1,2,3,4,5,6,7,8]
def JUMP_BIT_SIZES : List Nat :=
  [5,6,7,8,9,10,11,12,13,14,15,16,17,18,19,20,21,22,23,24,25,26,27,28,29,30]
def decodeType (asmap : List Bool) (pos : Nat) : Except AsMapError (Option Instruction×Nat) := do
  let (val,pos) ← decodeBits asmap TYPE_BIT_SIZES pos 0
  pure (instructionOf val,pos)

def decodeASN (asmap : List Bool) (pos : Nat) : Except AsMapError (Nat×Nat) :=
  decodeBits asmap ASN_BIT_SIZES pos 1
def decodeMatch (asmap : List Bool) (pos : Nat) : Except AsMapError (Nat×Nat) :=
  decodeBits asmap MATCH_BIT_SIZES pos 2
def decodeJump (asmap : List Bool) (pos : Nat) : Except AsMapError (Nat×Nat) :=
  decodeBits asmap JUMP_BIT_SIZES pos 17
def countBits (x : Nat) : Nat := if x=0 then 0 else Nat.log 2 x+1

structure Frame where
  pos : Nat
  bits : Nat
  defaultAsn : Nat
  deriving DecidableEq, Repr

/- The loop over the bits of a MATCH, `left` still to compare: the number of input bits that remain,
or nothing when a bit differs. -/
def compareBits (ip : List Bool) (pattern : Nat) : Nat → Nat → Except AsMapError (Option Nat)
  | 0, bits => .ok (some bits)
  | left+1, bits => do
    let bit ← readBit ip (ip.length-bits)
    if bit≠(pattern.testBit left) then pure none
    else compareBits ip pattern left (bits-1)

def interpretStep (asmap ip : List Bool) (f : Frame) : Except AsMapError (Nat ⊕ Frame) :=
  if f.pos=asmap.length then .error .asserts
  else do
    let (opcode,pos) ← decodeType asmap f.pos
    match opcode with
    | some .RETURN => do
      let (asn,_) ← decodeASN asmap pos
      rejectIf (decide (asn=INVALID)) .asserts
      pure (.inl asn)
    | some .JUMP => do
      let (jump,pos) ← decodeJump asmap pos
      rejectIf (decide (jump=INVALID)) .asserts
      rejectIf (decide (f.bits=0)) .asserts
      rejectIf (decide ((asmap.length : Int)-pos≤jump)) .asserts
      let bit ← readBit ip (ip.length-f.bits)
      pure (.inr {f with pos := if bit then pos+jump else pos, bits := f.bits-1})
    | some .MATCH => do
      let (pattern,pos) ← decodeMatch asmap pos
      rejectIf (decide (pattern=INVALID)) .asserts
      rejectIf (decide (f.bits < countBits pattern-1)) .asserts
      match ← compareBits ip pattern (countBits pattern-1) f.bits with
      | none => pure (.inl f.defaultAsn)
      | some bits => pure (.inr {f with pos, bits})
    | some .DEFAULT => do
      let (asn,pos) ← decodeASN asmap pos
      rejectIf (decide (asn=INVALID)) .asserts
      pure (.inr {f with pos, defaultAsn := asn})
    | none => .error .asserts

structure Scan where
  pos : Nat := 0
  bits : Nat
  jumps : List (Nat×Nat) := []
  prevopcode : Instruction := .JUMP
  hadIncompleteMatch : Bool := false
  deriving DecidableEq, Repr

def checkPadding (asmap : List Bool) (pos : Nat) : Bool :=
  decide (asmap.length-pos≤7) && (asmap.drop pos).all fun bit => !bit

def checkStep (asmap : List Bool) (s : Scan) : Except AsMapError (Bool ⊕ Scan) :=
  if s.pos=asmap.length then .ok (.inl false)
  else if s.jumps.head?.any fun target => target.1 ≤ s.pos%2^32 then .ok (.inl false)
  else do
    let (opcode,pos) ← decodeType asmap s.pos
    match opcode with
    | some .RETURN =>
      if s.prevopcode=.DEFAULT then pure (.inl false)
      else do
        let (asn,pos) ← decodeASN asmap pos
        if asn=INVALID then pure (.inl false)
        else
          match s.jumps with
          | [] => pure (.inl (checkPadding asmap pos))
          | target::jumps =>
            if pos%2^32≠target.1 then pure (.inl false)
            else pure (.inr {s with pos, bits := target.2, jumps, prevopcode := .JUMP})
    | some .JUMP => do
      let (jump,pos) ← decodeJump asmap pos
      if jump=INVALID then pure (.inl false)
      else if (asmap.length : Int)-pos<jump then pure (.inl false)
      else if s.bits=0 then pure (.inl false)
      else
        let jumpOffset := (pos+jump)%2^32
        if s.jumps.head?.any fun target => target.1≤jumpOffset then pure (.inl false)
        else pure (.inr {s with
          pos, bits := s.bits-1, jumps := (jumpOffset,s.bits-1)::s.jumps, prevopcode := .JUMP})
    | some .MATCH => do
      let (pattern,pos) ← decodeMatch asmap pos
      if pattern=INVALID then pure (.inl false)
      else
        let matchlen := countBits pattern-1
        let hadIncompleteMatch := s.hadIncompleteMatch && decide (s.prevopcode=.MATCH)
        if matchlen<8 ∧ hadIncompleteMatch then pure (.inl false)
        else if s.bits < matchlen then pure (.inl false)
        else pure (.inr {s with
          pos, bits := s.bits-matchlen, hadIncompleteMatch := decide (matchlen<8)
          prevopcode := .MATCH})
    | some .DEFAULT =>
      if s.prevopcode=.DEFAULT then pure (.inl false)
      else do
        let (asn,pos) ← decodeASN asmap pos
        if asn=INVALID then pure (.inl false)
        else pure (.inr {s with pos, prevopcode := .DEFAULT})
    | none => pure (.inl false)

section
variable {as : List Bool} {si pos val v po' : Nat} {sz : List Nat}

lemma readBit_ok (h : pos<as.length) : ∃ bit, readBit as pos=.ok bit := by
  unfold readBit
  rw [getElem?_eq_getElem h]
  exact ⟨_,rfl⟩

lemma lt_of_readBit {bit : Bool} (h : readBit as pos=.ok bit) : pos<as.length := by
  by_contra hn
  rw [readBit,getElem?_eq_none (Nat.le_of_not_lt hn)] at h
  cases h

lemma decodeMantissa_pos (h : decodeMantissa as si pos val=.ok (v,po')) :
    pos≤po' ∧ (pos≤as.length → po'≤as.length) := by
  induction si generalizing pos val with
  | zero =>
    cases h
    exact ⟨le_refl _,id⟩
  | succ b ih =>
    unfold decodeMantissa at h
    by_cases he : pos=as.length
    · rw [if_pos he] at h
      cases h
      exact ⟨le_refl _,id⟩
    · rw [if_neg he,bind_eq_ok] at h
      obtain ⟨_,_,hr⟩ := h
      obtain ⟨_,he'⟩ := ih hr
      exact ⟨by omega,fun _ => he' (by omega)⟩

lemma decodeBits_pos (h : decodeBits as sz pos val=.ok (v,po')) :
    pos≤po' ∧ (pos≤as.length → po'≤as.length) := by
  induction sz generalizing pos val with
  | nil =>
    cases h
    exact ⟨le_refl _,id⟩
  | cons si sz ih =>
    cases sz with
    | nil => exact decodeMantissa_pos h
    | cons n sz =>
      unfold decodeBits at h
      by_cases he : pos=as.length
      · rw [if_pos he] at h
        cases h
        exact ⟨le_refl _,id⟩
      · rw [if_neg he,bind_eq_ok] at h
        obtain ⟨b,_,hr⟩ := h
        cases b with
        | false =>
          obtain ⟨hl,he'⟩ := decodeMantissa_pos hr
          exact ⟨by omega,fun _ => he' (by omega)⟩
        | true =>
          obtain ⟨hl,he'⟩ := ih hr
          exact ⟨by omega,fun _ => he' (by omega)⟩

lemma decodeType_pos {op : Option Instruction} (hn : pos≠as.length)
    (h : decodeType as pos=.ok (op,po')) : pos<po' ∧ po'≤as.length := by
  unfold decodeType TYPE_BIT_SIZES at h
  rw [bind_eq_ok] at h
  obtain ⟨⟨v,_⟩,hb,hp⟩ := h
  cases hp
  unfold decodeBits at hb
  rw [if_neg hn,bind_eq_ok] at hb
  obtain ⟨b,hbi,hr⟩ := hb
  have hl := lt_of_readBit hbi
  have hm : pos+1≤po' ∧ (pos+1≤as.length → po'≤as.length) := by
    cases b with
    | false => exact decodeMantissa_pos hr
    | true => exact decodeBits_pos hr
  exact ⟨by omega,hm.2 (by omega)⟩
end
section
variable {as ip : List Bool}

lemma interpretStep_pos {f f' : Frame} (h : interpretStep as ip f=.ok (.inr f')) :
    f.pos<f'.pos ∧ f'.pos≤as.length := by
  unfold interpretStep at h
  by_cases he : f.pos=as.length
  · rw [if_pos he] at h
    cases h
  rw [if_neg he,bind_eq_ok] at h
  obtain ⟨⟨o,pos⟩,ht,hr⟩ := h
  obtain ⟨hlt,hl⟩ := decodeType_pos he ht
  match o with
  | none => cases hr
  | some .RETURN =>
    simp only [bind_eq_ok,pure_eq_ok] at hr
    obtain ⟨_,_,_,_,hr⟩ := hr
    cases hr
  | some .JUMP =>
    simp only [bind_eq_ok,rejectIf_eq_ok,pure_eq_ok,Sum.inr.injEq] at hr
    obtain ⟨⟨_,p'⟩,hj,-,-,-,-,-,hrn,b,-,rfl⟩ := hr
    obtain ⟨hl',he'⟩ := decodeBits_pos hj
    have hp' := he' hl
    have hro := of_decide_eq_false hrn
    cases b with
    | false => exact ⟨by simp only [Bool.false_eq_true,if_false]; omega,by simpa using hp'⟩
    | true => exact ⟨by simp only [if_true]; omega,by simp only [if_true]; omega⟩
  | some .MATCH =>
    simp only [bind_eq_ok,rejectIf_eq_ok] at hr
    obtain ⟨⟨_,p'⟩,hm,-,-,-,-,c,-,hr⟩ := hr
    obtain ⟨hl',he'⟩ := decodeBits_pos hm
    cases c with
    | none => cases hr
    | some bt =>
      cases hr
      exact ⟨lt_of_lt_of_le hlt hl',he' hl⟩
  | some .DEFAULT =>
    simp only [bind_eq_ok,rejectIf_eq_ok,pure_eq_ok,Sum.inr.injEq] at hr
    obtain ⟨⟨_,p'⟩,ha,-,-,rfl⟩ := hr
    obtain ⟨hl',he'⟩ := decodeBits_pos ha
    exact ⟨lt_of_lt_of_le hlt hl',he' hl⟩
end

def interpretLoop (asmap ip : List Bool) : Loop Frame Nat AsMapError where
  body := interpretStep asmap ip
  measure := fun f => asmap.length-f.pos
  decreases := fun f f' h => by
    have hpos := interpretStep_pos h
    omega
def interpret (asmap ip : List Bool) : Except AsMapError Nat :=
  (interpretLoop asmap ip).run ⟨0,ip.length%2^8,0⟩

/-- What a round of the check that does not end it has found. -/
inductive Scanned (asmap : List Bool) (s : Scan) : Scan → Prop
  | returned {pos asn pos' target jumps} (htype : decodeType asmap s.pos=.ok (some .RETURN,pos))
      (hasn : decodeASN asmap pos=.ok (asn,pos')) (hvalid : asn≠INVALID)
      (hjumps : s.jumps=target::jumps) (hnext : pos'%2^32=target.1) :
      Scanned asmap s {s with pos := pos', bits := target.2, jumps, prevopcode := .JUMP}
  | jumped {pos jump pos'} (htype : decodeType asmap s.pos=.ok (some .JUMP,pos))
      (hjump : decodeJump asmap pos=.ok (jump,pos')) (hvalid : jump≠INVALID)
      (hrange : (jump : Int)≤asmap.length-pos') (hbits : s.bits≠0) :
      Scanned asmap s {s with
        pos := pos'
        bits := s.bits-1
        jumps := ((pos'+jump)%2^32,s.bits-1)::s.jumps
        prevopcode := .JUMP}
  | matched {pos pattern pos' b} (htype : decodeType asmap s.pos=.ok (some .MATCH,pos))
      (hmatch : decodeMatch asmap pos=.ok (pattern,pos')) (hvalid : pattern≠INVALID)
      (hbits : countBits pattern-1 ≤ s.bits) :
      Scanned asmap s {s with
        pos := pos', bits := s.bits-(countBits pattern-1), hadIncompleteMatch := b
        prevopcode := .MATCH}
  | defaulted {pos asn pos'} (htype : decodeType asmap s.pos=.ok (some .DEFAULT,pos))
      (hasn : decodeASN asmap pos=.ok (asn,pos')) (hvalid : asn≠INVALID) :
      Scanned asmap s {s with pos := pos', prevopcode := .DEFAULT}

variable {asmap : List Bool}

/- What a turn of the check has found, unless it rejects the program. -/
def Turned (asmap : List Bool) (s : Scan) : Bool⊕Scan → Prop
  | .inl false => True
  | .inl true => s.pos≠asmap.length ∧ s.jumps=[] ∧ ∃ pos asn pos',
    decodeType asmap s.pos=.ok (some .RETURN,pos) ∧ decodeASN asmap pos=.ok (asn,pos') ∧ asn≠INVALID
  | .inr s' => s.pos≠asmap.length ∧ Scanned asmap s s'

lemma checkStep_turned {s : Scan} {n : Bool⊕Scan} (h : checkStep asmap s=.ok n) :
    Turned asmap s n := by
  unfold checkStep at h
  by_cases he : s.pos=asmap.length
  · rw [if_pos he] at h
    cases h
    trivial
  rw [if_neg he] at h
  split at h
  · cases h
    trivial
  rw [bind_eq_ok] at h
  obtain ⟨⟨o,pos⟩,ht,hr⟩ := h
  obtain _ | (_ | _ | _ | _) := o
  · cases hr
    trivial
  · dsimp only at hr
    split at hr
    · cases hr
      trivial
    rw [bind_eq_ok] at hr
    obtain ⟨⟨a,p'⟩,ha,hr⟩ := hr
    split at hr
    · cases hr
      trivial
    rename_i hv
    split at hr
    · cases hr
      cases checkPadding asmap p' with
      | false => trivial
      | true => exact ⟨he,‹_›,pos,a,p',ht,ha,hv⟩
    rename_i t j hju
    split at hr
    · cases hr
      trivial
    rename_i hn
    cases hr
    exact ⟨he,.returned ht ha hv hju (not_not.mp hn)⟩
  · rw [bind_eq_ok] at hr
    obtain ⟨⟨ju,p'⟩,hj,hr⟩ := hr
    dsimp only at hr
    split at hr
    · cases hr
      trivial
    rename_i hv
    split at hr
    · cases hr
      trivial
    rename_i hrn
    split at hr
    · cases hr
      trivial
    rename_i hb
    split at hr
    · cases hr
      trivial
    cases hr
    exact ⟨he,.jumped ht hj hv (not_lt.mp hrn) hb⟩
  · rw [bind_eq_ok] at hr
    obtain ⟨⟨p,p'⟩,hm,hr⟩ := hr
    dsimp only at hr
    split at hr
    · cases hr
      trivial
    rename_i hv
    split at hr
    · cases hr
      trivial
    split at hr
    · cases hr
      trivial
    rename_i hb
    cases hr
    exact ⟨he,.matched ht hm hv (not_lt.mp hb)⟩
  · dsimp only at hr
    split at hr
    · cases hr
      trivial
    rw [bind_eq_ok] at hr
    obtain ⟨⟨a,p'⟩,ha,hr⟩ := hr
    split at hr
    · cases hr
      trivial
    rename_i hv
    cases hr
    exact ⟨he,.defaulted ht ha hv⟩

lemma Scanned.pos {s s' : Scan} (he : s.pos≠asmap.length)
    (h : Scanned asmap s s') : s.pos < s'.pos ∧ s'.pos≤asmap.length := by
  have hm : ∀ {o pos}, decodeType asmap s.pos=.ok (o,pos) → ∀ {se m v p'},
      decodeBits asmap se pos m=.ok (v,p') → s.pos<p' ∧ p'≤asmap.length := by
    intro o pos ht se m v p' hb
    obtain ⟨hlt,hl⟩ := decodeType_pos he ht
    obtain ⟨hl',he'⟩ := decodeBits_pos hb
    exact ⟨lt_of_lt_of_le hlt hl',he' hl⟩
  cases h with
  | returned ht ha => exact hm ht ha
  | jumped ht hj => exact hm ht hj
  | matched ht hma => exact hm ht hma
  | defaulted ht ha => exact hm ht ha

def checkLoop (asmap : List Bool) : Loop Scan Bool AsMapError where
  body := checkStep asmap
  measure := fun s => asmap.length-s.pos
  decreases := fun s s' h => by
    obtain ⟨hend,hscanned⟩ := checkStep_turned h
    have hpos := hscanned.pos hend
    omega

def sanityCheckASMap (asmap : List Bool) (bits : Nat) : Except AsMapError Bool :=
  (checkLoop asmap).run {bits}

/-- From this position the interpreter returns, for every input with that many bits left. -/
def Answers (asmap : List Bool) (pos bits : Nat) : Prop :=
  pos<asmap.length ∧ ∀ ip : List Bool, bits ≤ ip.length → ∀ defaultAsn,
    ∃ asn, (interpretLoop asmap ip).run ⟨pos,bits,defaultAsn⟩=.ok asn

section
variable {as ip : List Bool} {pos bi po1 po' : Nat}

lemma answers_return {asn : Nat} (hp : pos<as.length)
    (ht : decodeType as pos=.ok (some .RETURN,po1))
    (ha : decodeASN as po1=.ok (asn,po')) (hv : asn≠INVALID) : Answers as pos bi := by
  refine ⟨hp,fun ip _ d => ⟨asn,Loop.run_of_done ?_⟩⟩
  show interpretStep as ip _=_
  simp [interpretStep,hp.ne,ht,ha,hv,rejectIf,ok_bind,pure_ok]

lemma answers_default {asn : Nat} (hp : pos<as.length)
    (ht : decodeType as pos=.ok (some .DEFAULT,po1)) (ha : decodeASN as po1=.ok (asn,po'))
    (hv : asn≠INVALID) (hn : Answers as po' bi) : Answers as pos bi := by
  refine ⟨hp,fun ip hi d => ?_⟩
  have hs : interpretStep as ip ⟨pos,bi,d⟩=.ok (.inr ⟨po',bi,asn⟩) := by
    simp [interpretStep,hp.ne,ht,ha,hv,rejectIf,ok_bind,pure_ok]
  rw [Loop.run_of_next hs]
  exact hn.2 ip hi asn

lemma answers_jump {j : Nat} (hp : pos<as.length) (hty : decodeType as pos=.ok (some .JUMP,po1))
    (hj : decodeJump as po1=.ok (j,po')) (hv : j≠INVALID) (hb : bi≠0)
    (hn : Answers as po' (bi-1)) (ht : Answers as (po'+j) (bi-1)) :
    Answers as pos bi := by
  refine ⟨hp,fun ip hi d => ?_⟩
  obtain ⟨b,hbi⟩ := readBit_ok (show ip.length-bi < ip.length by omega)
  have hr : ¬(as.length : Int)-po'≤j := by
    have := ht.1
    omega
  have hs : interpretStep as ip ⟨pos,bi,d⟩= .ok (.inr ⟨if b then po'+j else po',bi-1,d⟩) := by
    simp [interpretStep,hp.ne,hty,hj,hv,hb,hr,hbi,rejectIf,bind,Except.bind,pure,Except.pure]
  rw [Loop.run_of_next hs]
  cases b with
  | false => exact hn.2 ip (by omega) d
  | true => exact ht.2 ip (by omega) d

lemma compareBits_ok (p : Nat) {l bit : Nat} (hl : l≤bit) (hi : bit ≤ ip.length) :
    compareBits ip p l bit=.ok none ∨
      compareBits ip p l bit=.ok (some (bit-l)) := by
  induction l generalizing bit with
  | zero => exact .inr rfl
  | succ l ih =>
    obtain ⟨b,hb⟩ := readBit_ok (show ip.length-bit < ip.length by omega)
    unfold compareBits
    rw [hb]
    by_cases hd : b≠p.testBit l
    · exact .inl (if_pos hd)
    · have hr := @ih (bit-1) (by omega) (by omega)
      rw [show bit-1-l=bit-(l+1) by omega] at hr
      show (if b≠p.testBit l then _ else _)=_ ∨ (if b≠p.testBit l then _ else _)=_
      rw [if_neg hd]
      exact hr

lemma answers_match {p : Nat} (hp : pos<as.length) (ht : decodeType as pos=.ok (some .MATCH,po1))
    (hm : decodeMatch as po1=.ok (p,po')) (hv : p≠INVALID)
    (hb : countBits p-1≤bi) (hn : Answers as po' (bi-(countBits p-1))) :
    Answers as pos bi := by
  refine ⟨hp,fun ip hi d => ?_⟩
  obtain hc | hc := compareBits_ok p hb hi
  · refine ⟨d,Loop.run_of_done ?_⟩
    show interpretStep as ip _=_
    simp [interpretStep,hp.ne,ht,hm,hv,hb.not_gt,hc,rejectIf,ok_bind,pure_ok]
  · have hs : interpretStep as ip ⟨pos,bi,d⟩= .ok (.inr ⟨po',bi-(countBits p-1),d⟩) := by
      simp [interpretStep,hp.ne,ht,hm,hv,hb.not_gt,hc,rejectIf,ok_bind,pure_ok]
    rw [Loop.run_of_next hs]
    exact hn.2 ip (by omega) d
end

/-- What the check has found of a state it accepts: the interpreter returns from there and from
every jump target to come. -/
def Vetted (asmap : List Bool) (s : Scan) : Prop :=
  Answers asmap s.pos s.bits ∧ ∀ target∈s.jumps, Answers asmap target.1 target.2

lemma Scanned.vetted {s s' : Scan} (hl : asmap.length<2^32)
    (hp : s.pos<asmap.length) (h : Scanned asmap s s') (hs' : Vetted asmap s') :
    Vetted asmap s := by
  obtain ⟨ha,hta⟩ := hs'
  have hs := h.pos hp.ne
  cases h with
  | returned ht han hv hju hn =>
    refine ⟨answers_return hp ht han hv,?_⟩
    rw [hju]
    refine forall_mem_cons.mpr ⟨?_,hta⟩
    rw [← hn,Nat.mod_eq_of_lt (lt_of_le_of_lt hs.2 hl)]
    exact ha
  | @jumped pos j p' ht hj hv hr hb =>
    have htg := hta _ mem_cons_self
    have ho : p'+j<2^32 := by omega
    rw [Nat.mod_eq_of_lt ho] at htg
    exact ⟨answers_jump hp ht hj hv hb ha htg,fun t hm => hta t (mem_cons_of_mem _ hm)⟩
  | matched ht hma hv hb =>
    exact ⟨answers_match hp ht hma hv hb ha,hta⟩
  | defaulted ht han hv =>
    exact ⟨answers_default hp ht han hv ha,hta⟩

/-- A program that passes the check has an answer for every address: no assertion fails, no bit is
read outside the program or the address, and the interpreter ends. -/
theorem interpret_of_sanityCheck (asmap ip : List Bool) (hlength : asmap.length<2^32)
    (hip : ip.length≤128) (hcheck : sanityCheckASMap asmap ip.length=.ok true) :
    ∃ asn, interpret asmap ip=.ok asn := by
  have hv : (0 : Nat)≤asmap.length → Vetted asmap {bits := ip.length} := by
    refine Loop.run_backward (P := fun s => s.pos≤asmap.length → Vetted asmap s)
      (fun s hd hp => ?_) (fun s s' hn hs' hp => ?_) hcheck
    · obtain ⟨he,hj,pos,asn,_,ht,ha,hva⟩ := checkStep_turned hd
      refine ⟨answers_return (lt_of_le_of_ne hp he) ht ha hva,fun t hm => ?_⟩
      rw [hj] at hm
      cases hm
    · obtain ⟨he,hs⟩ := checkStep_turned hn
      exact hs.vetted hlength (lt_of_le_of_ne hp he) (hs' (hs.pos he).2)
  obtain ⟨asn,ha⟩ := (hv (Nat.zero_le _)).1.2 ip (le_refl _) 0
  refine ⟨asn,?_⟩
  rw [interpret,Nat.mod_eq_of_lt (show ip.length<2^8 by omega)]
  exact ha

def twoReturns : List Bool :=
  [true,false,false,false,false,false,false,false]++replicate 17 false++
    replicate 16 false++[true]

theorem interpret_of_sanityCheck_twoReturns : sanityCheckASMap twoReturns 1=.ok true ∧
    ∃ asn, interpret twoReturns [true]=.ok asn :=
  ⟨by decide +kernel,interpret_of_sanityCheck twoReturns [true] (by decide) (by decide)
    (by decide +kernel)⟩
end Xero.AsMap
