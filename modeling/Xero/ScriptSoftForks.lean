import Xero.Interpreter
import Xero.Library.Strictness

/-! Script flags are soft forks. With more flags every part of the interpreter is stricter: every
opcode, then a whole script, then VerifyScript. -/
namespace Xero
open Library Except Bool
namespace ScriptFlags
def SubsetOf (F G : ScriptFlags) : Prop := F.bits &&& G.bits=F.bits

/-- The combinations VerifyScript asserts: CLEANSTACK needs P2SH and WITNESS, WITNESS needs P2SH. -/
def Valid (flags : ScriptFlags) : Prop :=
  (flags.has .cleanStack → flags.has .p2sh ∧ flags.has .witness) ∧
  (flags.has .witness → flags.has .p2sh)

instance (F G : ScriptFlags) : Decidable (F.SubsetOf G) :=
  inferInstanceAs (Decidable (F.bits &&& G.bits=F.bits))

instance (flags : ScriptFlags) : Decidable flags.Valid := inferInstanceAs (Decidable (_ ∧ _))

lemma SubsetOf.has {F G : ScriptFlags} (h : F.SubsetOf G) {f : ScriptFlag}
    (hF : F.has f) : G.has f := by
  have hb : (F.bits &&& G.bits).testBit f.bit := by
    rw [h]
    exact hF
  rw [Nat.testBit_and,and_eq_true] at hb
  exact hb.2

lemma SubsetOf.has_and {F G : ScriptFlags} (h : F.SubsetOf G) {f : ScriptFlag} {b : Bool}
    (hF : (F.has f && b)) : (G.has f && b) := by
  rw [and_eq_true] at hF ⊢
  exact ⟨h.has hF.1,hF.2⟩
end ScriptFlags

lemma stricter_setErrorIf {b c : Bool} {e : ScriptError} (h : c → b) :
    Stricter (setErrorIf b e) (setErrorIf c e) := .rejectIf h

variable {F G : ScriptFlags} {crypto : ScriptCrypto} {checker : SignatureChecker} {ver : SigVersion}
section
lemma scriptNum_stricter (hsb : F.SubsetOf G) (maxSize : Nat) (vch : Bytes) :
    Stricter (scriptNum (G.has .minimalData) maxSize vch)
      (scriptNum (F.has .minimalData) maxSize vch) := by
  refine .bind_left _ fun _ => .bind_right ?_ _
  exact stricter_setErrorIf hsb.has_and

lemma checkSignatureEncoding_stricter (hsb : F.SubsetOf G) (sig : Bytes) :
    Stricter (checkSignatureEncoding crypto G sig) (checkSignatureEncoding crypto F sig) := by
  refine .ite (.refl _) ?_
  refine .bind (stricter_setErrorIf ?_) fun _ => .bind ?_ fun _ => stricter_setErrorIf hsb.has_and
  · simp only [and_eq_true,or_eq_true]
    rintro ⟨hf,hi⟩
    refine ⟨?_,hi⟩
    obtain (hd | hl) | hs := hf
    · exact .inl (.inl (hsb.has hd))
    · exact .inl (.inr (hsb.has hl))
    · exact .inr (hsb.has hs)
  · refine .gate hsb.has (.refl _) ?_
    intro u _
    rfl

lemma checkPubKeyEncoding_stricter (hsb : F.SubsetOf G) (pubkey : Bytes) :
    Stricter (checkPubKeyEncoding G ver pubkey) (checkPubKeyEncoding F ver pubkey) := by
  refine .bind (stricter_setErrorIf hsb.has_and) fun _ => stricter_setErrorIf ?_
  rw [Bool.and_assoc,Bool.and_assoc]
  exact hsb.has_and
end
section
section
variable (hsu : F.SubsetOf G)
include hsu

lemma dropSignature_stricter (scriptCode sig : Bytes) :
    Stricter (dropSignature G ver scriptCode sig) (dropSignature F ver scriptCode sig) := by
  refine .ite (.bind_right (stricter_setErrorIf ?_) _) (.refl _)
  rw [Bool.and_comm,Bool.and_comm (decide _)]
  exact hsu.has_and

lemma dropSignatures_stricter (scriptCode : Bytes) (s : List Bytes) :
    Stricter (dropSignatures G ver scriptCode s) (dropSignatures F ver scriptCode s) := by
  induction s generalizing scriptCode with
  | nil => exact .refl _
  | cons v s ih =>
    exact (dropSignature_stricter hsu scriptCode v).bind fun c => ih c

lemma evalChecksigPreTapscript_stricter (sig pubkey codehash : Bytes) :
    Stricter (evalChecksigPreTapscript crypto checker G ver sig pubkey codehash)
      (evalChecksigPreTapscript crypto checker F ver sig pubkey codehash) := by
  refine (dropSignature_stricter hsu _ _).bind fun s => ?_
  refine (checkSignatureEncoding_stricter hsu _).bind fun _ => ?_
  refine (checkPubKeyEncoding_stricter hsu _).bind fun _ => ?_
  refine .bind_right (stricter_setErrorIf ?_) _
  simp only [and_eq_true]
  rintro ⟨⟨hf,hfl⟩,hs⟩
  exact ⟨⟨hf,hsu.has hfl⟩,hs⟩

lemma evalChecksigTapscript_stricter (sig p : Bytes) (execdata : ScriptExecutionData) :
    Stricter (evalChecksigTapscript checker G ver sig p execdata)
      (evalChecksigTapscript checker F ver sig p execdata) := by
  refine .bind_left _ fun execdata => .ite (.refl _) ?_
  refine .ite (.refl _) (.bind_right (stricter_setErrorIf hsu.has) _)

lemma evalChecksig_stricter (sig p codehash : Bytes) (execdata : ScriptExecutionData) :
    Stricter (evalChecksig crypto checker G ver sig p codehash execdata)
      (evalChecksig crypto checker F ver sig p codehash execdata) := by
  cases ver with
  | base => exact .bind_right (evalChecksigPreTapscript_stricter hsu _ _ _) _
  | witnessV0 => exact .bind_right (evalChecksigPreTapscript_stricter hsu _ _ _) _
  | taproot => exact .refl _
  | tapscript => exact evalChecksigTapscript_stricter hsu _ _ _

lemma matchSignatures_stricter (scriptCode : Bytes) (s k : List Bytes) :
    Stricter (matchSignatures crypto checker G ver scriptCode s k)
      (matchSignatures crypto checker F ver scriptCode s k) := by
  induction k generalizing s with
  | nil =>
    cases s <;> exact .refl _
  | cons v k ih =>
    cases s with
    | nil => exact .refl _
    | cons vc s =>
      refine (checkSignatureEncoding_stricter hsu _).bind fun _ => ?_
      refine (checkPubKeyEncoding_stricter hsu _).bind fun _ => ?_
      exact .ite (.refl _) (ih _)

lemma cleanArguments_stricter (fs : Bool) (n i2 : Nat) (stack : List Bytes) :
    Stricter (cleanArguments G fs n i2 stack) (cleanArguments F fs n i2 stack) := by
  induction n generalizing i2 stack with
  | zero => exact .refl _
  | succ n ih =>
    cases stack with
    | nil => exact .refl _
    | cons t stack =>
      refine .bind (stricter_setErrorIf ?_) fun _ => ih _ _
      simp only [and_eq_true]
      rintro ⟨⟨⟨hf,hfl⟩,hk⟩,ht⟩
      exact ⟨⟨⟨hf,hsu.has hfl⟩,hk⟩,ht⟩
end
end
section
/- A gated opcode only checks: with the flag off it is a NOP. -/
lemma checkLockTimeVerify_state {flags : ScriptFlags} {st st' : EvalState}
    (h : execCheckLockTimeVerify checker flags st=.ok st') : st'=st := by
  unfold execCheckLockTimeVerify at h
  split at h
  · split at h
    · cases h
    · simp only [setErrorIf,bind_eq_ok,pure_eq_ok] at h
      obtain ⟨_,_,_,_,_,_,he⟩ := h
      exact he.symm
  · exact (ok.inj h).symm

lemma checkSequenceVerify_state {flags : ScriptFlags} {st st' : EvalState}
    (h : execCheckSequenceVerify checker flags st=.ok st') : st'=st := by
  unfold execCheckSequenceVerify at h
  split at h
  · split at h
    · cases h
    · simp only [setErrorIf,bind_eq_ok] at h
      obtain ⟨_,_,_,_,hr⟩ := h
      split at hr
      · exact (ok.inj hr).symm
      · simp only [bind_eq_ok,pure_eq_ok] at hr
        obtain ⟨_,_,he⟩ := hr
        exact he.symm
  · exact (ok.inj h).symm

section
variable (hs : F.SubsetOf G)
include hs

lemma execCheckLockTimeVerify_stricter (st : EvalState) :
    Stricter (execCheckLockTimeVerify checker G st) (execCheckLockTimeVerify checker F st) := by
  cases hF : F.has .checkLockTimeVerify with
  | false =>
    intro _ hst'
    rw [checkLockTimeVerify_state hst',execCheckLockTimeVerify,hF]
    rfl
  | true =>
    unfold execCheckLockTimeVerify
    rw [if_pos hF,if_pos (hs.has hF)]
    cases st.stack with
    | nil => exact .refl _
    | cons t s => exact .bind_right (scriptNum_stricter hs _ _) _

lemma execCheckSequenceVerify_stricter (st : EvalState) :
    Stricter (execCheckSequenceVerify checker G st) (execCheckSequenceVerify checker F st) := by
  cases hF : F.has .checkSequenceVerify with
  | false =>
    intro _ hst'
    rw [checkSequenceVerify_state hst',execCheckSequenceVerify,hF]
    rfl
  | true =>
    unfold execCheckSequenceVerify
    rw [if_pos hF,if_pos (hs.has hF)]
    cases st.stack with
    | nil => exact .refl _
    | cons t s => exact .bind_right (scriptNum_stricter hs _ _) _

lemma execIf_stricter (ni : Bool) (st : EvalState) :
    Stricter (execIf G ver ni st) (execIf F ver ni st) := by
  refine .bind_right (.ite ?_ (.refl _)) _
  unfold popCondition
  cases st.stack with
  | nil => exact .refl _
  | cons v s =>
    refine .bind_left _ fun _ => .bind_right (stricter_setErrorIf ?_) _
    simp only [and_eq_true]
    rintro ⟨⟨hv0,hf⟩,hm⟩
    exact ⟨⟨hv0,hs.has hf⟩,hm⟩

lemma execPick_stricter (r : Bool) (st : EvalState) :
    Stricter (execPick G r st) (execPick F r st) := by
  unfold execPick
  split
  · exact .bind_right (scriptNum_stricter hs _ _) _
  · exact .refl _

lemma execUnary_stricter (op : UnaryOp) (st : EvalState) :
    Stricter (execUnary G op st) (execUnary F op st) := by
  unfold execUnary
  split
  · exact .bind_right (scriptNum_stricter hs _ _) _
  · exact .refl _

lemma execBinary_stricter (op : BinaryOp) (st : EvalState) :
    Stricter (execBinary G op st) (execBinary F op st) := by
  unfold execBinary
  split
  · refine (scriptNum_stricter hs _ _).bind fun b1 => ?_
    exact .bind_right (scriptNum_stricter hs _ _) _
  · exact .refl _

lemma execWithin_stricter (st : EvalState) : Stricter (execWithin G st) (execWithin F st) := by
  unfold execWithin
  split
  · refine (scriptNum_stricter hs _ _).bind fun b1 => ?_
    refine (scriptNum_stricter hs _ _).bind fun b2 => ?_
    exact .bind_right (scriptNum_stricter hs _ _) _
  · exact .refl _

lemma execCheckSig_stricter (verify : Bool) (st : EvalState) :
    Stricter (execCheckSig crypto checker G ver verify st)
      (execCheckSig crypto checker F ver verify st) := by
  unfold execCheckSig
  split
  · exact .bind_right (evalChecksig_stricter hs _ _ _ _) _
  · exact .refl _

lemma execCheckSigAdd_stricter (st : EvalState) : Stricter (execCheckSigAdd crypto checker G ver st)
      (execCheckSigAdd crypto checker F ver st) := by
  refine .ite (.refl _) ?_
  split
  · refine (scriptNum_stricter hs _ _).bind fun n => ?_
    exact .bind_right (evalChecksig_stricter hs _ _ _ _) _
  · exact .refl _

lemma readCount_stricter (stack : List Bytes) (i max : Nat) (s : ScriptError) :
    Stricter (readCount G stack i max s) (readCount F stack i max s) := by
  unfold readCount
  split
  · exact .refl _
  · exact .bind_right (scriptNum_stricter hs _ _) _

lemma popDummy_stricter (stack : List Bytes) : Stricter (popDummy G stack) (popDummy F stack) := by
  unfold popDummy
  split
  · exact .refl _
  · exact .bind_right (stricter_setErrorIf hs.has_and) _

lemma execCheckMultisig_stricter (verify : Bool) (st : EvalState) :
    Stricter (execCheckMultisig crypto checker G ver verify st)
      (execCheckMultisig crypto checker F ver verify st) := by
  refine .bind_left _ fun _ => ?_
  refine (readCount_stricter hs _ _ _ _).bind fun n => ?_
  refine .bind_left _ fun _ => ?_
  refine (readCount_stricter hs _ _ _ _).bind fun ns => ?_
  refine .bind_left _ fun _ => ?_
  refine (dropSignatures_stricter hs _ _).bind fun s => ?_
  refine (matchSignatures_stricter hs _ _ _).bind fun f => ?_
  refine (cleanArguments_stricter hs _ _ _ _).bind fun sa => ?_
  exact .bind_right (popDummy_stricter hs _) _

lemma execOp_stricter (op : Op) (pc : Bytes) (st : EvalState) :
    Stricter (execOp crypto checker G ver op pc st) (execOp crypto checker F ver op pc st) := by
  cases op with
  | checkLockTimeVerify => exact execCheckLockTimeVerify_stricter hs st
  | checkSequenceVerify => exact execCheckSequenceVerify_stricter hs st
  | upgradableNop => exact .bind_right (stricter_setErrorIf hs.has) _
  | opIf n => exact execIf_stricter hs n st
  | pick r => exact execPick_stricter hs r st
  | unary op => exact execUnary_stricter hs op st
  | binary op => exact execBinary_stricter hs op st
  | within => exact execWithin_stricter hs st
  | checkSig v => exact execCheckSig_stricter hs v st
  | checkSigAdd => exact execCheckSigAdd_stricter hs st
  | checkMultisig v => exact execCheckMultisig_stricter hs v st
  -- The remaining opcodes do not read the flags.
  | _ => exact .refl _
end
end
section
section
variable (hs : F.SubsetOf G)
include hs

lemma evalStep_stricter (opcode : Nat) (vch pc : Bytes) (st : EvalState) :
    Stricter (evalStep crypto checker G ver opcode vch pc st)
      (evalStep crypto checker F ver opcode vch pc st) := by
  refine .bind_left _ fun _ => .bind_left _ fun st => .bind_left _ fun _ => ?_
  refine .bind (stricter_setErrorIf ?_) fun _ => .bind_right ?_ _
  · rw [Bool.and_comm,Bool.and_comm (_ && _)]
    exact hs.has_and
  · refine .ite ?_ (.ite (execOp_stricter hs _ _ _) (.refl _))
    exact .bind_right (stricter_setErrorIf hs.has_and) _

/- The run over a script: the induction is on its length, one instruction at a time. -/
lemma evalLoop_stricter (pc : Bytes) (st : EvalState) :
    Stricter (evalLoop crypto checker G ver pc st) (evalLoop crypto checker F ver pc st) := by
  induction hn : pc.length using Nat.strong_induction_on generalizing pc st with
  | _ n ih =>
    rw [evalLoop,evalLoop]
    refine .ite (.refl _) ?_
    split
    · exact .refl _
    · rename_i o v r ho
      have hl := getScriptOp_length ho
      refine (evalStep_stricter hs _ _ _ _).bind fun st => ?_
      exact ih r.length (by omega) r st rfl

lemma evalScript_stricter (stack : List Bytes) (script : Bytes) (execdata : ScriptExecutionData) :
    Stricter (evalScript crypto checker G stack script ver execdata)
      (evalScript crypto checker F stack script ver execdata) := by
  refine .bind_left _ fun _ => .bind_left _ fun _ => .bind_right ?_ _
  exact evalLoop_stricter hs _ _

lemma findOpSuccess_stricter (pc : Bytes) : Stricter (findOpSuccess G pc) (findOpSuccess F pc) := by
  induction hn : pc.length using Nat.strong_induction_on generalizing pc with
  | _ n ih =>
    rw [findOpSuccess,findOpSuccess]
    refine .ite (.refl _) ?_
    split
    · exact .refl _
    · rename_i o v r ho
      have hl := getScriptOp_length ho
      exact .ite (.bind_right (stricter_setErrorIf hs.has) _) (ih r.length (by omega) r rfl)

lemma runWitnessScript_stricter (stack : List Bytes) (e : Bytes) (execdata : ScriptExecutionData) :
    Stricter (runWitnessScript crypto checker G stack e ver execdata)
      (runWitnessScript crypto checker F stack e ver execdata) := by
  refine .bind_left _ fun _ => .bind_right ?_ _
  exact evalScript_stricter hs _ _ _

lemma executeWitnessScript_stricter (stack : List Bytes) (e : Bytes)
    (execdata : ScriptExecutionData) :
    Stricter (executeWitnessScript crypto checker G stack e ver execdata)
      (executeWitnessScript crypto checker F stack e ver execdata) := by
  refine .ite ((findOpSuccess_stricter hs _).bind fun s => ?_) (runWitnessScript_stricter hs _ _ _)
  exact .ite (.refl _) (.bind_left _ fun _ => runWitnessScript_stricter hs _ _ _)
end
end
section
lemma verifyTapLeaf_stricter (hsb : F.SubsetOf G) (witness stack : List Bytes)
    (control script p : Bytes) (execdata : ScriptExecutionData) :
    Stricter (verifyTapLeaf crypto checker G witness stack control script p execdata)
      (verifyTapLeaf crypto checker F witness stack control script p execdata) := by
  refine .bind_left _ fun _ => .bind_left _ fun committed => .bind_left _ fun _ => ?_
  exact .ite (executeWitnessScript_stricter hsb _ _ _) (stricter_setErrorIf hsb.has)

lemma verifyTaproot_stricter (hsb : F.SubsetOf G) (witness : List Bytes) (p : Bytes) :
    Stricter (verifyTaproot crypto checker G witness p)
      (verifyTaproot crypto checker F witness p) := by
  refine .gate hsb.has ?_ fun _ _ => rfl
  refine .bind_left _ fun _ => ?_
  dsimp only
  split
  · exact .refl _
  · exact .refl _
  · exact verifyTapLeaf_stricter hsb _ _ _ _ _ _

lemma verifyWitnessProgram_stricter (hsb : F.SubsetOf G) (witness : List Bytes)
    (w : Nat) (p : Bytes)
    (ip2 : Bool) :
    Stricter (verifyWitnessProgram crypto checker G witness w p ip2)
      (verifyWitnessProgram crypto checker F witness w p ip2) := by
  refine .ite ?_ (.ite (verifyTaproot_stricter hsb _ _) (stricter_setErrorIf hsb.has))
  refine .ite ?_ (.ite (.bind_left _ fun _ => ?_) (.refl _))
  · split
    · exact .refl _
    · exact .bind_left _ fun _ => executeWitnessScript_stricter hsb _ _ _
  · exact executeWitnessScript_stricter hsb _ _ _

lemma verifyWitness_stricter (hsb : F.SubsetOf G) (witness : List Bytes) (script : Bytes)
    (m : Bool) (s : ScriptError) (ip2 : Bool) (stack : List Bytes) :
    Stricter (verifyWitness crypto checker G witness script m s ip2 stack)
      (verifyWitness crypto checker F witness script m s ip2 stack) := by
  unfold verifyWitness
  split
  · exact .refl _
  · refine .bind_left _ fun _ => .bind_right ?_ _
    exact verifyWitnessProgram_stricter hsb _ _ _ _
end
section
lemma verifyP2SH_stricter (hsb : F.SubsetOf G) (hw : F.has .witness) (sig : Bytes)
    (witness : List Bytes) (ha : Bool) (copied : List Bytes) :
    Stricter (verifyP2SH crypto checker G sig witness ha copied)
      (verifyP2SH crypto checker F sig witness ha copied) := by
  refine .bind_left _ fun _ => ?_
  cases copied with
  | nil => exact .refl _
  | cons p2 s =>
    refine (evalScript_stricter hsb _ _ _).bind fun s => ?_
    refine .bind_left _ fun _ => ?_
    rw [if_pos hw,if_pos (hsb.has hw)]
    exact .bind_right (verifyWitness_stricter hsb _ _ _ _ _ _) _

/- Without WITNESS the redeem script is all there is to check. -/
lemma verifyP2SH_without_witness (hsb : F.SubsetOf G) (hw : F.has .witness=false)
    {sig : Bytes} {witness copied : List Bytes} {ha : Bool} {r : Bool×List Bytes}
    (ho : verifyP2SH crypto checker G sig witness ha copied=.ok r) (had : Bool) :
    ∃ stack, verifyP2SH crypto checker F sig witness had copied=.ok (had,stack) := by
  cases copied with
  | nil =>
    simp only [verifyP2SH,bind_eq_ok] at ho
    obtain ⟨_,_,hn⟩ := ho
    cases hn
  | cons p2 re =>
    simp only [verifyP2SH,bind_eq_ok] at ho
    obtain ⟨_,hp,stack,he,_,ht,_⟩ := ho
    refine ⟨stack,?_⟩
    simp only [verifyP2SH,bind_eq_ok]
    refine ⟨(),hp,stack,evalScript_stricter hsb _ _ _ _ he,(),ht,?_⟩
    rw [hw]
    rfl

lemma finalChecks_stricter (hsb : F.SubsetOf G) (hv : F.Valid) (witness : List Bytes)
    (ha : Bool) (stack : List Bytes) :
    Stricter (finalChecks G witness ha stack) (finalChecks F witness ha stack) := by
  refine .bind ?_ fun _ => ?_
  · cases hc : F.has .cleanStack with
    | false => exact fun _ _ => rfl
    | true =>
      obtain ⟨hp2sh,hw⟩ := hv.1 hc
      rw [if_pos (hsb.has hc),hp2sh,hw,hsb.has hp2sh,hsb.has hw]
      exact .refl _
  · cases hw : F.has .witness with
    | false => exact fun _ _ => rfl
    | true =>
      have hp2sh := hv.2 hw
      rw [if_pos (hsb.has hw),hp2sh,hsb.has hp2sh]
      exact .refl _

/- Without WITNESS, and so without CLEANSTACK, nothing is left to check at the end. -/
lemma finalChecks_without_witness (hv : F.Valid) (hw : F.has .witness=false)
    (witness : List Bytes) (ha : Bool) (stack : List Bytes) :
    finalChecks F witness ha stack=.ok () := by
  have hc : F.has .cleanStack=false := by
    cases h : F.has .cleanStack with
    | false => rfl
    | true => exact absurd (hv.1 h).2 (by rw [hw]; exact false_ne_true)
  unfold finalChecks
  rw [hc,hw]
  rfl

lemma verifyScript_with_witness (hsb : F.SubsetOf G) (hv : F.Valid)
    (hw : F.has .witness) (sig scriptPubKey : Bytes) (witness : List Bytes) :
    Stricter (verifyScript crypto checker G sig scriptPubKey witness)
      (verifyScript crypto checker F sig scriptPubKey witness) := by
  have hp2sh := hv.2 hw
  refine .bind (stricter_setErrorIf hsb.has_and) fun _ => ?_
  refine (evalScript_stricter hsb _ _ _).bind fun s => ?_
  refine (evalScript_stricter hsb _ _ _).bind fun st => ?_
  refine .bind_left _ fun _ => ?_
  rw [if_pos hw,if_pos (hsb.has hw),hp2sh,hsb.has hp2sh]
  refine (verifyWitness_stricter hsb _ _ _ _ _ _).bind fun r => ?_
  refine .bind ?_ fun r' => finalChecks_stricter hsb hv _ _ _
  exact .ite (verifyP2SH_stricter hsb hw _ _ _ _) (.refl _)

lemma verifyScript_without_witness (hsb : F.SubsetOf G) (hv : F.Valid) (hw : F.has .witness=false)
    {sig scriptPubKey : Bytes} {witness : List Bytes}
    (ho : verifyScript crypto checker G sig scriptPubKey witness=.ok ()) :
    verifyScript crypto checker F sig scriptPubKey witness=.ok () := by
  simp only [verifyScript,bind_eq_ok] at ho
  obtain ⟨_,hp,s,hs,st,hpu,_,ht,r,_,_,hp2sh,_⟩ := ho
  have hse : ∃ r, (if (F.has .p2sh && isPayToScriptHash scriptPubKey) then
      verifyP2SH crypto checker F sig witness false s else pure (false,st))=.ok r := by
    cases hF : F.has .p2sh && isPayToScriptHash scriptPubKey with
    | false => exact ⟨_,rfl⟩
    | true =>
      rw [if_pos (hsb.has_and hF)] at hp2sh
      obtain ⟨_,hst'⟩ := verifyP2SH_without_witness hsb hw hp2sh false
      exact ⟨_,hst'⟩
  obtain ⟨l,hl⟩ := hse
  simp only [verifyScript,bind_eq_ok]
  refine ⟨(),stricter_setErrorIf hsb.has_and _ hp,s,evalScript_stricter hsb _ _ _ _ hs,st,
    evalScript_stricter hsb _ _ _ _ hpu,(),ht,(false,st),?_,l,hl,
    finalChecks_without_witness hv hw _ _ _⟩
  rw [hw]
  rfl

variable (crypto checker) in
/-- Script flags are soft forks: what passes under more flags passes under fewer. -/
theorem verifyScript_softFork (hsub : F.SubsetOf G) (hvalid : F.Valid)
    (scriptSig scriptPubKey : Bytes) (witness : List Bytes)
    (hok : verifyScript crypto checker G scriptSig scriptPubKey witness=.ok ()) :
    verifyScript crypto checker F scriptSig scriptPubKey witness=.ok () := by
  cases hw : F.has .witness with
  | true => exact verifyScript_with_witness hsub hvalid hw _ _ _ _ hok
  | false => exact verifyScript_without_witness hsub hvalid hw hok

def plainCrypto : ScriptCrypto where
  ripemd160 := id
  sha1 := id
  sha256 := id
  checkLowS _ := true
  taggedSHA256 _ bytes := bytes
  checkTapTweak _ _ _ _ := true

def acceptingChecker : SignatureChecker where
  checkECDSASignature _ _ _ _ := true
  checkSchnorrSignature _ _ _ execdata := .ok execdata
  checkLockTime _ := true
  checkSequence _ := true

theorem verifyScript_softFork_sum :
    verifyScript plainCrypto acceptingChecker ⟨1⟩ [0x51] [0x51,0x93,0x52,0x87] []=.ok () :=
  verifyScript_softFork plainCrypto acceptingChecker (G := ⟨2^21-1⟩) (by decide) (by decide) _ _ _
    (by decide +kernel)
end
end Xero
