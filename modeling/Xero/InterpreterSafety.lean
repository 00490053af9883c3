import Xero.InterpreterEffects
import Xero.InterpreterRefines
import Xero.ScriptSoftForks
import Xero.TxSignatureChecker

/-! VerifyScript never crashes: no assert in it fails, no read of a stack is out of range, and it
returns true exactly when it reports no error. -/
namespace Xero
open Library Reporting List ScriptFailure Nat

def NoAssert (failure : ScriptFailure) : Prop := failure≠.asserts

lemma noAssert_fails (s : ScriptError) : NoAssert (.fails s) := nofun

/-- The function does not run into an assert. -/
abbrev NeverAsserts {α : Type} (r : ScriptResult α) : Prop := Ensures NoAssert (fun _ => True) r

variable {sigversion : SigVersion} {d : ScriptExecutionData}

lemma Evaluable.after {d' : ScriptExecutionData} {p : Nat}
    (h : Evaluable sigversion d) (he : DataEffect p d d') : Evaluable sigversion d' :=
  ⟨h.1,fun ht => (h.2 ht).after he⟩

/-- A checker that answers without an assert, in a tapscript and for the key of an output. -/
structure SignatureChecker.Safe (checker : SignatureChecker) : Prop where
  tapscript : checker.Proper NoAssert True
  taproot : ∀ sig program d, program.length=32 → d.annexHash.isSome →
    NeverAsserts (checker.checkSchnorrSignature sig program .taproot d)

section
variable {cr : ScriptCrypto} {chk : SignatureChecker} {fl : ScriptFlags}

lemma evalLoop_noAssert (hsafe : chk.Safe) (sigversion : SigVersion) (pc : Bytes) (st : EvalState)
    (hr : Evaluable sigversion st.execdata) :
    NeverAsserts (evalLoop cr chk fl sigversion pc st) := by
  induction pc using script_induction generalizing st with
  | nil =>
    rw [evalLoop_nil]
    trivial
  | undecodable pc hp ho =>
    rw [evalLoop_none cr _ fl hp ho]
    exact noAssert_fails _
  | instruction pc o da r ho ih =>
    rw [evalLoop_some cr _ fl ho]
    refine (evalStep_effect noAssert_fails hsafe.tapscript o da r st (.inr hr)).bind fun s' he => ?_
    exact ih s' (hr.after (he.execdata trivial))

lemma evalScript_noAssert (hsafe : chk.Safe) (s : List Bytes) (script : Bytes)
    (hnot : sigversion≠.taproot)
    (hdata : sigversion=.tapscript → {d with codeseparatorPos := some 0xFFFFFFFF}.Set) :
    NeverAsserts (evalScript cr chk fl s script sigversion d) := by
  have hv : NeverAsserts (rejectIf (sigversion == .taproot) asserts) :=
    (Ensures.rejectIf fun h => absurd (beq_iff_eq.mp h) hnot).mono fun _ _ => trivial
  refine hv.bind fun _ _ => setErrorIf_bind noAssert_fails fun _ => ?_
  refine (evalLoop_noAssert hsafe sigversion script _ ⟨hnot,hdata⟩).bind fun st _ => ?_
  exact setErrorIf_bind noAssert_fails fun _ => trivial

lemma evalScript_base_noAssert (hsafe : chk.Safe) (s : List Bytes) (script : Bytes) :
    NeverAsserts (evalScript cr chk fl s script .base {}) :=
  evalScript_noAssert hsafe s script nofun nofun

lemma findOpSuccess_noAssert (pc : Bytes) : NeverAsserts (findOpSuccess fl pc) := by
  induction pc using script_induction with
  | nil =>
    rw [findOpSuccess_nil]
    trivial
  | undecodable pc hp ho =>
    rw [findOpSuccess_none fl hp ho]
    exact noAssert_fails _
  | instruction pc o da r ho ih =>
    rw [findOpSuccess_some fl ho]
    refine .ite (fun _ => ?_) fun _ => ih
    exact setErrorIf_bind noAssert_fails fun _ => trivial

lemma requireTrueTop_noAssert (s : List Bytes) : NeverAsserts (requireTrueTop s) := by
  cases s with
  | nil => exact noAssert_fails _
  | cons t s => exact (setErrorIf_ensures noAssert_fails _ _).mono fun _ _ => trivial

section
variable (hsafe : chk.Safe) (stk : List Bytes) (execScript : Bytes) (hnot : sigversion≠.taproot)
    (hdata : sigversion=.tapscript → {d with codeseparatorPos := some 0xFFFFFFFF}.Set)
include hsafe stk execScript hnot hdata

lemma runWitnessScript_noAssert : NeverAsserts
      (runWitnessScript cr chk fl stk execScript sigversion d) := by
  refine setErrorIf_bind noAssert_fails fun _ => ?_
  refine (evalScript_noAssert hsafe stk execScript hnot hdata).bind fun stk _ => ?_
  exact setErrorIf_bind noAssert_fails fun _ => requireTrueTop_noAssert stk

lemma executeWitnessScript_noAssert : NeverAsserts
      (executeWitnessScript cr chk fl stk execScript sigversion d) := by
  have hr : NeverAsserts (runWitnessScript cr chk fl stk execScript sigversion d) :=
    runWitnessScript_noAssert hsafe stk execScript hnot hdata
  refine .ite (fun _ => ?_) fun _ => hr
  refine (findOpSuccess_noAssert execScript).bind fun s _ => ?_
  refine .ite (fun _ => trivial) fun _ => ?_
  exact setErrorIf_bind noAssert_fails fun _ => hr
end

lemma verifyTaprootCommitment_noAssert {control : Bytes} (p leafHash : Bytes)
    (hb : TAPROOT_CONTROL_BASE_SIZE ≤ control.length) (hm : control.length≤TAPROOT_CONTROL_MAX_SIZE)
    (hn : (control.length-TAPROOT_CONTROL_BASE_SIZE)%TAPROOT_CONTROL_NODE_SIZE=0)
    (hpr : p.length=32) : NeverAsserts (verifyTaprootCommitment cr control p leafHash) := by
  have hs : decide (control.length<TAPROOT_CONTROL_BASE_SIZE)=false := by simpa using hb
  have hl : decide (TAPROOT_CONTROL_MAX_SIZE < control.length)=false := by simpa using hm
  have hp : decide (p.length<32)=false := by simp [hpr]
  rw [verifyTaprootCommitment,computeTaprootMerkleRoot,hs,hl,hn,hp]
  trivial

lemma verifyTapLeaf_noAssert (hsafe : chk.Safe) (w s : List Bytes)
    (control script p : Bytes) (hp : p.length=32) (ah : Option Bytes) :
    NeverAsserts
      (verifyTapLeaf cr chk fl w s control script p
        {annexHash := some ah}) := by
  refine setErrorIf_bind noAssert_fails fun hs => ?_
  rw [decide_eq_false_iff_not] at hs
  push Not at hs
  refine (verifyTaprootCommitment_noAssert p _ hs.1 hs.2.1 hs.2.2 hp).bind fun co _ => ?_
  refine setErrorIf_bind noAssert_fails fun _ => .ite (fun _ => ?_) fun _ => ?_
  · exact executeWitnessScript_noAssert hsafe s script nofun fun _ => ⟨rfl,rfl,rfl,rfl⟩
  · exact (setErrorIf_ensures noAssert_fails _ _).mono fun _ _ => trivial

lemma splitAnnex_ne_nil {s : List Bytes} (h : s≠[]) : (splitAnnex s).2≠[] := by
  match s with
  | [x] => exact cons_ne_nil _ _
  | top::next::rest =>
    rw [splitAnnex]
    split <;> exact cons_ne_nil _ _

section
variable (hsafe : chk.Safe) (wit : List Bytes)
include hsafe wit

lemma verifyTaproot_noAssert (p : Bytes) (hp : p.length=32) :
    NeverAsserts (verifyTaproot cr chk fl wit p) := by
  refine .ite (fun _ => setErrorIf_bind noAssert_fails fun hw => ?_) fun _ => trivial
  have hn : (splitAnnex wit.reverse).2≠[] := splitAnnex_ne_nil (by simpa using hw)
  generalize splitAnnex wit.reverse=out at hn
  obtain ⟨_,_ | ⟨co,_ | ⟨s,st⟩⟩⟩ := out
  · exact absurd rfl hn
  · exact (hsafe.taproot co p _ hp rfl).bind fun _ _ => trivial
  · exact verifyTapLeaf_noAssert hsafe wit st co s p hp _

lemma verifyWitnessV0_noAssert (p : Bytes) : NeverAsserts (verifyWitnessV0 cr chk fl wit p) := by
  have he : ∀ st s, NeverAsserts (executeWitnessScript cr chk fl st s .witnessV0 {}) := fun st s =>
    executeWitnessScript_noAssert hsafe st s nofun nofun
  refine .ite (fun _ => ?_) fun _ => .ite (fun _ => ?_) fun _ => noAssert_fails _
  · split
    · exact noAssert_fails _
    · exact setErrorIf_bind noAssert_fails fun _ => he _ _
  · exact setErrorIf_bind noAssert_fails fun _ => he _ _

lemma verifyWitness_noAssert (script : Bytes) (m : Bool) (s : ScriptError) (ip2 : Bool)
    (st : List Bytes) :
    NeverAsserts
      (verifyWitness cr chk fl wit script m s ip2 st) := by
  rw [verifyWitness]
  split
  · trivial
  · rename_i w p _
    refine setErrorIf_bind noAssert_fails fun _ => ?_
    have hp : NeverAsserts (verifyWitnessProgram cr chk fl wit w p ip2) := by
      refine .ite (fun _ => verifyWitnessV0_noAssert hsafe wit p)
        fun _ => .ite (fun h => ?_) fun _ => ?_
      · exact verifyTaproot_noAssert hsafe wit p h.2.1
      · exact (setErrorIf_ensures noAssert_fails _ _).mono fun _ _ => trivial
    exact hp.bind fun _ _ => trivial
end

lemma verifyP2SH_noAssert (hsafe : chk.Safe) (sig : Bytes) (w : List Bytes)
    (ha : Bool) {copied : List Bytes} (hn : copied≠[]) :
    NeverAsserts
      (verifyP2SH cr chk fl sig w ha copied) := by
  refine setErrorIf_bind noAssert_fails fun _ => ?_
  cases copied with
  | nil => exact absurd rfl hn
  | cons p2 s =>
    refine (evalScript_base_noAssert hsafe s p2).bind fun s _ => ?_
    refine (requireTrueTop_noAssert s).bind fun _ _ => .ite (fun _ => ?_) fun _ => trivial
    exact (verifyWitness_noAssert hsafe _ _ _ _ _ _).bind fun _ _ => trivial

lemma finalChecks_noAssert (hv : fl.Valid) (w : List Bytes) (had : Bool)
    (s : List Bytes) : NeverAsserts (finalChecks fl w had s) := by
  have ha : ∀ f, fl.has f → NeverAsserts (rejectIf (!fl.has f) asserts) := by
    intro f h
    rw [h]
    trivial
  have hc : NeverAsserts (if fl.has .cleanStack then do
      rejectIf (!fl.has .p2sh) asserts
      rejectIf (!fl.has .witness) asserts
      setErrorIf (s.length != 1) .cleanStack
    else .ok ()) := by
    refine .ite (fun h => ?_) fun _ => trivial
    refine (ha _ (hv.1 h).1).bind fun _ _ => (ha _ (hv.1 h).2).bind fun _ _ => ?_
    exact (setErrorIf_ensures noAssert_fails _ _).mono fun _ _ => trivial
  refine hc.bind fun _ _ => .ite (fun h => ?_) fun _ => trivial
  refine (ha _ (hv.2 h)).bind fun _ _ => ?_
  exact (setErrorIf_ensures noAssert_fails _ _).mono fun _ _ => trivial

lemma payToScriptHash_cons {script : Bytes} (h : isPayToScriptHash script) :
    ∃ rest, script=0xa9::rest := by
  cases script with
  | nil => cases h
  | cons b rest =>
    simp only [isPayToScriptHash,Bool.and_eq_true,beq_iff_eq] at h
    have hb : b.toNat=0xa9 := h.1.1.2
    exact ⟨rest,by rw [← UInt8.toNat_inj.mp (show b.toNat=(0xa9 : UInt8).toNat from hb)]⟩

/- OP_HASH160 needs an element, so that a P2SH output leaves nothing to do on an empty stack. -/
lemma evalScript_payToScriptHash_nil {script : Bytes} (hp2sh : isPayToScriptHash script)
    (d : ScriptExecutionData) (s : List Bytes) : evalScript cr chk fl [] script .base d≠.ok s := by
  intro ho
  obtain ⟨r,rfl⟩ := payToScriptHash_cons hp2sh
  have hop : getScriptOp (0xa9::r)=some (0xa9,[],r) := rfl
  obtain ⟨_,_,ho⟩ := bind_eq_ok.mp ho
  obtain ⟨_,_,ho⟩ := bind_eq_ok.mp ho
  obtain ⟨_,hl,_⟩ := bind_eq_ok.mp ho
  rw [evalLoop_some cr chk fl hop] at hl
  obtain ⟨_,hs,_⟩ := bind_eq_ok.mp hl
  cases hs

lemma verifyScript_noAssert (hsafe : chk.Safe) (hv : fl.Valid) (sig scriptPubKey : Bytes)
    (w : List Bytes) : NeverAsserts (verifyScript cr chk fl sig scriptPubKey w) := by
  refine setErrorIf_bind noAssert_fails fun _ => ?_
  refine (evalScript_base_noAssert hsafe [] sig).bind fun s _ => ?_
  cases he : evalScript cr chk fl s scriptPubKey .base {} with
  | error e => exact (evalScript_base_noAssert hsafe s scriptPubKey).error he
  | ok st =>
    refine (requireTrueTop_noAssert st).bind fun _ _ => ?_
    have hw : NeverAsserts (if fl.has .witness then
        verifyWitness cr chk fl w scriptPubKey (!sig.isEmpty) .witnessMalleated
          false st
      else pure (false,st)) :=
      .ite (fun _ => verifyWitness_noAssert hsafe _ _ _ _ _ _) fun _ => trivial
    refine hw.bind fun o _ => ?_
    have hp2sh : NeverAsserts (if fl.has .p2sh && isPayToScriptHash scriptPubKey then
        verifyP2SH cr chk fl sig w o.1 s
      else pure (o.1,o.2)) := by
      refine .ite (fun h => ?_) fun _ => trivial
      refine verifyP2SH_noAssert hsafe sig w o.1 ?_
      rintro rfl
      exact evalScript_payToScriptHash_nil (Bool.and_eq_true_iff.mp h).2 _ _ he
    exact hp2sh.bind fun o _ => finalChecks_noAssert hv w o.1 o.2
end
abbrev Succeeds {α : Type} (r : ScriptResult α) : Prop := Ensures (fun _ => False) (fun _ => True) r

lemma Succeeds.exists_ok {α : Type} {r : ScriptResult α} (h : Succeeds r) : ∃ a, r=.ok a := by
  cases r with
  | ok a => exact ⟨a,rfl⟩
  | error e => exact h.elim

lemma vectorAt_ensures {α : Type} {a : ScriptFailure → Prop} {v : List α} {i : Nat}
    (h : i<v.length) : Ensures a (fun _ => True) (vectorAt v i) := by
  rw [vectorAt,getElem?_eq_getElem h]
  trivial

lemma serializeEach_succeeds {s : Nat → ScriptResult Bytes} {n : Nat}
    (h : ∀ i<n, Succeeds (s i)) : Succeeds (serializeEach s n) := by
  induction n with
  | zero => trivial
  | succ n ih =>
    refine (ih fun i hi => h i (lt_succ_of_lt hi)).bind fun _ _ => ?_
    exact (h n (lt_succ_self n)).bind fun _ _ => trivial

section
variable {cr : ScriptCrypto} {tx : Transaction} {nIn : Nat} (hin : nIn<tx.vin.length)
include hin

variable (sc : Bytes)

lemma serializeInput_succeeds (nHashType : Nat) {ni : Nat}
    (h : ni<tx.vin.length) : Succeeds (serializeInput tx sc nIn nHashType ni) := by
  refine (vectorAt_ensures ?_).bind fun _ _ => trivial
  split
  · exact hin
  · exact h

/- With SIGHASH_SINGLE only the output of the signed input is read. -/
lemma serializeForSignature_succeeds (nHashType : Nat)
    (hot : ¬(fHashSingle nHashType ∧ tx.vout.length≤nIn)) :
    Succeeds (serializeForSignature tx sc nIn nHashType) := by
  have hip : Succeeds (serializeEach (serializeInput tx sc nIn nHashType)
      (if fAnyoneCanPay nHashType then 1 else tx.vin.length)) := by
    refine serializeEach_succeeds fun i hi => serializeInput_succeeds hin sc nHashType ?_
    split at hi
    · omega
    · exact hi
  refine hip.bind fun ip _ => ?_
  have hou : Succeeds (serializeEach (serializeOutput tx nIn nHashType)
      (if fHashNone nHashType then 0 else if fHashSingle nHashType then nIn+1
          else tx.vout.length)) := by
    refine serializeEach_succeeds fun i hi => .ite (fun _ => trivial) fun ho => ?_
    refine (vectorAt_ensures ?_).bind fun _ _ => trivial
    split at hi
    · cases hi
    · split at hi
      · rename_i hs
        simp only [hs,true_and,ne_eq,not_not,not_le] at ho hot
        rwa [ho]
      · exact hi
  exact hou.bind fun _ _ => trivial

lemma signatureHash_succeeds (nHashType : Nat) (amt : Int)
    (sigversion : SigVersion) (ca : PrecomputedTransactionData) :
    Succeeds (signatureHash cr sc tx nIn nHashType amt sigversion ca) := by
  rw [signatureHash,decide_eq_false (not_le.mpr hin)]
  refine .ite (fun _ => ?_) fun _ => .ite (fun _ => trivial) fun hou => ?_
  · have ho : Succeeds (segwitHashOutputs cr tx nIn nHashType ca) := by
      refine .ite (fun _ => trivial) fun _ => .ite (fun h => ?_) fun _ => trivial
      exact (vectorAt_ensures h.2).bind fun _ _ => trivial
    exact ho.bind fun _ _ => (vectorAt_ensures hin).bind fun _ _ => trivial
  · exact (serializeForSignature_succeeds hin sc nHashType hou).bind fun _ _ => trivial
end
namespace TransactionSignatureChecker
variable {crypto : ScriptCrypto} {scheme : SignatureScheme} {c : TransactionSignatureChecker}

/-- The input index is in range and PrecomputedTransactionData is fully initialised. -/
structure Initialised (c : TransactionSignatureChecker) : Prop where
  inRange : c.nIn < c.txTo.vin.length
  taprootReady : c.txdata.bip341TaprootReady
  spentOutputsReady : c.txdata.spentOutputsReady
  spentOutputs : c.txdata.spentOutputs.length=c.txTo.vin.length

/-- The amount is not missing, or missing data is no reason to assert. -/
def AmountKnown (c : TransactionSignatureChecker) : Prop := 0 ≤ c.amount ∨ c.mdb=.fail

lemma checkECDSASignature_succeeds (hi : c.Initialised) (ha : c.AmountKnown)
    (sig pubkey s : Bytes) (sigversion : SigVersion) :
    Succeeds (c.checkECDSASignature crypto scheme sig pubkey s sigversion) := by
  refine .ite (fun _ => trivial) fun _ => ?_
  split
  · trivial
  · refine .ite (fun hm => ?_) fun _ => ?_
    · rw [ha.resolve_left (Int.not_le.mpr hm.2)]
      trivial
    · exact (signatureHash_succeeds hi.inRange _ _ _ _ _).bind fun _ _ => trivial

lemma checkLockTime_succeeds (hi : c.Initialised) (nlt : Int) : Succeeds (c.checkLockTime nlt) := by
  refine .ite (fun _ => trivial) fun _ => .ite (fun _ => trivial) fun _ => ?_
  exact (vectorAt_ensures hi.inRange).bind fun _ _ => trivial

lemma checkSequence_succeeds (hi : c.Initialised) (ns : Int) : Succeeds (c.checkSequence ns) := by
  refine (vectorAt_ensures hi.inRange).bind fun _ _ => ?_
  refine .ite (fun _ => trivial) fun _ => .ite (fun _ => trivial) fun _ => ?_
  exact .ite (fun _ => trivial) fun _ => trivial

lemma schnorrOutputData_ensures {tx : Transaction} (ip ot : Nat) (d : ScriptExecutionData) :
    Ensures NoAssert (fun out =>
    ∀ p, out=some p → ∃ outputHash, p.2={d with outputHash := outputHash})
      (schnorrOutputData crypto tx ip ot d) := by
  refine .ite (fun _ => .ite (fun _ => nofun) fun ho => ?_) fun _ => ?_
  · split
    · rintro p ⟨⟩
      exact ⟨d.outputHash,rfl⟩
    · refine (vectorAt_ensures (not_le.mp ho)).bind fun out _ => ?_
      rintro p ⟨⟩
      exact ⟨_,rfl⟩
  · rintro p ⟨⟩
    exact ⟨d.outputHash,rfl⟩

lemma signatureHashSchnorr_ensures (hi : c.Initialised) (ha : Nat)
    (hv : sigversion=.taproot ∨ sigversion=.tapscript) (han : d.annexHash.isSome)
    (ht : sigversion=.tapscript → d.tapleafHash.isSome ∧ d.codeseparatorPos.isSome) :
    Ensures NoAssert (fun out =>
    ∀ p, out=some p → ∃ outputHash, p.2={d with outputHash := outputHash})
      (signatureHashSchnorr crypto d c.txTo c.nIn ha sigversion c.txdata c.mdb) := by
  obtain ⟨f,hf⟩ : ∃ f, extFlag sigversion=.ok f := by
    obtain rfl | rfl := hv <;> exact ⟨_,rfl⟩
  rw [signatureHashSchnorr,hf,decide_eq_false (not_le.mpr hi.inRange),hi.taprootReady,
    hi.spentOutputsReady]
  refine .ite (fun _ => nofun) fun _ => ?_
  split
  · rename_i hn
    rw [hn] at han
    cases han
  have hip : NeverAsserts (schnorrInputData c.txTo c.nIn (ha &&& SIGHASH_INPUT_MASK) c.txdata) := by
    refine .ite (fun _ => ?_) fun _ => trivial
    refine (vectorAt_ensures hi.inRange).bind fun _ _ => ?_
    exact (vectorAt_ensures (hi.spentOutputs ▸ hi.inRange)).bind fun _ _ => trivial
  refine hip.bind fun i _ => ?_
  refine (schnorrOutputData_ensures _ _ d).bind fun out ho => ?_
  match out with
  | none => exact nofun
  | some (output,d') =>
    obtain ⟨outputHash,rfl⟩ := ho _ rfl
    have hdata : NeverAsserts (tapscriptData sigversion {d with outputHash := outputHash}) := by
      refine .ite (fun h => ?_) fun _ => trivial
      obtain ⟨l,hl⟩ := Option.isSome_iff_exists.mp (ht h).1
      obtain ⟨po,hp⟩ := Option.isSome_iff_exists.mp (ht h).2
      rw [hl,hp]
      trivial
    refine hdata.bind fun tapscript _ => ?_
    rintro p ⟨⟩
    exact ⟨outputHash,rfl⟩

lemma checkSchnorrSignature_ensures (hi : c.Initialised) (sig : Bytes) {p : Bytes}
    (hp : p.length=32)
    (hv : sigversion=.taproot ∨ sigversion=.tapscript) (ha : d.annexHash.isSome)
    (hta : sigversion=.tapscript → d.tapleafHash.isSome ∧ d.codeseparatorPos.isSome) :
    Ensures NoAssert (fun d' => ∃ outputHash, d'={d with outputHash := outputHash})
      (c.checkSchnorrSignature crypto scheme sig p sigversion d) := by
  have hass : decide (sigversion≠.taproot ∧ sigversion≠.tapscript)=false := by
    obtain rfl | rfl := hv <;> rfl
  rw [checkSchnorrSignature,hass,hp]
  refine setErrorIf_bind noAssert_fails fun _ => ?_
  have ht : NeverAsserts (schnorrHashType sig) := by
    rw [schnorrHashType]
    split
    · exact setErrorIf_bind noAssert_fails fun _ => trivial
    · trivial
  refine ht.bind fun o _ => ?_
  refine (signatureHashSchnorr_ensures hi o.1 hv ha hta).bind fun hash hh => ?_
  match hash with
  | none => exact noAssert_fails _
  | some (sighash,d') => exact setErrorIf_bind noAssert_fails fun _ => hh _ rfl

variable (crypto scheme) in
/- The answers of a checker that has its data, as functions. -/
def toSpec (c : TransactionSignatureChecker) : SignatureChecker where
  checkECDSASignature vchSig vchPubKey scriptCode sigversion :=
    match c.checkECDSASignature crypto scheme vchSig vchPubKey scriptCode sigversion with
    | .ok fSuccess => fSuccess
    | .error _ => false
  checkSchnorrSignature := c.checkSchnorrSignature crypto scheme
  checkLockTime nLockTime := c.checkLockTime nLockTime == .ok true
  checkSequence nSequence := c.checkSequence nSequence == .ok true

lemma toCode_eq_ofSpec (hi : c.Initialised) (ha : c.AmountKnown) :
    c.toCode crypto scheme=.ofSpec (c.toSpec crypto scheme) := by
  have he : c.checkECDSASignature crypto scheme=fun vc v s sigversion =>
      .ok ((c.toSpec crypto scheme).checkECDSASignature vc v s sigversion) := by
    funext vc v s sigversion
    have hs : Succeeds (c.checkECDSASignature crypto scheme vc v s sigversion) :=
      checkECDSASignature_succeeds hi ha vc v s sigversion
    obtain ⟨f,ho⟩ := hs.exists_ok
    simp only [toSpec,ho]
  have hl : c.checkLockTime=fun nl =>
      .ok ((c.toSpec crypto scheme).checkLockTime nl) := by
    funext nl
    obtain ⟨f,ho⟩ := Succeeds.exists_ok (checkLockTime_succeeds hi nl)
    simp only [toSpec,ho]
    cases f <;> rfl
  have hse : c.checkSequence=fun n =>
      .ok ((c.toSpec crypto scheme).checkSequence n) := by
    funext n
    obtain ⟨f,ho⟩ := Succeeds.exists_ok (checkSequence_succeeds hi n)
    simp only [toSpec,ho]
    cases f <;> rfl
  rw [toCode,he,hl,hse]
  rfl

lemma toSpec_safe (hi : c.Initialised) : (c.toSpec crypto scheme).Safe where
  tapscript sig pubkey d hp hs := by
    have hs : d.Set := hs.resolve_left fun h => h rfl
    exact (checkSchnorrSignature_ensures hi sig hp (.inr rfl) hs.annexHash
      fun _ => ⟨hs.tapleafHash,hs.codeseparatorPos⟩).mono fun _ h _ => h
  taproot sig program d hpr ha :=
    (checkSchnorrSignature_ensures hi sig hpr (.inl rfl) ha nofun).mono
      fun _ _ => trivial
end TransactionSignatureChecker
/-- Init with every feature and the spent outputs makes the data of a checker complete. -/
theorem TransactionSignatureChecker.initialised_of_init {crypto : ScriptCrypto}
    {c : TransactionSignatureChecker} {so : List TxOut}
    (hin : c.nIn < c.txTo.vin.length) (hn : so≠[])
    (h : PrecomputedTransactionData.init crypto {} c.txTo so true=.ok c.txdata) :
    c.Initialised := by
  have he : so.isEmpty=false := by
    cases so with
    | nil => exact absurd rfl hn
    | cons o so => rfl
  have hu : scanFeatures true c.txTo.vin so (true,true)=(true,true) := by
    cases c.txTo.vin <;> rfl
  obtain ⟨_,_,h⟩ := bind_eq_ok.mp h
  obtain ⟨_,hl,h⟩ := bind_eq_ok.mp h
  rw [he,Bool.not_false] at h hl
  rw [rejectIf_eq_ok,Bool.true_and,bne_eq_false_iff_eq] at hl
  simp only [hu] at h
  have hdata := Except.ok.inj h
  exact ⟨hin,hdata ▸ rfl,hdata ▸ rfl,hdata ▸ hl⟩

/- Code whose last act is to report success. -/
def ReportsOk (c : Code Unit) : Prop := ∀ s a s', c s=.ok a s' → s'.error=none

lemma ReportsOk.bind {α : Type} {c : Code α} {f : α → Code Unit} (h : ∀ a, ReportsOk (f a)) :
    ReportsOk (c >>= f) := by
  intro s a _ hr
  simp only [Bind.bind,EStateM.bind] at hr
  split at hr
  · exact h _ _ _ _ hr
  · cases hr

lemma verifyScript_reportsOk (crypto : ScriptCrypto) (ch : Code.SignatureChecker) (f : ScriptFlags)
    (sig scriptPubKey : Bytes) (w : List Bytes) :
    ReportsOk (Code.verifyScript crypto ch f sig scriptPubKey w) := by
  refine .bind fun _ => .bind fun _ => .bind fun _ => .bind fun _ => .bind fun _ =>
      .bind fun _ => ?_
  refine .bind fun _ => .bind fun _ => ?_
  rintro s a _ ⟨⟩
  rfl

/-- A call of VerifyScript ends well when it returns true with SCRIPT_ERR_OK in serror, or false
with another error there. -/
def EndsLabelled : EStateM.Result Stop (Report ScriptError) Unit → Prop
  | .ok _ s => s.error=none
  | .error .returnFalse s => s.error≠none
  | .error .assertion _ => False
  | .error .outOfRange _ => False

instance : (out : EStateM.Result Stop (Report ScriptError) Unit) → Decidable (EndsLabelled out)
  | .ok _ s => inferInstanceAs (Decidable (s.error=none))
  | .error .returnFalse s => inferInstanceAs (Decidable (s.error≠none))
  | .error .assertion _ => .isFalse id
  | .error .outOfRange _ => .isFalse id

lemma endsLabelled_of_endsAs {out : EStateM.Result Stop (Report ScriptError) Unit}
    {r : ScriptResult Unit}
    (he : EndsAs reported out r) (hsafe : NeverAsserts r)
    (ho : ∀ a s, out=.ok a s → s.error=none) : EndsLabelled out := by
  match r with
  | .ok a =>
    obtain ⟨s,hs⟩ := he
    rw [hs]
    exact ho a s hs
  | .error .asserts => exact absurd rfl hsafe
  | .error (.fails serror) =>
    obtain ⟨s,hs,her⟩ := he
    rw [hs]
    exact fun hn => nomatch her.symm.trans hn

/-- VerifyScript never crashes and never mislabels. -/
theorem verifyScript_endsLabelled (crypto : ScriptCrypto) (scheme : SignatureScheme)
    {c : TransactionSignatureChecker} (hinit : c.Initialised) (hamount : c.AmountKnown)
    {flags : ScriptFlags} (hvalid : flags.Valid) (scriptSig scriptPubKey : Bytes)
    (witness : List Bytes) (s : Report ScriptError) :
    EndsLabelled
      (Code.verifyScript crypto (c.toCode crypto scheme) flags scriptSig scriptPubKey witness s) := by
  refine endsLabelled_of_endsAs (r := verifyScript crypto (c.toSpec crypto scheme) flags scriptSig
    scriptPubKey witness) ?_ (verifyScript_noAssert
        (TransactionSignatureChecker.toSpec_safe hinit) hvalid _ _ _)
    fun a s' hr => verifyScript_reportsOk _ _ _ _ _ _ s a s' hr
  rw [TransactionSignatureChecker.toCode_eq_ofSpec hinit hamount]
  exact verifyScript_computes _ _ _ s

def checkSigScript : Bytes := 0xac::replicate 31 0x61
def spendingTx : Transaction :=
  {vin := [⟨⟨1,0⟩,[],SEQUENCE_FINAL,[[1],2::replicate 32 0,checkSigScript]⟩], vout := [], hash := 2}

def spendingChecker (amount : Int) : TransactionSignatureChecker where
  txTo := spendingTx
  nIn := 0
  amount := amount
  txdata :=
    match PrecomputedTransactionData.init plainCrypto {} spendingTx
        [⟨amount,0::32::checkSigScript⟩] true with
    | .ok txdata => txdata
    | .error _ => {}
  mdb := .assertFail

def acceptingScheme : SignatureScheme := ⟨fun _ _ _ => true,fun _ _ _ => true⟩

theorem verifyScript_endsLabelled_p2wsh :
    EndsLabelled (Code.verifyScript plainCrypto
    ((spendingChecker 1).toCode plainCrypto acceptingScheme)
      ⟨2^21-1⟩ [] (0::32::checkSigScript) [[1],2::replicate 32 0,checkSigScript] ⟨none,0⟩) :=
  verifyScript_endsLabelled plainCrypto acceptingScheme ⟨by decide,by decide,by decide,by decide⟩
    (.inl (by decide)) (by decide) _ _ _ _

/- A negative amount stands for one that is missing, and BIP143 needs it. -/
theorem verifyScript_asserts_of_missing_amount :
    (spendingChecker (-1)).Initialised ∧ ScriptFlags.Valid ⟨2^0+2^11⟩ ∧
      ¬EndsLabelled (Code.verifyScript plainCrypto
      ((spendingChecker (-1)).toCode plainCrypto acceptingScheme)
        ⟨2^0+2^11⟩ [] (0::32::checkSigScript) [[1],2::replicate 32 0,checkSigScript] ⟨none,0⟩) :=
  ⟨⟨by decide,by decide,by decide,by decide⟩,by decide,by decide +kernel⟩
end Xero
