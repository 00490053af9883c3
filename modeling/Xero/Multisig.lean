import Xero.Library.Matching
import Xero.SigOpCount

/-! OP_CHECKMULTISIG: the scan over the keys finds an assignment of the signatures to keys in their
order whenever there is one. -/
namespace Xero
open Library Reporting List Nat

/-- None of the flags by which CHECKMULTISIG looks at how signatures and keys are encoded. -/
def ScriptFlags.NoEncodings (flags : ScriptFlags) : Prop := flags.has .derSig=false ∧
  flags.has .lowS=false ∧ flags.has .strictEnc=false ∧ flags.has .witnessPubkeyType=false

variable {crypto : ScriptCrypto} {checker : SignatureChecker} {flags : ScriptFlags}
  {sigversion : SigVersion} {scriptCode : Bytes} {sigs keys : List Bytes}

lemma matchSignatures_eq (he : flags.NoEncodings) (hle : sigs.length≤keys.length) :
    ∃ ok, matchSignatures crypto checker flags sigversion scriptCode sigs keys=.ok ok ∧
      (ok ↔ SublistForall₂ (fun sig key =>
        checker.checkECDSASignature sig key scriptCode sigversion) sigs keys) := by
  obtain ⟨hd,hl,hs,hk⟩ := he
  have hsi sig : checkSignatureEncoding crypto flags sig=.ok () := by
    simp [checkSignatureEncoding,hd,hl,hs,setErrorIf,rejectIf]
  have hke key : checkPubKeyEncoding flags sigversion key=.ok () := by
    simp [checkPubKeyEncoding,hs,hk,setErrorIf,rejectIf]
  induction keys generalizing sigs with
  | nil =>
    obtain rfl := length_eq_zero_iff.1 (le_zero.1 hle)
    exact ⟨true,rfl,by simp [SublistForall₂.nil]⟩
  | cons key keys ih =>
    cases sigs with
    | nil => exact ⟨true,rfl,by simp [SublistForall₂.nil]⟩
    | cons sig sigs =>
      rw [matchSignatures,hsi,hke,sublistForall₂_cons_iff]
      generalize (if checker.checkECDSASignature sig key scriptCode sigversion then sigs
        else sig::sigs)=left
      by_cases hf : keys.length<left.length
      · refine ⟨false,if_pos hf,iff_of_false Bool.false_ne_true fun h => ?_⟩
        exact absurd (sublistForall₂_length_le h) (not_le.2 hf)
      · rw [if_neg hf]
        exact ih (not_lt.1 hf)

lemma cleanArguments_eq {stack : List Bytes} {n : Nat} (h : n ≤ stack.length)
    (ok : Bool) (i2 : Nat) :
    cleanArguments flags ok n i2 stack =
      if ok=false ∧ flags.has .nullFail ∧ ∃ sig∈(stack.take n).drop i2, sig≠[]
      then .error (.fails .sigNullFail) else .ok (stack.drop n) := by
  induction n generalizing stack i2 with
  | zero => simp [cleanArguments]
  | succ n ih =>
    cases stack with
    | nil => cases h
    | cons t stack =>
      rw [cleanArguments,ih (le_of_succ_le_succ h),setErrorIf,rejectIf]
      cases ok with
      | true => simp [ok_bind]
      | false =>
        cases i2 with
        | zero =>
          by_cases ht : t=[] <;> by_cases hf : flags.has .nullFail <;>
            simp [ht,hf,bind,Except.bind]
        | succ i2 => simp [ok_bind]

lemma readCount_eq {stack : List Bytes} {i n max : Nat} {vch : Bytes} (ha : stack[i]? = some vch)
    (hn : scriptNum (flags.has .minimalData) 4 vch=.ok n) (hl : n ≤ max) (hm : max≤20)
    (s : ScriptError) : readCount flags stack i max s=.ok n := by
  have hi : getInt n=n := by
    rw [getInt]
    omega
  simp only [readCount,ha,hn,ok_bind,hi,setErrorIf,rejectIf]
  rw [decide_eq_false (by omega)]
  simp [pure_ok]

lemma execCheckMultisig_eq {st : EvalState} {nKeys nSigs dummy : Bytes}
    {rest : List Bytes} {ok : Bool}
    (hv : sigversion≠.tapscript) (hs : st.stack=nKeys::(keys++nSigs::(sigs++dummy::rest)))
    (hk : scriptNum (flags.has .minimalData) 4 nKeys=.ok keys.length)
    (hsi : scriptNum (flags.has .minimalData) 4 nSigs=.ok sigs.length)
    (hle : sigs.length≤keys.length)
    (hm : keys.length≤MAX_PUBKEYS_PER_MULTISIG) (hops : st.nOpCount+keys.length≤MAX_OPS_PER_SCRIPT)
    (hco : dropSignatures flags sigversion st.pbegincodehash sigs=.ok scriptCode)
    (hd : flags.has .nullDummy → dummy=[])
    (hma : matchSignatures crypto checker flags sigversion scriptCode sigs keys=.ok ok) :
    execCheckMultisig crypto checker flags sigversion false st =
      if ok=false ∧ flags.has .nullFail ∧ ∃ sig∈sigs, sig≠[] then .error (.fails .sigNullFail)
      else .ok {st with stack := ofBool ok::rest, nOpCount := st.nOpCount+keys.length} := by
  have hsp : st.stack=(nKeys::(keys++nSigs::sigs))++dummy::rest := by simp [hs]
  have hl : keys.length+sigs.length+2=(nKeys::(keys++nSigs::sigs)).length := by
    simp only [length_cons,length_append]
    omega
  have hsz : keys.length+sigs.length+3 ≤ st.stack.length := by
    rw [hsp,length_append,← hl,length_cons]
    omega
  have hc : cleanArguments flags ok _ (keys.length+2) st.stack=_ :=
    cleanArguments_eq (show keys.length+sigs.length+2 ≤ st.stack.length by omega) ok _
  have hsg : (st.stack.drop (keys.length+2)).take sigs.length=sigs := by
    simp [hs,drop_append,drop_eq_nil_of_le (le_succ keys.length)]
  have ha : (nKeys::(keys++nSigs::sigs)).drop (keys.length+2)=sigs := by
    simp [drop_append,drop_eq_nil_of_le (le_succ keys.length)]
  have hp : popDummy flags (dummy::rest)=.ok rest := by
    cases hfl : flags.has .nullDummy with
    | false => simp [popDummy,hfl,setErrorIf,rejectIf,ok_bind,pure_ok]
    | true => simp [popDummy,hd hfl,setErrorIf,rejectIf,ok_bind,pure_ok]
  rw [hsp,hl,take_left,drop_left,← hsp,← hl,ha] at hc
  rw [execCheckMultisig,readCount_eq (by rw [hs]; rfl) hk hm (by decide)]
  simp only [bind,Except.bind,setErrorIf,rejectIf]
  rw [readCount_eq (by simp [hs]) hsi hle hm]
  simp only [hsg,hco,show (st.stack.drop 1).take keys.length=keys by simp [hs],hma,hc,
    beq_eq_false_iff_ne.2 hv,decide_eq_false (not_lt.2 hops),decide_eq_false (not_lt.2 hsz)]
  by_cases hf : ok=false ∧ flags.has .nullFail ∧ ∃ sig∈sigs, sig≠[]
  · rw [if_pos hf,if_pos hf]
    rfl
  · rw [if_neg hf,if_neg hf]
    simp [hp,pushOrVerify,pure_ok]

/-- What a CHECKMULTISIG that completes leaves of the stack, whatever the flags. -/
lemma execCheckMultisig_stack {st st' : EvalState}
    (h : execCheckMultisig crypto checker flags sigversion false st=.ok st') :
    ∃ nKeysCount nSigsCount ok,
      readCount flags st.stack 0 MAX_PUBKEYS_PER_MULTISIG .pubkeyCount=.ok nKeysCount ∧
      readCount flags st.stack (nKeysCount+1) nKeysCount .sigCount=.ok nSigsCount ∧
      nKeysCount+nSigsCount+3 ≤ st.stack.length ∧
      st'.stack=ofBool ok::st.stack.drop (nKeysCount+nSigsCount+3) := by
  obtain ⟨_,-,h⟩ := bind_eq_ok.mp h
  obtain ⟨nKeysCount,hk,h⟩ := bind_eq_ok.mp h
  obtain ⟨_,-,h⟩ := bind_eq_ok.mp h
  obtain ⟨nSigsCount,hsi,h⟩ := bind_eq_ok.mp h
  obtain ⟨_,hs,h⟩ := bind_eq_ok.mp h
  obtain ⟨_,-,h⟩ := bind_eq_ok.mp h
  obtain ⟨ok,-,h⟩ := bind_eq_ok.mp h
  obtain ⟨stack,hc,h⟩ := bind_eq_ok.mp h
  obtain ⟨_,hp,h⟩ := bind_eq_ok.mp h
  obtain ⟨_,hpu,h⟩ := bind_eq_ok.mp h
  rw [setErrorIf,rejectIf_eq_ok,decide_eq_false_iff_not,Nat.not_lt] at hs
  obtain rfl := Except.ok.inj h
  refine ⟨nKeysCount,nSigsCount,ok,hk,hsi,hs,?_⟩
  rw [cleanArguments_eq (by omega)] at hc
  split at hc
  · cases hc
  · obtain rfl := Except.ok.inj hc
    obtain rfl := Except.ok.inj hpu
    cases hr : st.stack.drop (nKeysCount+nSigsCount+2) with
    | nil =>
      rw [hr] at hp
      cases hp
    | cons d r =>
      rw [hr] at hp
      obtain ⟨_,-,hp⟩ := bind_eq_ok.mp hp
      obtain rfl := Except.ok.inj hp
      rw [← tail_drop,hr]
      rfl

/-- CHECKMULTISIG succeeds exactly when the signatures can be assigned, in their order, to keys that
accept them; both stand in the order of the stack, the top first. -/
theorem checkMultisig_iff_assigned {st : EvalState} {nKeys nSigs dummy : Bytes} {rest : List Bytes}
    (henc : flags.NoEncodings) (hversion : sigversion≠.tapscript)
    (hstack : st.stack=nKeys::(keys++nSigs::(sigs++dummy::rest)))
    (hkeys : scriptNum (flags.has .minimalData) 4 nKeys=.ok keys.length)
    (hsigs : scriptNum (flags.has .minimalData) 4 nSigs=.ok sigs.length)
    (hle : sigs.length≤keys.length) (hmax : keys.length≤MAX_PUBKEYS_PER_MULTISIG)
    (hops : st.nOpCount+keys.length≤MAX_OPS_PER_SCRIPT)
    (hcode : dropSignatures flags sigversion st.pbegincodehash sigs=.ok scriptCode)
    (hdummy : flags.has .nullDummy=true → dummy=[]) :
    (∃ ok, (ok=true ↔ ∃ pos : Fin sigs.length → Fin keys.length, StrictMono pos ∧ ∀ i,
        checker.checkECDSASignature (sigs.get i) (keys.get (pos i)) scriptCode sigversion=true) ∧
      execCheckMultisig crypto checker flags sigversion false st =
        if ok=false ∧ flags.has .nullFail=true ∧ ∃ sig∈sigs, sig≠[] then
          .error (.fails .sigNullFail)
        else .ok { st with stack := ofBool ok::rest, nOpCount := st.nOpCount+keys.length }) ∧
    (∀ (coded : Code.SignatureChecker) isig ikey, CallsAtMost keys.length
        (Code.matchSignatures crypto
      coded flags sigversion st.stack scriptCode keys.length sigs.length isig ikey)) ∧
    ∀ any st₁ st₂, execCheckMultisig crypto checker any sigversion false st₁=.ok st₂ →
      ∃ nKeysCount nSigsCount ok,
        readCount any st₁.stack 0 MAX_PUBKEYS_PER_MULTISIG .pubkeyCount=.ok nKeysCount ∧
        readCount any st₁.stack (nKeysCount+1) nKeysCount .sigCount=.ok nSigsCount ∧
        nKeysCount+nSigsCount+3 ≤ st₁.stack.length ∧
        st₂.stack=ofBool ok::st₁.stack.drop (nKeysCount+nSigsCount+3) := by
  obtain ⟨ok,hm,hi⟩ := matchSignatures_eq henc hle
  rw [sublistForall₂_iff_strictMono] at hi
  exact ⟨⟨ok,hi,execCheckMultisig_eq hversion hstack hkeys hsigs hle hmax hops hcode hdummy hm⟩,
    fun _ _ _ => Code.matchSignatures_calls _ _ _ _ _ _ hle,fun _ _ _ => execCheckMultisig_stack⟩

/- A signature is accepted by the key that is equal to it. -/
def matchingChecker : SignatureChecker :=
  {acceptingChecker with checkECDSASignature := fun sig pubkey _ _ => sig == pubkey}

/- Two signatures for the first and the last of three keys: the scan passes over the second key. -/
theorem checkMultisig_iff_assigned_two_of_three :
    execCheckMultisig plainCrypto matchingChecker ⟨0⟩ .witnessV0 false
        ⟨[],[[3],[13],[12],[11],[2],[13],[11],[]],[],{},0,0,{}⟩ =
      .ok ⟨[],[ofBool true],[],{},3,0,{}⟩ := by
  obtain ⟨ok,hok,hexec⟩ := (@checkMultisig_iff_assigned plainCrypto matchingChecker
      ⟨0⟩ .witnessV0 []
    [[13],[11]] [[13],[12],[11]] ⟨[],[[3],[13],[12],[11],[2],[13],[11],[]],[],{},0,0,
        {}⟩ [3] [2] [] []
    ⟨by decide,by decide,by decide,by decide⟩ (by decide) rfl (by decide) (by decide) (by decide)
    (by decide) (by decide) rfl (by decide)).1
  have hpos : ∃ pos : Fin 2 → Fin 3, StrictMono pos ∧ ∀ i : Fin 2,
      matchingChecker.checkECDSASignature (([[13],[11]] : List Bytes).get i)
        (([[13],[12],[11]] : List Bytes).get (pos i)) [] .witnessV0=true := by
    refine ⟨fun i => if i=0 then 0 else 2,?_,by decide⟩
    unfold StrictMono
    decide
  obtain rfl := hok.2 hpos
  exact hexec
end Xero
