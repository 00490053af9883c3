import Xero.InterpreterSafety

/-! The resources of a script: after every opcode that EvalScript completes, the stacks, their
elements, the counted operations and the signatures of a tapscript are within their limits. -/
namespace Xero
open Library List
section
variable (crypto : ScriptCrypto) (checker : SignatureChecker) (flags : ScriptFlags)
    (sigversion : SigVersion)

/-- The states EvalScript goes through from `st0`, the rest of the script `pc` included: after `n`
completed opcodes, with `ops` counted operations and `passed` executed signature opcodes whose
signature is not empty. -/
inductive Reached (script : Bytes) (st0 : EvalState) : Nat → Nat → Nat → Bytes → EvalState → Prop
  | start : Reached script st0 0 0 0 script st0
  | opcode {n ops passed opcode : Nat} {pc data rest : Bytes} {st st' : EvalState}
      (hreached : Reached script st0 n ops passed pc st)
      (hop : getScriptOp pc=some (opcode,data,rest))
      (hstep : evalStep crypto checker flags sigversion opcode data rest st=.ok st') :
      Reached script st0 (n+1) (ops+countedOps flags sigversion opcode st)
        (passed+passedOf sigversion opcode st) rest st'

variable {crypto checker flags sigversion} {script pc : Bytes} {st0 st : EvalState}
    {n ops passed : Nat}
section
variable (h : Reached crypto checker flags sigversion script st0 n ops passed pc st)
include h

lemma Reached.evalLoop_eq :
    evalLoop crypto checker flags sigversion script st0=evalLoop crypto checker flags
    sigversion pc st := by
  induction h with
  | start => rfl
  | opcode hr ho hs ih =>
    rw [ih,evalLoop_some crypto checker flags ho,hs]
    rfl

variable {st' : EvalState}

lemma reached_of_evalLoop (ho : evalLoop crypto checker flags sigversion pc st=.ok st') :
    ∃ n ops passed, Reached crypto checker flags sigversion script st0 n ops passed [] st' := by
  induction pc using script_induction generalizing n ops passed st with
  | nil =>
    rw [evalLoop_nil] at ho
    exact ⟨n,ops,passed,Except.ok.inj ho ▸ h⟩
  | undecodable pc hp hop =>
    rw [evalLoop_none crypto checker flags hp hop] at ho
    cases ho
  | instruction pc o d r hop ih =>
    rw [evalLoop_some crypto checker flags hop] at ho
    obtain ⟨_,hs,ho⟩ := bind_eq_ok.mp ho
    exact ih (h.opcode hop hs) ho
end

/-- A checker that fills in the output hash and leaves the rest of the execution data alone, as
all of the node's checkers do. -/
def SignatureChecker.KeepsData (checker : SignatureChecker) : Prop :=
  ∀ sig pubkey d d', checker.checkSchnorrSignature sig pubkey .tapscript d=.ok d' →
    ∃ outputHash, d'={d with outputHash := outputHash}

lemma signatureHashSchnorr_keepsData {crypto : ScriptCrypto} {tx : Transaction} {ip ha : Nat}
    {sigversion : SigVersion} {c : PrecomputedTransactionData} {mdb : MissingDataBehavior}
    {d d' : ScriptExecutionData} {s : Bytes}
    (h : signatureHashSchnorr crypto d tx ip ha sigversion c mdb=.ok (some (s,d'))) :
    ∃ outputHash, d'={d with outputHash := outputHash} := by
  obtain ⟨_,_,h⟩ := bind_eq_ok.mp h
  obtain ⟨_,_,h⟩ := bind_eq_ok.mp h
  split at h
  · obtain ⟨_,_,h⟩ := bind_eq_ok.mp h
    cases h
  · split at h
    · cases h
    · dsimp only at h
      split at h
      · cases h
      · obtain ⟨_,_,h⟩ := bind_eq_ok.mp h
        obtain ⟨o,ho,h⟩ := bind_eq_ok.mp h
        match o with
        | none => cases h
        | some (output,d1) =>
          obtain ⟨_,_,h⟩ := bind_eq_ok.mp h
          cases h
          exact (TransactionSignatureChecker.schnorrOutputData_ensures _ _ d).ok ho _ rfl

/-- The checker of a transaction input is such a checker. -/
lemma TransactionSignatureChecker.toSpec_keepsData (crypto : ScriptCrypto) (s : SignatureScheme)
    (c : TransactionSignatureChecker) : (c.toSpec crypto s).KeepsData := by
  intro _ _ d _ h
  obtain ⟨_,_,h⟩ := bind_eq_ok.mp h
  obtain ⟨_,_,h⟩ := bind_eq_ok.mp h
  obtain ⟨_,_,h⟩ := bind_eq_ok.mp h
  obtain ⟨_,_,h⟩ := bind_eq_ok.mp h
  obtain ⟨o,ho,h⟩ := bind_eq_ok.mp h
  match o with
  | none => cases h
  | some (sighash,d1) =>
    obtain ⟨_,_,h⟩ := bind_eq_ok.mp h
    obtain rfl := Except.ok.inj h
    exact signatureHashSchnorr_keepsData ho

lemma turnEffect_of_evalStep {opcode : Nat} {data r : Bytes}
    (hs : evalStep crypto checker flags sigversion opcode data r st=.ok st') :
    TurnEffect crypto checker.KeepsData (countedOps flags sigversion opcode st)
      (passedOf sigversion opcode st) st st' := by
  have hp : checker.Proper (fun _ => True) checker.KeepsData := fun sig pubkey d _ _ =>
    Ensures.of_ok (fun _ => trivial) fun d' ho hk => hk sig pubkey d d' ho
  exact (evalStep_effect (fun _ => trivial) hp opcode data r st (.inl trivial)).ok hs

/-- What holds of every reached state. -/
structure WithinLimits (crypto : ScriptCrypto) (kept : Prop) (st0 : EvalState) (n ops passed : Nat)
    (st : EvalState) : Prop where
  size : n≠0 → st.size≤MAX_STACK_SIZE
  fits : crypto.Sized → StackFits st0.stack → StackFits st0.altstack →
    StackFits st.stack ∧ StackFits st.altstack
  nOpCount : st.nOpCount=st0.nOpCount+ops
  counted : 0<ops → st.nOpCount≤MAX_OPS_PER_SCRIPT
  weight : kept → st.execdata.validationWeightLeft=st0.execdata.validationWeightLeft.map fun left =>
    left-VALIDATION_WEIGHT_PER_SIGOP_PASSED*passed
  paid : kept → 0<passed → ∃ left, st.execdata.validationWeightLeft=some left ∧ 0≤left

lemma WithinLimits.start (st0 : EvalState) {k : Prop} : WithinLimits crypto k st0 0 0 0 st0 where
  size := fun h => absurd rfl h
  fits := fun _ hf ha => ⟨hf,ha⟩
  nOpCount := rfl
  counted := fun h => absurd h (Nat.lt_irrefl 0)
  weight := fun _ => by simp
  paid := fun _ h => absurd h (Nat.lt_irrefl 0)

/- One more opcode. What it does not pay for was paid before. -/
lemma WithinLimits.step {k : Prop} {o' p' : Nat}
    (h : WithinLimits crypto k st0 n ops passed st) (ht : TurnEffect crypto k o' p' st st') :
    WithinLimits crypto k st0 (n+1) (ops+o') (passed+p') st' where
  size := fun _ => ht.size
  fits := fun hs hf ha =>
    ht.fits hs (h.fits hs hf ha).1 (h.fits hs hf ha).2
  nOpCount := by rw [ht.nOpCount,h.nOpCount,Nat.add_assoc]
  counted := by
    intro hp
    obtain hz | hp' := Nat.eq_zero_or_pos o'
    · rw [ht.nOpCount,hz]
      exact h.counted (by omega)
    · exact ht.counted hp'
  weight := by
    intro hk
    rw [(ht.execdata hk).weight,h.weight hk,Option.map_map]
    congr 1
    funext l
    simp only [Function.comp_apply]
    push_cast
    ring
  paid := by
    intro hk hp
    obtain hz | hp' := Nat.eq_zero_or_pos p'
    · obtain ⟨l,hl,hle⟩ := h.paid hk (by omega)
      refine ⟨l,?_,hle⟩
      rw [(ht.execdata hk).weight,hl,hz]
      simp
    · exact (ht.execdata hk).paid hp'

lemma Reached.withinLimits (h : Reached crypto checker flags sigversion script st0 n ops
    passed pc st) :
    WithinLimits crypto checker.KeepsData st0 n ops passed st := by
  induction h with
  | start => exact WithinLimits.start st0
  | opcode hr ho hs ih => exact ih.step (turnEffect_of_evalStep hs)

/-- Script execution is resource bounded. -/
theorem evalScript_within_limits (hsized : crypto.Sized) {stack : List Bytes}
    {d : ScriptExecutionData}
    (hfits : ∀ x∈stack, x.length≤MAX_SCRIPT_ELEMENT_SIZE)
    (hreached : Reached crypto checker flags sigversion script
      {pbegincodehash := script, stack := stack, execdata := {d with codeseparatorPos := some 0xFFFFFFFF}}
      (n+1) ops passed pc st) :
    st.stack.length+st.altstack.length≤MAX_STACK_SIZE ∧
    (∀ x∈st.stack++st.altstack, x.length≤MAX_SCRIPT_ELEMENT_SIZE) ∧
    (sigversion=.base ∨ sigversion=.witnessV0 → ops≤MAX_OPS_PER_SCRIPT) ∧
    (sigversion=.tapscript → checker.KeepsData → ∀ witness : List Bytes,
      d.validationWeightLeft=some (witnessSerializeSize witness+VALIDATION_WEIGHT_OFFSET) →
      50*passed≤witnessSerializeSize witness+50) := by
  have hl := hreached.withinLimits
  refine ⟨hl.size (Nat.succ_ne_zero n),?_,fun _ => ?_,fun _ hk witness hw => ?_⟩
  · intro x hx
    obtain ⟨hs,ha⟩ := hl.fits hsized hfits stackFits_nil
    exact (mem_append.mp hx).elim (hs x) (ha x)
  · obtain hz | hp := Nat.eq_zero_or_pos ops
    · exact hz.trans_le (Nat.zero_le _)
    · have hc := hl.nOpCount
      have hli := hl.counted hp
      exact (hc.trans (Nat.zero_add ops)) ▸ hli
  · obtain hz | hp := Nat.eq_zero_or_pos passed
    · omega
    · obtain ⟨_,hle,_⟩ := hl.paid hk hp
      have ht := hl.weight hk
      rw [hle,hw,Option.map_some,Option.some.injEq,VALIDATION_WEIGHT_OFFSET,
        VALIDATION_WEIGHT_PER_SIGOP_PASSED] at ht
      omega
end
/- Hashes of the right sizes, and a tapscript that checks one signature. -/
def sizedCrypto : ScriptCrypto where
  ripemd160 _ := replicate 20 0
  sha1 _ := replicate 20 0
  sha256 _ := replicate 32 0
  checkLowS _ := true
  taggedSHA256 _ _ := replicate 32 0
  checkTapTweak _ _ _ _ := true

lemma sizedCrypto_sized : sizedCrypto.Sized where
  ripemd160 _ := rfl
  sha1 _ := rfl
  sha256 _ := rfl

lemma acceptingChecker_keepsData : acceptingChecker.KeepsData := by
  rintro _ _ d _ ⟨⟩
  exact ⟨d.outputHash,rfl⟩

def checkSigStart : EvalState :=
  { pbegincodehash := [0xac], stack := [replicate 32 0,[1]]
    execdata := { codeseparatorPos := some 0xFFFFFFFF, validationWeightLeft := some (3+50) } }

theorem evalScript_within_limits_checkSig :
    Reached sizedCrypto acceptingChecker ⟨0⟩ .tapscript [0xac] checkSigStart 1 0 1 []
        { checkSigStart with
          stack := [[1]], opcodePos := 1
          execdata := { checkSigStart.execdata with validationWeightLeft := some 3 } } ∧
      50*1≤witnessSerializeSize [[1]]+50 := by
  have hr : Reached sizedCrypto acceptingChecker ⟨0⟩ .tapscript [0xac] checkSigStart 1 0 1 []
      { checkSigStart with
        stack := [[1]], opcodePos := 1
        execdata := { checkSigStart.execdata with validationWeightLeft := some 3 } } :=
    Reached.start.opcode (show getScriptOp [0xac]=some (0xac,[],[]) from rfl) rfl
  have hl := evalScript_within_limits (d := { validationWeightLeft := some (3+50) })
      sizedCrypto_sized
    (by decide) hr
  exact ⟨hr,hl.2.2.2 rfl acceptingChecker_keepsData [[1]] rfl⟩
end Xero
