import Xero.Library.Checks

/-! Code that returns false with an error in an out-parameter, asserts, and reads containers with a
range check; and when it computes a given fallible function. -/
namespace Xero.Library
variable {ε φ α β : Type}

/-- How a call ends before its last line. -/
inductive Stop where
  | returnFalse
  | assertion
  | outOfRange
deriving DecidableEq, Repr

/-- The error out-parameter, `none` for success, and how often an oracle was called. -/
structure Report (ε : Type) where
  error : Option ε
  calls : Nat
deriving DecidableEq, Repr

abbrev Reporting (ε α : Type) := EStateM Stop (Report ε) α

namespace Reporting
def failWith (e : ε) : Reporting ε α := fun s => .error .returnFalse {s with error := some e}

def failIf (b : Bool) (e : ε) : Reporting ε Unit := if b then failWith e else pure ()
def assertFails : Reporting ε α := fun s => .error .assertion s
def assertHolds (b : Bool) : Reporting ε Unit := if b then pure () else assertFails

/- The out-parameter is set, and the call goes on. -/
def reportError (e : ε) : Reporting ε Unit := fun s => .ok () {s with error := some e}
def reportOk : Reporting ε Unit := fun s => .ok () {s with error := none}

def outOfRange : Reporting ε α := fun s => .error .outOfRange s
def readAt : List α → Nat → Reporting ε α
  | [], _ => outOfRange
  | x::_, 0 => pure x
  | _::xs, i+1 => readAt xs i
def countCall : Reporting ε Unit := fun s => .ok () {s with calls := s.calls+1}

@[simp] lemma failWith_bind (e : ε) (f : α → Reporting ε β) : (failWith e >>= f)=failWith e := rfl

@[simp] lemma readAt_cons_zero (x : α) (xs : List α) : readAt (ε := ε) (x::xs) 0=pure x := rfl

@[simp] lemma readAt_cons_succ (x : α) (xs : List α) (i : Nat) :
    readAt (ε := ε) (x::xs) (i+1)=readAt xs i := rfl

lemma readAt_of_getElem? {xs : List α} {i : Nat} {x : α} (h : xs[i]?=some x) :
    readAt (ε := ε) xs i=pure x := by
  induction xs generalizing i with
  | nil => cases h
  | cons y xs ih =>
    cases i with
    | zero =>
      cases h
      rfl
    | succ i => exact ih h

/-- How a run has to end where the function ends in a certain way; `err` says with which error
the code returns false, and `none` is a failed assertion. -/
def EndsAs (err : φ → Option ε) (out : EStateM.Result Stop (Report ε) α) : Except φ α → Prop
  | .ok a => ∃ s, out=.ok a s
  | .error f =>
    match err f with
    | some e => ∃ s, out=.error .returnFalse s ∧ s.error=some e
    | none => ∃ s, out=.error .assertion s

def Refines (err : φ → Option ε) (c : Reporting ε α) (r : Except φ α) : Prop :=
  ∀ s, EndsAs err (c s) r

namespace Refines
variable {err : φ → Option ε} {c : Reporting ε α} {r : Except φ α}

@[simp] lemma pure_ok (a : α) : Refines err (Pure.pure a) (.ok a) := fun s => ⟨s,rfl⟩

lemma failWith {f : φ} {e : ε} (h : err f=some e) :
    Refines err (Reporting.failWith e : Reporting ε α) (.error f) := by
  intro s
  simp only [EndsAs,h]
  exact ⟨_,rfl,rfl⟩

lemma assertFails {f : φ} (h : err f=none) :
    Refines err (Reporting.assertFails : Reporting ε α) (.error f) := by
  intro s
  simp only [EndsAs,h]
  exact ⟨s,rfl⟩

lemma assertHolds {f : φ} (h : err f=none) (b : Bool) :
    Refines err (Reporting.assertHolds b) (rejectIf (!b) f) := by
  cases b with
  | false => exact assertFails h
  | true => exact pure_ok ()

lemma bind {f : α → Reporting ε β} {g : α → Except φ β} (hc : Refines err c r)
    (hf : ∀ a, r=.ok a → Refines err (f a) (g a)) : Refines err (c >>= f) (r >>= g) := by
  intro s
  have hs := hc s
  cases r with
  | ok a =>
    obtain ⟨s',hs⟩ := hs
    have hr : (c >>= f) s=f a s' := by simp only [Bind.bind,EStateM.bind,hs]
    rw [hr]
    exact hf a rfl s'
  | error e =>
    simp only [EndsAs] at hs
    change EndsAs err ((c >>= f) s) (.error e)
    simp only [EndsAs]
    split at hs
    · obtain ⟨s',hs,he⟩ := hs
      exact ⟨s',by simp only [Bind.bind,EStateM.bind,hs],he⟩
    · obtain ⟨s',hs⟩ := hs
      exact ⟨s',by simp only [Bind.bind,EStateM.bind,hs]⟩

lemma step {a : β} {d : Reporting ε β} {f : β → Reporting ε α} (hd : Refines err d (.ok a))
    (hf : Refines err (f a) r) : Refines err (d >>= f) r := by
  intro s
  obtain ⟨s',hs⟩ := hd s
  have hr : (d >>= f) s=f a s' := by simp only [Bind.bind,EStateM.bind,hs]
  rw [hr]
  exact hf s'

lemma value {f : β → Reporting ε α} (a : β) (hf : Refines err (f a) r) :
    Refines err (Pure.pure a >>= f) r := (pure_ok a).step hf

lemma then_ok {c : Reporting ε Unit} {r : Except φ Unit} {d : Reporting ε Unit}
    (hc : Refines err c r) (hd : Refines err d (.ok ())) : Refines err (c >>= fun _ => d) r := by
  have h := hc.bind (f := fun _ => d) (g := fun _ => .ok ()) fun _ _ => hd
  rwa [show (r >>= fun _ => Except.ok ())=r by cases r <;> rfl] at h

lemma ite {p : Prop} [Decidable p] {c' : Reporting ε α} {r' : Except φ α}
    (hc : p → Refines err c r) (hc' : ¬p → Refines err c' r') :
    Refines err (if p then c else c') (if p then r else r') := by
  split
  · exact hc ‹_›
  · exact hc' ‹_›

lemma reportError (e : ε) : Refines err (Reporting.reportError e) (.ok ()) :=
  fun _ => ⟨_,rfl⟩

lemma reportOk : Refines err (Reporting.reportOk (ε := ε)) (.ok ()) :=
  fun _ => ⟨_,rfl⟩

lemma countCall : Refines err (Reporting.countCall (ε := ε)) (.ok ()) :=
  fun _ => ⟨_,rfl⟩

lemma readAt {xs : List α} {i : Nat} {x : α} (h : xs[i]?=some x) :
    Refines err (Reporting.readAt xs i) (.ok x) := by
  rw [readAt_of_getElem? h]
  exact pure_ok x
end Refines
def finalReport : EStateM.Result Stop (Report ε) α → Report ε
  | .ok _ s => s
  | .error _ s => s

/-- No run of the code calls the oracle more than `n` times. -/
def CallsAtMost (n : Nat) (c : Reporting ε α) : Prop := ∀ s, (finalReport (c s)).calls ≤ s.calls+n

/-- What holds of every value that the code returns. -/
def Returns (p : α → Prop) (c : Reporting ε α) : Prop := ∀ s a s', c s=.ok a s' → p a

namespace CallsAtMost
variable {c : Reporting ε α} {n m : Nat}

lemma of_same (h : ∀ s, (finalReport (c s)).calls=s.calls) : CallsAtMost n c :=
  fun s => Nat.le_trans (Nat.le_of_eq (h s)) (Nat.le_add_right _ _)

lemma pure (a : α) : CallsAtMost n (Pure.pure a : Reporting ε α) := of_same fun _ => rfl

lemma failWith (e : ε) : CallsAtMost n (Reporting.failWith e : Reporting ε α) :=
    of_same fun _ => rfl

lemma assertFails : CallsAtMost n (Reporting.assertFails : Reporting ε α) := of_same fun _ => rfl

lemma outOfRange : CallsAtMost n (Reporting.outOfRange : Reporting ε α) := of_same fun _ => rfl

lemma reportError (e : ε) : CallsAtMost n (Reporting.reportError e) := of_same fun _ => rfl

lemma reportOk : CallsAtMost n (Reporting.reportOk : Reporting ε Unit) := of_same fun _ => rfl

lemma failIf (b : Bool) (e : ε) : CallsAtMost n (Reporting.failIf b e) := by
  cases b with
  | false => exact pure ()
  | true => exact failWith e

lemma assertHolds (b : Bool) : CallsAtMost n (Reporting.assertHolds b : Reporting ε Unit) := by
  cases b with
  | false => exact assertFails
  | true => exact pure ()

lemma readAt (xs : List α) (i : Nat) : CallsAtMost n (Reporting.readAt xs i : Reporting ε α) := by
  induction xs generalizing i with
  | nil => exact outOfRange
  | cons x xs ih =>
    cases i with
    | zero => exact pure x
    | succ i => exact ih i

lemma countCall : CallsAtMost 1 (Reporting.countCall : Reporting ε Unit) := fun _ => Nat.le_refl _

lemma mono (h : CallsAtMost n c) (hl : n ≤ m) : CallsAtMost m c :=
  fun s => Nat.le_trans (h s) (Nat.add_le_add_left hl _)

/-- Code in sequence makes the calls of its parts; the second part starts from a value that the
first one returns. -/
lemma bind_returns {f : α → Reporting ε β} {p : α → Prop} (hc : CallsAtMost n c) (hp : Returns p c)
    (hf : ∀ a, p a → CallsAtMost m (f a)) : CallsAtMost (n+m) (c >>= f) := by
  intro s
  have hs := hc s
  simp only [Bind.bind,EStateM.bind]
  split
  · rename_i a s' hr
    have hfs : s'.calls ≤ s.calls+n := by
      rw [hr] at hs
      exact hs
    have hse := hf a (hp s a s' hr) s'
    omega
  · rename_i e s' hr
    have hfs : s'.calls ≤ s.calls+n := by
      rw [hr] at hs
      exact hs
    change s'.calls ≤ s.calls+(n+m)
    omega

lemma bind {f : α → Reporting ε β} (hc : CallsAtMost n c) (hf : ∀ a, CallsAtMost m (f a)) :
    CallsAtMost (n+m) (c >>= f) :=
  hc.bind_returns (p := fun _ => True) (fun _ _ _ _ => trivial) fun a _ => hf a

lemma andThen {f : α → Reporting ε β} (hc : CallsAtMost 0 c) (hf : ∀ a, CallsAtMost m (f a)) :
    CallsAtMost m (c >>= f) := by
  rw [← Nat.zero_add m]
  exact hc.bind hf

lemma check {b : Bool} {e : ε} (h : CallsAtMost n c) :
    CallsAtMost n (Reporting.failIf b e >>= fun _ => c) := (failIf b e).andThen fun _ => h

lemma ite {p : Prop} [Decidable p] {c' : Reporting ε α} (h : p → CallsAtMost n c)
    (h' : ¬p → CallsAtMost n c') : CallsAtMost n (if p then c else c') := by
  split
  · exact h ‹_›
  · exact h' ‹_›
end CallsAtMost
namespace Returns
variable {p : α → Prop} {c : Reporting ε α}

lemma pure {a : α} (h : p a) : Returns p (Pure.pure a : Reporting ε α) := by
  rintro s b _ ⟨⟩
  exact h

lemma bind {q : β → Prop} {f : α → Reporting ε β} (hc : Returns p c)
    (hf : ∀ a, p a → Returns q (f a)) :
    Returns q (c >>= f) := by
  intro s b s' hr
  simp only [Bind.bind,EStateM.bind] at hr
  split at hr
  · rename_i a s1 hfs
    exact hf a (hc s a s1 hfs) s1 b s' hr
  · cases hr

lemma trivial (c : Reporting ε α) : Returns (fun _ => True) c := fun _ _ _ _ => True.intro

lemma failIf (b : Bool) (e : ε) : Returns (fun _ => b=false) (Reporting.failIf b e) := by
  rintro s a _ hr
  cases b with
  | false => rfl
  | true => cases hr
end Returns
end Reporting
end Xero.Library
