import Mathlib.Algebra.BigOperators.Fin

/-! CCheckQueue: the workers and the master that joins them, in every interleaving of their critical
sections with the checks run outside of them. Wait gives the sequential verdict. -/
namespace Xero
open Function Finset
variable {T : Type} {n : Nat}

/-- The fields of the queue. The three counters are ints and an unsigned int in the source: the
model follows it while fewer than 2^31 threads and 2^32 checks are in the queue at a time. -/
structure CheckQueue (T : Type) where
  queue : List T := []
  nIdle : Nat := 0
  nTotal : Nat := 0
  fAllOk : Bool := true
  nTodo : Nat := 0

/-- Where a thread is: the master outside of Wait, a thread outside of the critical section with
what is left of its batch, or one that waits for its condition variable. -/
inductive LoopState (T : Type) where
  | outside
  | running (vChecks : List T) (nNow : Nat) (fOk : Bool)
  | waiting

def LoopState.entered : LoopState T := .running [] 0 true

inductive QueueEvent (T : Type) where
  | added (vChecks : List T)
  | taken (vChecks : List T)
  | returned (fRet : Bool)
  | silent

def QueueEvent.isReturn : QueueEvent T → Bool
  | .returned _ => true
  | _ => false

namespace CheckQueue
def add (q : CheckQueue T) (vChecks : List T) : CheckQueue T :=
  {q with queue := q.queue++vChecks, nTodo := q.nTodo+vChecks.length}

def cleanUp (q : CheckQueue T) (nNow : Nat) (fOk : Bool) : CheckQueue T :=
  if nNow≠0 then {q with fAllOk := q.fAllOk && fOk, nTodo := q.nTodo-nNow}
  else {q with nTotal := q.nTotal+1}
def wakeUp (q : CheckQueue T) : CheckQueue T := {q with nIdle := q.nIdle-1}
def batchSize (nBatchSize : Nat) (q : CheckQueue T) : Nat :=
  max 1 (min nBatchSize (q.queue.length/(q.nTotal+q.nIdle+1)))

/-- The rest of a critical section: the master returns, the thread waits, or it takes a batch from
the end of the queue. -/
def lookForWork (nBatchSize : Nat) (fMaster : Bool) (q : CheckQueue T) :
    CheckQueue T×LoopState T×QueueEvent T :=
  if q.queue.isEmpty then
    if fMaster && q.nTodo == 0 then
      ({q with nTotal := q.nTotal-1, fAllOk := true},.outside,.returned q.fAllOk)
    else ({q with nIdle := q.nIdle+1},.waiting,.silent)
  else
    let nNow := q.batchSize nBatchSize
    let vChecks := q.queue.drop (q.queue.length-nNow)
    ({q with queue := q.queue.take (q.queue.length-nNow)},.running vChecks nNow q.fAllOk,
        .taken vChecks)
end CheckQueue

/-- The queue and its threads; `none` is the master, the others are the worker threads. -/
structure CheckPool (T : Type) (n : Nat) where
  shared : CheckQueue T
  threads : Option (Fin n) → LoopState T

namespace CheckPool
def initial : CheckPool T n where
  shared := {}
  threads
    | none => .outside
    | some _ => .entered

inductive Step (check : T → Bool) (nBatchSize : Nat) : CheckPool T n → QueueEvent T →
    CheckPool T n → Prop
  | add {s : CheckPool T n} (vChecks : List T) (hmaster : s.threads none=.outside) :
      Step check nBatchSize s (.added vChecks) ⟨s.shared.add vChecks,s.threads⟩
  | wait {s : CheckPool T n} (hmaster : s.threads none=.outside) :
      Step check nBatchSize s .silent ⟨s.shared,update s.threads none .entered⟩
  | runCheck {s : CheckPool T n} {t : Option (Fin n)} {c : T} {vChecks : List T} {nNow :
      Nat} {fOk : Bool}
      (hrunning : s.threads t=.running (c::vChecks) nNow fOk) :
      Step check nBatchSize s .silent
        ⟨s.shared,update s.threads t (.running vChecks nNow (if fOk then check c else fOk))⟩
  | enter {s : CheckPool T n} {t : Option (Fin n)} {nNow : Nat} {fOk : Bool} {q : CheckQueue T}
      {x : LoopState T} {event : QueueEvent T} (hrunning : s.threads t=.running [] nNow fOk)
      (hlook : (s.shared.cleanUp nNow fOk).lookForWork nBatchSize t.isNone=(q,x,event)) :
      Step check nBatchSize s event ⟨q,update s.threads t x⟩
  | wake {s : CheckPool T n} {t : Option (Fin n)} {q : CheckQueue T} {x : LoopState T}
      {event : QueueEvent T} (hwaiting : s.threads t=.waiting)
      (hlook : s.shared.wakeUp.lookForWork nBatchSize t.isNone=(q,x,event)) :
      Step check nBatchSize s event ⟨q,update s.threads t x⟩

/-- A state that is reached, with what has happened since Wait returned last. -/
inductive Reached (check : T → Bool) (nBatchSize : Nat) : CheckPool T n → List (QueueEvent T) → Prop
  | initial : Reached check nBatchSize initial []
  | step {s s' : CheckPool T n} {events : List (QueueEvent T)} {event : QueueEvent T}
      (hreached : Reached check nBatchSize s events) (hstep : Step check nBatchSize s event s')
      (hevent : event.isReturn=false) : Reached check nBatchSize s' (events++[event])
  | returned {s s' : CheckPool T n} {events : List (QueueEvent T)} {fRet : Bool}
      (hreached : Reached check nBatchSize s events) (hstep :
          Step check nBatchSize s (.returned fRet) s') :
      Reached check nBatchSize s' []

variable (events : List (QueueEvent T))

def added : List T :=
  (events.map fun | .added vChecks => vChecks | _ => []).flatten
def taken : List T :=
  (events.map fun | .taken vChecks => vChecks | _ => []).flatten

def pending : LoopState T → Nat
  | .running _ nNow _ => nNow
  | _ => 0

/- Whether the batch of a thread will turn out well. -/
def Passing (check : T → Bool) : LoopState T → Prop
  | .running vChecks _ fOk => fOk ∧ ∀ c∈vChecks, check c
  | _ => True

def NoIdleBatch : LoopState T → Prop
  | .running vChecks nNow fOk => nNow=0 → vChecks=[] ∧ fOk
  | _ => True

structure Counted (check : T → Bool) (s : CheckPool T n) (events : List (QueueEvent T)) : Prop where
  todo : s.shared.nTodo=s.shared.queue.length+∑ t, pending (s.threads t)
  once : (added events).Perm (s.shared.queue++taken events)
  verdict : (s.shared.fAllOk ∧ ∀ t, Passing check (s.threads t)) ↔ ∀ c∈taken events, check c
  batches : ∀ t, NoIdleBatch (s.threads t)

lemma sum_pending_update (tr : Option (Fin n) → LoopState T) (t : Option (Fin n))
    (x : LoopState T) :
    ∑ u, pending (update tr t x u)+pending (tr t)=
      ∑ u, pending (tr u)+pending x := by
  have hc : (fun u => pending (update tr t x u))= update (fun u => pending (tr u)) t
      (pending x) := by
    funext u
    by_cases hu : u=t
    · rw [hu,update_self,update_self]
    · rw [update_of_ne hu,update_of_ne hu]
  have hs := add_sum_erase univ (fun u => pending (tr u)) (mem_univ t)
  rw [hc,sum_update_of_mem (mem_univ t),← erase_eq]
  omega

variable {x : LoopState T} {th : Option (Fin n) → LoopState T}

lemma passing_update_iff {check : T → Bool} {t : Option (Fin n)}
    (h : Passing check x ↔ Passing check (th t)) :
    (∀ u, Passing check (update th t x u)) ↔ ∀ u, Passing check (th u) := by
  rw [forall_update_iff th (p := fun _ => Passing check),h]
  constructor
  · rintro ⟨ht,ho⟩ u
    by_cases hu : u=t
    · exact hu ▸ ht
    · exact ho u hu
  · exact fun ha => ⟨ha t,fun u _ => ha u⟩

lemma noIdleBatch_update {t : Option (Fin n)} (h : ∀ u, NoIdleBatch (th u)) (hx : NoIdleBatch x) :
    ∀ u, NoIdleBatch (update th t x u) :=
  (forall_update_iff th (p := fun _ => NoIdleBatch)).mpr ⟨hx,fun u _ => h u⟩

section
variable {check : T → Bool} {s : CheckPool T n} {t : Option (Fin n)} {events : List (QueueEvent T)}

lemma counted_initial : Counted check (initial : CheckPool T n) [] where
  todo := by
    have hz : ∑ t, pending ((initial : CheckPool T n).threads t)=0 :=
      sum_eq_zero fun t _ => by cases t <;> rfl
    rw [hz]
    rfl
  once := List.Perm.refl _
  verdict := by
    refine iff_of_true ⟨rfl,fun t => ?_⟩ nofun
    cases t with
    | none => trivial
    | some t => exact ⟨rfl,nofun⟩
  batches := by
    intro t
    cases t with
    | none => trivial
    | some t => exact fun _ => ⟨rfl,rfl⟩

section
variable (h : Counted check s events)
include h

lemma Counted.add (checks : List T) : Counted check ⟨s.shared.add checks,s.threads⟩
    (events++[.added checks]) where
  todo := by
    have ht := h.todo
    simp only [CheckQueue.add,List.length_append]
    omega
  once := by
    have hp : (s.shared.queue++taken events++checks).Perm
        (s.shared.queue++checks++taken events) := by
      rw [List.append_assoc,List.append_assoc]
      exact List.perm_append_comm.append_left _
    simpa [added,taken,CheckQueue.add] using (h.once.append_right checks).trans hp
  verdict := by simpa [taken,CheckQueue.add] using h.verdict
  batches := h.batches

lemma Counted.update
    (hpe : pending x=pending (s.threads t)) (hp : Passing check x ↔ Passing check (s.threads t))
    (hb : NoIdleBatch x) : Counted check ⟨s.shared,update s.threads t x⟩ (events++[.silent]) where
  todo := by
    have hs := sum_pending_update s.threads t x
    have ht := h.todo
    dsimp only
    omega
  once := by simpa [added,taken] using h.once
  verdict := by
    rw [passing_update_iff hp]
    simpa [taken] using h.verdict
  batches := noIdleBatch_update h.batches hb

lemma Counted.runCheck {c : T} {checks : List T} {nn : Nat} {fOk : Bool}
    (hr : s.threads t=.running (c::checks) nn fOk) :
    Counted check
      ⟨s.shared,Function.update s.threads t (.running checks nn (if fOk then check c else fOk))⟩
      (events++[.silent]) := by
  have hb : nn≠0 := by
    intro hz
    have hn := h.batches t
    rw [hr] at hn
    exact List.cons_ne_nil _ _ (hn hz).1
  refine h.update ?_ ?_ fun hz => absurd hz hb
  · rw [hr]
    rfl
  · rw [hr]
    cases fOk <;> simp [Passing]

lemma Counted.cleanUp {nn : Nat} {fOk : Bool} (hr : s.threads t=.running [] nn fOk) :
    Counted check ⟨s.shared.cleanUp nn fOk,Function.update s.threads t .waiting⟩ events := by
  have hsu : ∑ u, pending (Function.update s.threads t .waiting u)+nn=∑ u, pending
      (s.threads u) := by
    have hsu := sum_pending_update s.threads t .waiting
    rw [hr] at hsu
    exact hsu
  have hto := h.todo
  have hb := h.batches t
  rw [hr] at hb
  by_cases hz : nn=0
  · have hok : fOk := (hb hz).2
    have hs : s.shared.cleanUp nn fOk={s.shared with nTotal := s.shared.nTotal+1} := by
      rw [CheckQueue.cleanUp,if_neg (not_not.mpr hz)]
    have hp : Passing check (LoopState.waiting : LoopState T) ↔ Passing check (s.threads t) := by
      rw [hr]
      simp [Passing,hok]
    rw [hs]
    refine ⟨?_,h.once,?_,noIdleBatch_update h.batches trivial⟩
    · dsimp only
      omega
    · rw [passing_update_iff hp]
      exact h.verdict
  · have hs : s.shared.cleanUp nn fOk=
        {s.shared with fAllOk := s.shared.fAllOk && fOk, nTodo := s.shared.nTodo-nn} := by
      rw [CheckQueue.cleanUp,if_pos hz]
    rw [hs]
    refine ⟨?_,h.once,?_,noIdleBatch_update h.batches trivial⟩
    · dsimp only
      omega
    · have hv := h.verdict
      rw [← hv,Bool.and_eq_true,forall_update_iff s.threads (p := fun _ => Passing check)]
      constructor
      · rintro ⟨⟨ha,hok⟩,_,ho⟩
        refine ⟨ha,fun u => ?_⟩
        by_cases hu : u=t
        · rw [hu,hr]
          exact ⟨hok,nofun⟩
        · exact ho u hu
      · rintro ⟨ha,hp⟩
        have ht := hp t
        rw [hr] at ht
        exact ⟨⟨ha,ht.1⟩,trivial,fun u _ => hp u⟩
end

lemma batchSize_pos (nBatchSize : Nat) (q : CheckQueue T) : 0<q.batchSize nBatchSize :=
  Nat.lt_of_lt_of_le Nat.one_pos (Nat.le_max_left _ _)

variable {nBatchSize : Nat}

lemma batchSize_le {q : CheckQueue T} (h : q.queue≠[]) : q.batchSize nBatchSize≤q.queue.length := by
  have hp := List.length_pos_iff.mpr h
  exact Nat.max_le.mpr ⟨hp,(Nat.min_le_right _ _).trans (Nat.div_le_self _ _)⟩

lemma Counted.take (h : Counted check s events) (hw : s.threads t=.waiting) {nn : Nat}
    (hpo : 0<nn) (hl : nn ≤ s.shared.queue.length) :
    Counted check
      ⟨{s.shared with queue := s.shared.queue.take (s.shared.queue.length-nn)},
        Function.update s.threads t
          (.running (s.shared.queue.drop (s.shared.queue.length-nn)) nn s.shared.fAllOk)⟩
      (events++[.taken (s.shared.queue.drop (s.shared.queue.length-nn))]) := by
  have hs : ∑ u, pending (Function.update s.threads t (.running
      (s.shared.queue.drop (s.shared.queue.length-nn)) nn s.shared.fAllOk) u)=
      ∑ u, pending (s.threads u)+nn := by
    have hs := sum_pending_update s.threads t
      (.running (s.shared.queue.drop (s.shared.queue.length-nn)) nn s.shared.fAllOk)
    rw [hw] at hs
    exact hs
  have hto := h.todo
  have ht : taken (events++[.taken (s.shared.queue.drop (s.shared.queue.length-nn))])=
      taken events++s.shared.queue.drop (s.shared.queue.length-nn) := by simp [taken]
  refine ⟨?_,?_,?_,noIdleBatch_update h.batches fun hz => absurd hz hpo.ne'⟩
  · simp only [List.length_take,hs]
    omega
  · have hsp := List.take_append_drop (s.shared.queue.length-nn) s.shared.queue
    have hpe : (s.shared.queue++taken events).Perm (s.shared.queue.take (s.shared.queue.length-nn)++
        (taken events++s.shared.queue.drop (s.shared.queue.length-nn))) := by
      conv_lhs => rw [← hsp,List.append_assoc]
      exact List.perm_append_comm.append_left _
    rw [ht]
    simpa [added] using h.once.trans hpe
  · rw [ht,Function.forall_update_iff s.threads (p := fun _ => Passing check)]
    constructor
    · rintro ⟨ha,⟨_,hb⟩,ho⟩ c hc
      refine (List.mem_append.mp hc).elim (h.verdict.mp ⟨ha,fun u => ?_⟩ c) (hb c)
      by_cases hu : u=t
      · rw [hu,hw]
        trivial
      · exact ho u hu
    · intro hp
      obtain ⟨ha,hpa⟩ := h.verdict.mpr fun c hc => hp c (List.mem_append_left _ hc)
      exact ⟨ha,⟨ha,fun c hc => hp c (List.mem_append_right _ hc)⟩,fun u _ => hpa u⟩

structure Finished (check : T → Bool) (events : List (QueueEvent T)) (fRet : Bool)
    (q : CheckQueue T) :
    Prop where
  once : (taken events).Perm (added events)
  verdict : fRet ↔ ∀ c∈added events, check c
  queue : q.queue=[]
  nTodo : q.nTodo=0
  fAllOk : q.fAllOk

/- The master finds nothing queued and nothing to do: no thread has a batch. -/
lemma Counted.finished (h : Counted check s events) (he : s.shared.queue=[])
    (hto : s.shared.nTodo=0) :
    Finished check events s.shared.fAllOk
    {s.shared with nTotal := s.shared.nTotal-1, fAllOk := true} ∧
      Counted check ⟨{s.shared with nTotal := s.shared.nTotal-1, fAllOk := true},
        Function.update s.threads t .outside⟩ [] := by
  have hs : ∑ u, pending (s.threads u)=0 := by
    have hc := h.todo
    omega
  have hp : ∀ u, pending (s.threads u)=0 := fun u =>
    sum_eq_zero_iff.mp hs u (mem_univ u)
  have hpa : ∀ u, Passing check (s.threads u) := by
    intro u
    have hb := h.batches u
    have hz := hp u
    generalize s.threads u=x at hb hz
    cases x with
    | outside | waiting => trivial
    | running v nn f =>
      obtain ⟨rfl,rfl⟩ := hb hz
      exact ⟨rfl,nofun⟩
  have ho : (added events).Perm (taken events) := by
    have ho := h.once
    rwa [he] at ho
  have hv : s.shared.fAllOk ↔ ∀ c∈added events, check c := by
    have ha : s.shared.fAllOk ↔ ∀ c∈taken events, check c :=
      ⟨fun hok => h.verdict.mp ⟨hok,hpa⟩,fun hps => (h.verdict.mpr hps).1⟩
    simpa only [ho.mem_iff] using ha
  have hs' := sum_pending_update s.threads t .outside
  refine ⟨⟨ho.symm,hv,he,hto,rfl⟩,?_,?_,?_,noIdleBatch_update h.batches trivial⟩
  · have hz : ∑ u, pending (Function.update s.threads t .outside u)=0 := by
      have ht := hp t
      rw [ht,hs] at hs'
      exact hs'
    rw [hz,he,hto]
    rfl
  · rw [he]
    exact List.Perm.refl _
  · refine iff_of_true ⟨rfl,?_⟩ nofun
    exact (Function.forall_update_iff s.threads (p := fun _ => Passing check)).mpr
      ⟨trivial,fun u _ => hpa u⟩

lemma Counted.lookForWork {q : CheckQueue T} {e : QueueEvent T} (h : Counted check s events)
    (hw : s.threads t=.waiting) (hl : s.shared.lookForWork nBatchSize t.isNone=(q,x,e)) :
    (e.isReturn=false → Counted check ⟨q,Function.update s.threads t x⟩ (events++[e])) ∧
      ∀ fRet, e=.returned fRet →
        Finished check events fRet q ∧ Counted check ⟨q,Function.update s.threads t x⟩ [] := by
  rw [CheckQueue.lookForWork] at hl
  split at hl
  · rename_i he
    split at hl
    · rename_i hm
      rw [List.isEmpty_iff] at he
      rw [Bool.and_eq_true,beq_iff_eq] at hm
      cases hl
      refine ⟨nofun,?_⟩
      rintro fRet ⟨⟩
      exact h.finished he hm.2
    · cases hl
      refine ⟨fun _ => ?_,nofun⟩
      have hs : Passing check (LoopState.waiting : LoopState T) ↔ Passing check (s.threads t) := by
        rw [hw]
      have hu := h.update (by rw [hw]) hs trivial
      exact ⟨hu.todo,hu.once,hu.verdict,hu.batches⟩
  · rename_i he
    rw [List.isEmpty_iff] at he
    cases hl
    exact ⟨fun _ => h.take hw (batchSize_pos nBatchSize _) (batchSize_le he),nofun⟩

lemma Counted.step {e : QueueEvent T} {s' : CheckPool T n}
    (h : Counted check s events) (hs : Step check nBatchSize s e s') :
    (e.isReturn=false → Counted check s' (events++[e])) ∧
      ∀ fRet, e=.returned fRet → Finished check events fRet s'.shared ∧ Counted check s' [] := by
  cases hs with
  | add v hm => exact ⟨fun _ => h.add v,nofun⟩
  | wait hm =>
    refine ⟨fun _ => h.update ?_ ?_ fun _ => ⟨rfl,rfl⟩,nofun⟩
    · rw [hm]
      rfl
    · rw [hm]
      simp [Passing,LoopState.entered]
  | runCheck hr => exact ⟨fun _ => h.runCheck hr,nofun⟩
  | @enter t _ _ _ _ _ hr hl =>
    have hc := (h.cleanUp hr).lookForWork (Function.update_self t _ s.threads) hl
    simpa only [Function.update_idem] using hc
  | wake hw hl =>
    have hwo : Counted check ⟨s.shared.wakeUp,s.threads⟩ events :=
        ⟨h.todo,h.once,h.verdict,h.batches⟩
    exact hwo.lookForWork hw hl

lemma Reached.counted (h : Reached check nBatchSize s events) : Counted check s events := by
  induction h with
  | initial => exact counted_initial
  | step hr hs he ih => exact (ih.step hs).1 he
  | returned hr hs ih => exact ((ih.step hs).2 _ rfl).2

/-- Parallel script checking gives the sequential verdict: in every reached state nTodo counts the
queued checks and those in unfinished batches, and when Wait returns, every check added since the
last time has been taken exactly once and the verdict is that of all of them. -/
theorem wait_sequential_verdict {nBatchSize : Nat} (h : Reached check nBatchSize s events) :
    s.shared.nTodo=s.shared.queue.length+∑ t, pending (s.threads t) ∧
    ∀ fRet s', Step check nBatchSize s (.returned fRet) s' →
      (taken events).Perm (added events) ∧
      (fRet ↔ ∀ c∈added events, check c) ∧
      s'.shared.queue=[] ∧ s'.shared.nTodo=0 ∧ s'.shared.fAllOk := by
  refine ⟨h.counted.todo,fun fRet s' hs => ?_⟩
  have hf := ((h.counted.step hs).2 fRet rfl).1
  exact ⟨hf.once,hf.verdict,hf.queue,hf.nTodo,hf.fAllOk⟩

lemma lookForWork_queue {q q' : CheckQueue T} {b : Bool} {e : QueueEvent T}
    (h : q.lookForWork nBatchSize b=(q',x,e)) (hq : x=.waiting ∨ q.queue=[]) : q'.queue=[] := by
  grind [CheckQueue.lookForWork]

lemma Step.idle {e : QueueEvent T} {s' : CheckPool T n} (hs : Step check nBatchSize s e s')
    (h : s.threads none=.waiting → s.shared.queue=[]) (hw : s'.threads none=.waiting) :
    s'.shared.queue=[] := by
  cases hs with
  | add v hm => cases hm.symm.trans hw
  | wait hm => cases hw
  | @runCheck t =>
    cases t with
    | none => cases hw
    | some t => exact h hw
  | @enter t _ _ _ _ _ _ hl =>
    refine lookForWork_queue hl ?_
    cases t with
    | none => exact .inl hw
    | some t => grind [CheckQueue.cleanUp]
  | @wake t _ _ _ _ hl =>
    refine lookForWork_queue hl ?_
    cases t with
    | none => exact .inl hw
    | some t => exact .inr (h hw)

/-- While the master waits, in any interleaving, nothing is queued, and as long as something is left
to do a worker has a batch. -/
theorem waits_for_batch {nBatchSize : Nat} (h : Reached check nBatchSize s events)
    (hw : s.threads none=.waiting) : s.shared.queue=[] ∧
      (s.shared.nTodo≠0 → ∃ i, 0<pending (s.threads (some i))) := by
  have hq : s.threads none=.waiting → s.shared.queue=[] := by
    clear hw
    induction h with
    | initial => rintro ⟨⟩
    | step _ hs _ ih | returned _ hs ih => exact hs.idle ih
  refine ⟨hq hw,fun ht => ?_⟩
  have hc := h.counted.todo
  rw [hq hw,Fintype.sum_option,hw] at hc
  by_contra hn
  exact ht (hc.trans (by simpa [pending] using hn))
end

/- Of two checks a worker takes the one that fails and the master the other; the master waits for the
worker, which goes to sleep before it returns. -/
theorem wait_sequential_verdict_two_checks : ∃ (s s' : CheckPool Bool 1) (fRet : Bool),
    Reached id 128 s [.added [true,false],.taken [false],.silent,.taken [true],.silent,.silent,
      .silent,.silent] ∧
    Step id 128 s (.returned fRet) s' ∧ (fRet ↔ ∀ c∈[true,false], id c=true) ∧ fRet=false := by
  have hadd : Reached id 128 _ [.added [true,false]] :=
    Reached.step (.initial (n := 1)) (Step.add [true,false] rfl) rfl
  have hworker := hadd.step (Step.enter (t := some 0) rfl rfl) rfl
  have hwait := hworker.step (Step.wait rfl) rfl
  have hmaster := hwait.step (Step.enter (t := none) rfl rfl) rfl
  have hpassed := hmaster.step (Step.runCheck (t := none) rfl) rfl
  have hwaiting := hpassed.step (Step.enter (t := none) rfl rfl) rfl
  have hfailed := hwaiting.step (Step.runCheck (t := some 0) rfl) rfl
  have hasleep := hfailed.step (Step.enter (t := some 0) rfl rfl) rfl
  refine ⟨_,_,false,hasleep,Step.wake (t := none) rfl rfl,?_,rfl⟩
  exact ((wait_sequential_verdict hasleep).2 false _ (Step.wake (t := none) rfl rfl)).2.1

theorem waits_for_batch_one_check : ∃ s : CheckPool Bool 1, s.shared.nTodo=1 ∧
    s.threads none=.waiting ∧ ∃ i, 0<pending (s.threads (some i)) := by
  have ha : Reached id 128 _ _ := Reached.step (.initial (n := 1)) (Step.add [false] rfl) rfl
  have ht := ha.step (Step.enter (t := some 0) rfl rfl) rfl
  have hr := (ht.step (Step.wait rfl) rfl).step (Step.enter (t := none) rfl rfl) rfl
  exact ⟨_,rfl,rfl,(waits_for_batch hr rfl).2 Nat.one_ne_zero⟩
end CheckPool
end Xero
