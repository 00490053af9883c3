import Xero.BlockManager
import Xero.Library.Branches

/-! How the chainstate picks and activates the best chain among its candidates. `none` is a failed
assertion of the source, or a loop out of fuel. -/
namespace Xero
open Library List Function
variable {B : Type}
namespace BlockIndexState
/-- InvalidChainFound: a best header above the invalid block falls back to the tip. -/
def invalidChainFound [DecidableEq B] (s : BlockIndexState B) (b : List B) : BlockIndexState B :=
  {s with
    bestInvalid :=
      match s.bestInvalid with
      | none => some b
      | some worst => if s.nChainWork worst < s.nChainWork b then some b else some worst
    bestHeader := if b <:+ s.bestHeader then s.tip else s.bestHeader}

variable [DecidableEq B]

def eraseCandidate (s : BlockIndexState B) (b : List B) : BlockIndexState B :=
  {s with setBlockIndexCandidates := s.setBlockIndexCandidates.filter (fun c => !decide (c=b))}
def insertCandidate (s : BlockIndexState B) (b : List B) : BlockIndexState B :=
  {s with setBlockIndexCandidates := s.setBlockIndexCandidates.insert b}
def setFailedValid (s : BlockIndexState B) (b : List B) : BlockIndexState B :=
  {s with failedValid := update s.failedValid b true}

/- InvalidBlockFound; ConnectBlock stops the node rather than call a block mutated. -/
def invalidBlockFound (s : BlockIndexState B) (b : List B) : BlockIndexState B :=
  ({s.setFailedValid b with failedBlocks := s.failedBlocks.insert b}.eraseCandidate
      b).invalidChainFound b

/- The set is ordered, so what is worse than the tip is at its front. -/
def withoutWorse (params : ChainParams B) (s : BlockIndexState B) : BlockIndexState B :=
  {s with
    setBlockIndexCandidates :=
      s.setBlockIndexCandidates.filter (fun c => !s.sortsWorse params c s.tip)}

/-- PruneBlockIndexCandidates, which asserts that a candidate is left. -/
def pruneBlockIndexCandidates (params : ChainParams B) (s : BlockIndexState B) :
    Option (BlockIndexState B) :=
  if (s.withoutWorse params).setBlockIndexCandidates=[] then none
  else some (s.withoutWorse params)

/- The walk of FindMostWorkChain from a candidate to the active chain: the first unusable block on
it. -/
def firstUnusable (s : BlockIndexState B) : List B → Option (Option (List B))
  | [] => some none
  | x::prev =>
    if x::prev <:+ s.tip then some none
    else if !s.haveTxsDownloaded (x::prev) && s.nHeight (x::prev) != 0 then none
    else if s.failed (x::prev) || !s.haveData (x::prev) then some (some (x::prev))
    else firstUnusable s prev

/- Takes the blocks from `walk` down to, and without, `test` out of the candidates. -/
def dropBranch (test : List B) (failedChain : Bool) : List B → BlockIndexState B → BlockIndexState B
  | [], s => s
  | x::prev, s =>
    if x::prev=test then s
    else dropBranch test failedChain prev
      {s.eraseCandidate (x::prev) with
        failedChild :=
          if failedChain then update s.failedChild (x::prev) true else s.failedChild
        blocksUnlinked :=
          if failedChain then s.blocksUnlinked else s.blocksUnlinked++[x::prev]}

/- What FindMostWorkChain does with the candidate `new` once `test` was found unusable. -/
def dropUnusable (s : BlockIndexState B) (test new : List B) : BlockIndexState B :=
  let bestInvalid :=
    if s.failed test then
      match s.bestInvalid with
      | none => some new
      | some worst => if s.nChainWork worst < s.nChainWork new then some new else some worst
    else s.bestInvalid
  (dropBranch test (s.failed test) new {s with bestInvalid := bestInvalid}).eraseCandidate test

lemma firstUnusable_suffix {s : BlockIndexState B} {new t : List B}
    (h : s.firstUnusable new=some (some t)) : t≠[] ∧ t <:+ new := by
  induction new with
  | nil => cases h
  | cons x p ih =>
    rw [firstUnusable] at h
    split at h
    · cases h
    · split at h
      · cases h
      · split at h
        · cases h
          exact ⟨cons_ne_nil x p,suffix_rfl⟩
        · obtain ⟨hn,hs⟩ := ih h
          exact ⟨hn,hs.trans (suffix_cons x p)⟩

def blocksAbove (fork : List B) : List B → List (List B)
  | [] => []
  | x::prev => if x::prev=fork then [] else (x::prev)::blocksAbove fork prev

lemma dropBranch_eq {t new : List B} (hs : t <:+ new) (fc : Bool) (s : BlockIndexState B) :
    dropBranch t fc new s={s with
      setBlockIndexCandidates :=
        s.setBlockIndexCandidates.filter (fun c => !decide (Above t new c))
      failedChild := fun c => s.failedChild c || (fc && decide (Above t new c))
      blocksUnlinked :=
        if fc then s.blocksUnlinked else s.blocksUnlinked++blocksAbove t new} := by
  induction new generalizing s with
  | nil => simp [suffix_nil.mp hs,dropBranch,not_above_self,blocksAbove]
  | cons x p ih =>
    rw [dropBranch,blocksAbove]
    split
    · rename_i he
      simp [← he,not_above_self]
    · rename_i hn
      have hp := suffix_of_suffix_cons hs hn
      have ha : ∀ c, decide (Above t (x::p) c)=
          (decide (c=x::p) || decide (Above t p c)) := fun c => by
        rw [decide_eq_decide.mpr (above_cons_iff hp),Bool.decide_or]
      rw [ih hp]
      simp only [eraseCandidate,ha,filter_filter,mk.injEq,true_and,and_true]
      refine ⟨?_,?_,?_⟩
      · funext c
        by_cases he : c=x::p
        · cases fc <;> simp [he]
        · cases fc <;> simp [he]
      · congr 1
        funext c
        rw [Bool.not_or,Bool.and_comm]
      · cases fc <;> simp

lemma dropUnusable_candidates {t new : List B} (hs : t <:+ new) (s : BlockIndexState B) :
    (s.dropUnusable t new).setBlockIndexCandidates=
      s.setBlockIndexCandidates.filter (fun c => !decide (t <:+ c ∧ c <:+ new)) := by
  simp only [dropUnusable,eraseCandidate,dropBranch_eq hs,filter_filter]
  congr 1
  funext c
  by_cases he : c=t
  · subst he
    simp [hs]
  · simp [Above,he]

lemma length_dropUnusable_lt {params : ChainParams B} {s : BlockIndexState B}
    {new t : List B} (hn : best (s.sortsWorse params) s.setBlockIndexCandidates=some new)
    (h : s.firstUnusable new=some (some t)) :
    (s.dropUnusable t new).setBlockIndexCandidates.length<
      s.setBlockIndexCandidates.length := by
  have hs := (firstUnusable_suffix h).2
  rw [dropUnusable_candidates hs]
  exact length_filter_lt_length_iff_exists.mpr ⟨new,mem_of_best hn,by simp [hs]⟩

/-- FindMostWorkChain: the best candidate that has a usable branch. -/
def findMostWorkChain (params : ChainParams B) (s : BlockIndexState B) :
    Option (Option (List B)×BlockIndexState B) :=
  match _hnew : best (s.sortsWorse params) s.setBlockIndexCandidates with
  | none => some (none,s)
  | some new =>
    match _h : s.firstUnusable new with
    | none => none
    | some none => some (some new,s)
    | some (some test) => findMostWorkChain params (s.dropUnusable test new)
termination_by s.setBlockIndexCandidates.length
decreasing_by exact length_dropUnusable_lt _hnew _h

/- ConnectBlock records its undo data and the validity it has established. -/
def tipConnected (s : BlockIndexState B) (b : List B) : BlockIndexState B :=
  {s with haveUndo := update s.haveUndo b true, tip := b}.raiseValidity b
    blockValidScripts

/-- ConnectTip, with whether the block is valid. -/
def connectTip (params : ChainParams B) (s : BlockIndexState B) (b : List B) :
    Option (Bool×BlockIndexState B) :=
  if b.tail≠s.tip then none
  else if params.connects b then some (true,s.tipConnected b)
  else some (false,s.invalidBlockFound b)

inductive ConnectEnd where
  | reached
  | improved
  | invalidFound
  deriving DecidableEq, Repr

/- Connects blocks from low to high, up to `front`, until the chain has more work than `oldWork`. -/
def connectBlocks (params : ChainParams B) (oldWork : Nat) (front : List B) :
    List (List B) → BlockIndexState B → Option (ConnectEnd×BlockIndexState B)
  | [], s => some (.reached,s)
  | b::bs, s =>
    match s.connectTip params b with
    | none => none
    | some (false,s') => some (.invalidFound,s'.invalidChainFound front)
    | some (true,s') =>
      match s'.pruneBlockIndexCandidates params with
      | none => none
      | some s'' =>
        if oldWork < s''.nChainWork s''.tip then some (.improved,s'')
        else connectBlocks params oldWork front bs s''

/- The blocks are taken in rows of at most 32. -/
def connectRows (params : ChainParams B) (oldWork : Nat) (blocks : List (List B))
    (s : BlockIndexState B) : Option (ConnectEnd×BlockIndexState B) :=
  if h : blocks=[] then some (.reached,s)
  else
    let row := blocks.take 32
    match connectBlocks params oldWork (row.getLast (by simp [row,h])) row s with
    | none => none
    | some (.reached,s') => connectRows params oldWork (blocks.drop 32) s'
    | some (r,s') => some (r,s')
termination_by blocks.length
decreasing_by
  have := length_pos_iff.mpr h
  simp only [length_drop]
  omega

/- CChain::FindFork: the highest ancestor in the active chain. -/
def findFork (s : BlockIndexState B) : List B → List B
  | [] => []
  | x::prev => if x::prev <:+ s.tip then x::prev else findFork s prev

def disconnectTips (fork : List B) : List B → List B
  | [] => []
  | x::prev => if x::prev=fork then x::prev else disconnectTips fork prev

/-- ActivateBestChainStep, with whether it found an invalid block. -/
def activateBestChainStep (params : ChainParams B) (mostWork : List B)
    (s : BlockIndexState B) : Option (Bool×BlockIndexState B) :=
  let fork := s.findFork mostWork
  let disconnected := {s with tip := disconnectTips fork s.tip}
  match connectRows params (s.nChainWork s.tip) (blocksAbove fork mostWork).reverse
      disconnected with
  | none => none
  | some (r,s') => some (decide (r=.invalidFound),s')

/- A target is only looked for when the last one was found invalid. -/
def nextTarget (params : ChainParams B) (s : BlockIndexState B) :
    Option (List B) → Option (Option (List B)×BlockIndexState B)
  | some m => some (some m,s)
  | none => s.findMostWorkChain params

/- One round of the inner loop of ActivateBestChain for each unit of fuel; `connected` is
blocks_connected, and a new round of the outer loop starts where `startingTip` is set. -/
def activateLoop (params : ChainParams B) : Nat → Option (List B) → List B → Bool →
    BlockIndexState B → Option (BlockIndexState B)
  | 0, _, _, _, _ => none
  | fuel+1, mostWork, startingTip, connected, s =>
    match s.nextTarget params mostWork with
    | none => none
    | some (none,s) =>
      if connected then activateLoop params fuel none s.tip false s else some s
    | some (some m,s) =>
      if m=s.tip then some s
      else
        match s.activateBestChainStep params m with
        | none => none
        | some (invalidFound,s') =>
          let next := if invalidFound then none else some m
          if s'.sortsWorse params s'.tip startingTip then
            activateLoop params fuel next startingTip true s'
          else if next=some s'.tip then some s'
          else activateLoop params fuel next s'.tip false s'

def activateBestChain (params : ChainParams B) (fuel : Nat) (s : BlockIndexState B) :
    Option (BlockIndexState B) :=
  activateLoop params fuel none s.tip false s
end BlockIndexState
end Xero
