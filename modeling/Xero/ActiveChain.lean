import Xero.Library.Buffers
import Xero.Library.LowerBound
import Xero.SkipList

/-! CChain: the vector of the active chain holds the ancestors of the tip by height, whatever tips
were set, and is searched for forks and times. -/
namespace Xero
open Library List
variable {B : Type} [DecidableEq B]

/- vChain; nullptr outside its heights. -/
abbrev CChain (B : Type) := List (List B)

namespace CChain
def entryAt (vChain : CChain B) (nHeight : Nat) : List B := vChain.getD nHeight []

def contains (vChain : CChain B) (pindex : List B) : Bool :=
  decide (vChain.entryAt (pindex.length-1)=pindex)

/- The loop of SetTip, which stops at the first slot that holds the block already. -/
def setLoop (vChain : CChain B) : List B → CChain B
  | [] => vChain
  | b::pprev =>
    if vChain.entryAt pprev.length=b::pprev then vChain
    else setLoop (vChain.set pprev.length (b::pprev)) pprev

def setTip (vChain : CChain B) (block : List B) : CChain B :=
  setLoop (resize [] vChain block.length) block
def forkLoop (vChain : CChain B) : List B → List B
  | [] => []
  | b::pprev => if vChain.contains (b::pprev) then b::pprev else forkLoop vChain pprev
def findFork (vChain : CChain B) (pskip : List B → List B) (pindex : List B) : Option (List B) :=
  (if vChain.length<pindex.length then getAncestor pskip pindex ((vChain.length : Int)-1)
    else some pindex).map vChain.forkLoop

/- AddToBlockIndex: the latest time on the branch. -/
def nTimeMax (time : B → Nat) : List B → Nat
  | [] => 0
  | b::pprev => max (nTimeMax time pprev) (time b)

def tooLow (vChain : CChain B) (time : B → Nat) (nTime height : Int) (i : Nat) : Bool :=
  decide ((nTimeMax time (vChain.entryAt i) : Int)<nTime ∨
      ((vChain.entryAt i).length : Int)-1<height)
def findEarliestAtLeast (vChain : CChain B) (time : B → Nat) (nTime height : Int) : List B :=
  vChain.entryAt (lowerBound (vChain.tooLow time nTime height) 0 vChain.length)

/-- The slots hold the ancestors of the tip, each at its height. -/
structure Mirrors (tip : List B) (vChain : CChain B) : Prop where
  length : vChain.length=tip.length
  entries : ∀ i<tip.length, vChain.entryAt i=tip.drop (tip.length-1-i)

/- Below `n`, a slot that is not empty holds a block of its height and those below its ancestors. -/
def Chained (n : Nat) (vChain : CChain B) : Prop :=
  ∀ i<n, vChain.entryAt i≠[] → ∀ j ≤ i, vChain.entryAt j=(vChain.entryAt i).drop (i-j)

variable {vChain : CChain B} {tip p : List B}

omit [DecidableEq B] in
lemma Mirrors.chained_resize (h : Mirrors tip vChain) (n : Nat) :
    Chained n (resize [] vChain n) := by
  have hke {k} (hk : k<n) : entryAt (resize [] vChain n) k=vChain.entryAt k := by
    simp only [entryAt,resize,getD_eq_getElem?_getD,getElem?_append,length_take]
    by_cases hin : k<vChain.length
    · rw [if_pos (by omega),getElem?_take_of_lt hk]
    · rw [if_neg (by omega),getElem?_replicate_of_lt (by omega),
        getElem?_eq_none (by omega : vChain.length≤k)]
      rfl
  intro i hi hn j hj
  rw [hke hi] at hn ⊢
  rw [hke (by omega)]
  have hin : i<tip.length := by
    by_contra ho
    exact hn (getD_eq_default _ _ (by rw [h.length]; omega))
  rw [h.entries i hin,h.entries j (by omega),drop_drop]
  congr 1
  omega

/- The slots below the one that matched are right already. -/
lemma setLoop_spec (hle : p.length≤vChain.length) (hc : Chained p.length vChain) :
    (vChain.setLoop p).length=vChain.length ∧
    (∀ i<p.length, (vChain.setLoop p).entryAt i=p.drop (p.length-1-i)) ∧
    (∀ i, p.length ≤ i → (vChain.setLoop p).entryAt i=vChain.entryAt i) := by
  induction p generalizing vChain with
  | nil => exact ⟨rfl,nofun,fun _ _ => rfl⟩
  | cons b pp ih =>
    rw [length_cons] at hle hc ⊢
    rw [setLoop]
    split
    · rename_i hm
      refine ⟨rfl,fun i hi => ?_,fun _ _ => rfl⟩
      rw [hc pp.length (by omega) (by rw [hm]; simp) i (by omega),hm]
      rfl
    · have hs {i} (hi : i≠pp.length) : entryAt (vChain.set pp.length (b::pp))
          i=vChain.entryAt i := by
        simp [entryAt,getD_eq_getElem?_getD,getElem?_set_ne hi.symm]
      have hr : Chained pp.length (vChain.set pp.length (b::pp)) := by
        intro i hi hn j hj
        rw [hs (by omega)] at hn ⊢
        rw [hs (by omega)]
        exact hc i (by omega) hn j hj
      obtain ⟨hl,hb,ha⟩ := ih (by rw [length_set]; omega) hr
      refine ⟨by rw [hl,length_set],fun i hi => ?_,fun i hi => ?_⟩
      · obtain hlt | rfl := Nat.lt_succ_iff_lt_or_eq.1 hi
        · rw [hb i hlt,show pp.length+1-1-i=pp.length-1-i+1 by omega,drop_succ_cons]
        · rw [ha _ le_rfl,Nat.add_sub_cancel,Nat.sub_self]
          simp [entryAt,getD_eq_getElem?_getD,getElem?_set_self
              (show pp.length<vChain.length by omega)]
      · rw [ha i (by omega),hs (by omega)]

section
variable (h : Mirrors tip vChain)
include h

lemma Mirrors.setTip (blk : List B) : Mirrors blk (vChain.setTip blk) := by
  have hl := length_resize [] vChain blk.length
  obtain ⟨hle,hb,_⟩ := setLoop_spec hl.ge (h.chained_resize blk.length)
  exact ⟨hle.trans hl,hb⟩

lemma Mirrors.foldl (t : List (List B)) :
    Mirrors (t.getLastD tip) (t.foldl CChain.setTip vChain) := by
  induction t generalizing tip vChain with
  | nil => exact h
  | cons b t ih =>
    rw [getLastD_cons]
    exact ih (h.setTip b)

lemma Mirrors.contains_iff (hne : p≠[]) : vChain.contains p ↔ p <:+ tip := by
  have hp := length_pos_iff.2 hne
  rw [contains,decide_eq_true_eq,suffix_iff_eq_drop]
  by_cases hl : p.length≤tip.length
  · rw [h.entries _ (by omega),show tip.length-1-(p.length-1)=tip.length-p.length by omega,eq_comm]
  · have hn : vChain.entryAt (p.length-1)=[] := getD_eq_default _ _ (by rw [h.length]; omega)
    rw [hn,Nat.sub_eq_zero_of_le (by omega)]
    refine iff_of_false (fun hni => hne hni.symm) ?_
    rintro rfl
    omega

lemma Mirrors.forkLoop_spec (p : List B) : LastCommon p tip (vChain.forkLoop p) := by
  induction p with
  | nil => exact ⟨suffix_rfl,nil_suffix,fun _ hc _ => hc⟩
  | cons b pp ih =>
    rw [forkLoop]
    split
    · rename_i hi
      exact ⟨suffix_rfl,(h.contains_iff (cons_ne_nil _ _)).1 hi,fun _ hc _ => hc⟩
    · rename_i ho
      refine ⟨ih.1.trans (suffix_cons b pp),ih.2.1,fun c hc ht => ih.2.2 c ?_ ht⟩
      refine suffix_of_suffix_cons hc ?_
      rintro rfl
      exact ho ((h.contains_iff (cons_ne_nil _ _)).2 ht)
end

lemma Mirrors.findFork_spec {s : SkipIndex B} (hs : s.Sound) (h : Mirrors tip vChain)
    (hp : p∈s.entries) : ∃ r, vChain.findFork s.pskip p=some r ∧ LastCommon p tip r := by
  have hl := levelWith_eq hs hp tip
  rw [levelWith,← h.length] at hl
  refine ⟨_,by rw [findFork,hl]; rfl,?_⟩
  have hf := h.forkLoop_spec (p.drop (p.length-vChain.length))
  by_cases hle : p.length≤vChain.length
  · rw [Nat.sub_eq_zero_of_le hle] at hf ⊢
    exact hf
  · exact hf.of_drop (by rw [length_drop,← h.length]; omega)

omit [DecidableEq B] in
lemma nTimeMax_mono (t : B → Nat) {q : List B} (h : p <:+ q) : nTimeMax t p≤nTimeMax t q := by
  induction q with
  | nil => rw [suffix_nil.1 h]
  | cons b pp ih =>
    obtain rfl | h := suffix_cons_iff.1 h
    · exact le_rfl
    · exact (ih h).trans (le_max_left _ _)

/-- The lowest block of the branch that is late and high enough, nullptr if there is none. -/
def Earliest (time : B → Nat) (nTime height : Int) (tip r : List B) : Prop :=
  (r≠[] → r <:+ tip ∧ nTime≤nTimeMax time r ∧ height≤(r.length : Int)-1) ∧
  ∀ c, c≠[] → c <:+ tip → nTime≤nTimeMax time c → height≤(c.length : Int)-1 → r≠[] ∧ r <:+ c

omit [DecidableEq B] in
lemma Mirrors.earliest (h : Mirrors tip vChain) (t : B → Nat) (nt ht : Int) :
    Earliest t nt ht tip (vChain.findEarliestAtLeast t nt ht) := by
  have hs {i} (hi : i<tip.length) : (vChain.entryAt i).length=i+1 ∧ vChain.entryAt i <:+ tip := by
    rw [h.entries i hi,length_drop]
    exact ⟨by omega,drop_suffix _ _⟩
  have hp i j (hij : i≤j) (hj : j<0+tip.length) (hl : vChain.tooLow t nt ht j) :
      vChain.tooLow t nt ht i := by
    rw [Nat.zero_add] at hj
    have hi := hs (hij.trans_lt hj)
    have hm := nTimeMax_mono t (suffix_of_suffix_length_le hi.2 (hs hj).2 (by
      rw [(hs hj).1]
      omega))
    rw [tooLow,decide_eq_true_eq,(hs hj).1] at hl
    rw [tooLow,decide_eq_true_eq]
    omega
  obtain ⟨-,-,hb,ha⟩ := lowerBound_spec hp
  rw [Nat.zero_add] at ha
  rw [findEarliestAtLeast,h.length]
  generalize lowerBound _ 0 tip.length=k at hb ha ⊢
  refine ⟨fun hne => ?_,fun c hne hc hti hh => ?_⟩
  · have hk : k<tip.length := by
      by_contra ho
      exact hne (getD_eq_default _ _ (by rw [h.length]; omega))
    have hf := ha k le_rfl hk
    rw [tooLow,decide_eq_false_iff_not] at hf
    exact ⟨(hs hk).2,by omega,by omega⟩
  · have hpo := length_pos_iff.2 hne
    have hle := hc.length_le
    have he : vChain.entryAt (c.length-1)=c := by
      rw [h.entries _ (by omega),show tip.length-1-(c.length-1)=tip.length-c.length by omega]
      exact (suffix_iff_eq_drop.1 hc).symm
    have hk : k ≤ c.length-1 := by
      by_contra hla
      have hl := hb (c.length-1) (Nat.zero_le _) (by omega)
      rw [tooLow,he,decide_eq_true_eq] at hl
      omega
    have hr := hs (show k<tip.length by omega)
    refine ⟨fun hn => ?_,suffix_of_suffix_length_le hr.2 hc (by omega)⟩
    rw [hn,length_nil] at hr
    omega

lemma ne_nil_of_built {s : SkipIndex B} (hs : s.Built) (hp : p∈s.entries) : p≠[] := by
  induction hs with
  | empty => cases hp
  | add _ _ ha ih =>
    rw [SkipIndex.addToBlockIndex] at ha
    split at ha
    · obtain rfl := Option.some.inj ha
      exact ih hp
    · obtain ⟨_,-,rfl⟩ := Option.map_eq_some_iff.1 ha
      obtain rfl | hp := mem_cons.1 hp
      · exact cons_ne_nil _ _
      · exact ih hp

/-- Whatever blocks of the tree the chain is set to in turn, it mirrors the branch of the last. -/
theorem activeChain_mirrors {s : SkipIndex B} (hs : s.Built) (time : B → Nat) {tips : List (List B)}
    {vChain : CChain B} (hrun : tips.foldl setTip []=vChain) : Mirrors (tips.getLastD []) vChain ∧
    (∀ p∈s.entries, vChain.contains p ↔ p <:+ tips.getLastD []) ∧
    (∀ p∈s.entries, ∃ r, vChain.findFork s.pskip p=some r ∧ LastCommon p (tips.getLastD []) r) ∧
    ∀ nTime height, Earliest time nTime height (tips.getLastD [])
      (vChain.findEarliestAtLeast time nTime height) := by
  have he : Mirrors ([] : List B) [] := ⟨rfl,nofun⟩
  have hc := hrun ▸ he.foldl tips
  exact ⟨hc,fun p hp => hc.contains_iff (ne_nil_of_built hs hp),
    fun p hp => hc.findFork_spec hs.sound hp,hc.earliest time⟩

/- The chain grows to height 8, switches to the other branch and loses its last block. -/
theorem activeChain_mirrors_switched : ∃ s : SkipIndex Nat, s.Built ∧ s.entries=forkedEntries ∧
    ∃ vChain, [[5,4,3,2,1,0],[8,7,6,5,4,3,2,1,0],[17,16,5,4,3,2,1,0],[16,5,4,3,2,1,0]].foldl
        setTip []=vChain ∧
      Mirrors [16,5,4,3,2,1,0] vChain ∧
      vChain.contains [5,4,3,2,1,0] ∧ ¬vChain.contains [6,5,4,3,2,1,0] ∧
      vChain.findFork s.pskip [8,7,6,5,4,3,2,1,0]=some [5,4,3,2,1,0] ∧
      vChain.findEarliestAtLeast id 4 2=[4,3,2,1,0] := by
  obtain ⟨s,hs,he⟩ := SkipIndex.exists_built (show growsFrom forkedEntries by decide)
  have hrun : [[5,4,3,2,1,0],[8,7,6,5,4,3,2,1,0],[17,16,5,4,3,2,1,0],[16,5,4,3,2,1,0]].foldl
      setTip []=_ := rfl
  obtain ⟨hmirrors,hcontains,hfork,hearliest⟩ := activeChain_mirrors hs id hrun
  rw [he] at hcontains hfork
  refine ⟨s,hs,he,_,rfl,hmirrors,(hcontains _ (by decide)).2 (by decide),
    fun h => absurd ((hcontains _ (by decide)).1 h) (by decide),?_,?_⟩
  · obtain ⟨r,hr,hlast⟩ := hfork [8,7,6,5,4,3,2,1,0] (by decide)
    have hmeet : LastCommon [8,7,6,5,4,3,2,1,0] [16,5,4,3,2,1,0] [5,4,3,2,1,0] := by
      obtain ⟨ha,hb,hc⟩ := forkedEntries_lastCommon
      exact ⟨ha,by decide,fun c h h' => hc c h (h'.trans (suffix_cons 17 _))⟩
    rw [hlast.unique hmeet] at hr
    exact hr
  · obtain ⟨hsound,hleast⟩ := hearliest 4 2
    obtain ⟨hne,hsuffix⟩ := hleast [4,3,2,1,0] (by decide) (by decide) (by decide) (by decide)
    obtain ⟨_,htime,_⟩ := hsound hne
    have honly : ∀ r∈tails [4,3,2,1,0], 4≤nTimeMax id r → r=[4,3,2,1,0] := by decide
    exact honly _ ((mem_tails _ _).2 hsuffix) (by exact_mod_cast htime)
end CChain
end Xero
