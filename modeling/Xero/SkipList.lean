import Xero.Library.Branches
import Xero.VersionBits

/-! The skip pointers of the block index: GetAncestor jumps along them and answers what walking
pprev answers. An entry is the list of its blocks down to a root, and [] is nullptr. -/
namespace Xero
open Library List Function
variable {B : Type} [DecidableEq B]
attribute [local instance] lawfulBEq_path

def invertLowestOne (n : Nat) : Nat := n &&& (n-1)
def getSkipHeight (height : Nat) : Nat :=
  if height<2 then 0
  else if height%2=1 then invertLowestOne (invertLowestOne (height-1))+1
  else invertLowestOne height

lemma invertLowestOne_le (n : Nat) : invertLowestOne n≤n-1 := Nat.and_le_right

lemma getSkipHeight_lt {ht : Nat} (h : 0<ht) : getSkipHeight ht<ht := by
  have ho := invertLowestOne_le ht
  have htw := invertLowestOne_le (ht-1)
  have hth := invertLowestOne_le (invertLowestOne (ht-1))
  unfold getSkipHeight
  split
  · exact h
  · split <;> omega

/-- The loop of GetAncestor; `none` is a failed assertion. The height it keeps falls whatever the
pointers are. -/
def ancestorWalk (pskip : List B → List B) (height : Nat) (pindexWalk : List B) (heightWalk : Nat) :
    Option (List B) :=
  if h : height<heightWalk then
    let heightSkip := getSkipHeight heightWalk
    let heightSkipPrev := getSkipHeight (heightWalk-1)
    if pskip pindexWalk≠[] ∧ (heightSkip=height ∨
        height<heightSkip ∧ ¬(heightSkipPrev+2<heightSkip ∧ height≤heightSkipPrev)) then
      ancestorWalk pskip height (pskip pindexWalk) heightSkip
    else if pindexWalk.tail=[] then none
    else ancestorWalk pskip height pindexWalk.tail (heightWalk-1)
  else some pindexWalk
termination_by heightWalk
decreasing_by
  · exact getSkipHeight_lt (by omega)
  · omega

def getAncestor (pskip : List B → List B) (pindex : List B) (height : Int) : Option (List B) :=
  if (pindex.length : Int)-1<height ∨ height<0 then some []
  else ancestorWalk pskip height.toNat pindex (pindex.length-1)

structure SkipIndex (B : Type) where
  entries : List (List B)
  pskip : List B → List B

def buildSkip (pskip : List B → List B) (pprev : List B) : Option (List B) :=
  if pprev=[] then some [] else getAncestor pskip pprev (getSkipHeight pprev.length)

/-- AddToBlockIndex: a block whose parent is not in the index becomes a root. -/
def SkipIndex.addToBlockIndex (s : SkipIndex B) (block : B) (pprev : List B) :
    Option (SkipIndex B) :=
  if block::pprev∈s.entries then some s
  else (buildSkip s.pskip pprev).map fun skip =>
    ⟨(block::pprev)::s.entries,update s.pskip (block::pprev) skip⟩

inductive SkipIndex.Built : SkipIndex B → Prop
  | empty : Built ⟨[],fun _ => []⟩
  | add {s t : SkipIndex B} {block : B} {pprev : List B} (h : Built s)
      (hprev : pprev=[] ∨ pprev∈s.entries) (hadd : s.addToBlockIndex block pprev=some t) : Built t

/-- Parents are in the index, and a pskip pointer leads to the ancestor at the skip height. -/
structure SkipIndex.Sound (s : SkipIndex B) : Prop where
  pprev : ∀ p∈s.entries, p.tail≠[] → p.tail∈s.entries
  skips : ∀ p∈s.entries, s.pskip p =
    if p.tail=[] then [] else p.drop (p.length-1-getSkipHeight (p.length-1))

variable {s : SkipIndex B} {p : List B}

omit [DecidableEq B] in
lemma SkipIndex.Sound.drop_mem (h : s.Sound) (hp : p∈s.entries) {k : Nat} (hk : k<p.length) :
    p.drop k∈s.entries :=
  of_suffix h.pprev hp (drop_suffix k p) (by
    rw [Ne,drop_eq_nil_iff]
    omega)

omit [DecidableEq B] in
lemma ancestorWalk_eq (h : s.Sound) {ht heig : Nat} (hp : p∈s.entries) (hl : p.length=heig+1)
    (hle : ht≤heig) :
    ancestorWalk s.pskip ht p heig=some (p.drop (heig-ht)) := by
  fun_induction ancestorWalk s.pskip ht p heig with
  | case1 p heig hlt he hei hj ih =>
    have hs := h.skips p hp
    have hf : he<heig := getSkipHeight_lt (by omega)
    have hta : p.tail≠[] := fun hn => hj.1 (by rw [hs,if_pos hn])
    rw [if_neg hta,hl,Nat.add_sub_cancel] at hs
    rw [hs] at ih ⊢
    rw [ih (h.drop_mem hp (by omega)) (by rw [length_drop]; omega) (by omega),drop_drop]
    congr 2
    omega
  | case2 p heig hlt he hei hj hn =>
    rw [← length_eq_zero_iff,length_tail] at hn
    omega
  | case3 p heig hlt he hei hj hta ih =>
    rw [ih (h.pprev p hp hta) (by rw [length_tail]; omega) (by omega),drop_tail]
    congr 2
    omega
  | case4 p heig hlt =>
    rw [show heig-ht=0 by omega,drop_zero]

omit [DecidableEq B] in
lemma getAncestor_eq (h : s.Sound) (hp : p∈s.entries) (ht : Int) :
    getAncestor s.pskip p ht=some (ancestorAt p ht) := by
  by_cases ho : (p.length : Int)-1<ht ∨ ht<0
  · simp only [getAncestor,ancestorAt,if_pos ho]
  · simp only [getAncestor,ancestorAt,if_neg ho]
    rw [ancestorWalk_eq h hp (by omega) (by omega)]
    congr 2
    omega

omit [DecidableEq B] in
lemma buildSkip_eq (h : s.Sound) (blk : B) {pp : List B} (hp : pp=[] ∨ pp∈s.entries) :
    buildSkip s.pskip pp=some (if pp=[] then []
      else (blk::pp).drop (pp.length-getSkipHeight pp.length)) := by
  unfold buildSkip
  split
  · rfl
  · rename_i hn
    have hf := getSkipHeight_lt (length_pos_iff.2 hn)
    have hu : pp.length-getSkipHeight pp.length =
        ((pp.length : Int)-1-getSkipHeight pp.length).toNat+1 := by omega
    rw [getAncestor_eq h (hp.resolve_left hn),hu,drop_succ_cons]
    simp only [ancestorAt]
    rw [if_neg (by omega)]

lemma SkipIndex.Sound.add (h : s.Sound) (blk : B) {pprev : List B}
    (hpr : pprev=[] ∨ pprev∈s.entries) : ∃ t, s.addToBlockIndex blk pprev=some t ∧ t.Sound := by
  by_cases ho : blk::pprev∈s.entries
  · exact ⟨s,if_pos ho,h⟩
  · refine ⟨_,by rw [addToBlockIndex,if_neg ho,buildSkip_eq h blk hpr]; rfl,⟨?_,?_⟩⟩
    · intro p hp ht
      obtain rfl | hp := mem_cons.1 hp
      · exact mem_cons_of_mem _ (hpr.resolve_left ht)
      · exact mem_cons_of_mem _ (h.pprev p hp ht)
    · intro p hp
      obtain rfl | hp := mem_cons.1 hp
      · exact update_self _ _ _
      · have hn : p≠blk::pprev := fun he => ho (he ▸ hp)
        exact (update_of_ne hn _ _).trans (h.skips p hp)

lemma SkipIndex.Built.sound (h : s.Built) : s.Sound := by
  induction h with
  | empty => exact ⟨by simp,by simp⟩
  | add _ hp ha ih =>
    obtain ⟨t,ht,hs⟩ := ih.add _ hp
    obtain rfl := Option.some.inj (ht.symm.trans ha)
    exact hs

/- The climb of LastCommonAncestor from two entries of one height. -/
def climb : List B → List B → List B×List B
  | a::pa, b::pb => if a::pa=b::pb then (a::pa,b::pb) else climb pa pb
  | pa, pb => (pa,pb)

/- The ancestor of an entry at the height of a lower one, else the entry itself. -/
def levelWith (pskip : List B → List B) (pa pb : List B) : Option (List B) :=
  if pb.length<pa.length then getAncestor pskip pa ((pb.length : Int)-1) else some pa

def SkipIndex.lastCommonAncestor (s : SkipIndex B) (pa pb : List B) : Option (List B) := do
  let pa' ← levelWith s.pskip pa pb
  let pb' ← levelWith s.pskip pb pa
  if (climb pa' pb').1=(climb pa' pb').2 then some (climb pa' pb').1 else none

lemma climb_eq {pa pb : List B} (h : pa.length=pb.length) :
    ∃ r, climb pa pb=(r,r) ∧ LastCommon pa pb r := by
  induction pa generalizing pb with
  | nil =>
    obtain rfl := length_eq_zero_iff.1 h.symm
    exact ⟨[],rfl,.refl []⟩
  | cons a pa ih =>
    cases pb with
    | nil => cases h
    | cons b pb =>
      rw [climb]
      split
      · rename_i he
        exact ⟨a::pa,by rw [← he],he ▸ .refl _⟩
      · rename_i hn
        obtain ⟨r,hr,hc⟩ := ih (Nat.succ.inj h)
        refine ⟨r,hr,hc.1.trans (suffix_cons a pa),hc.2.1.trans (suffix_cons b pb),?_⟩
        intro c ha hb
        have hs : c≠a::pa := by
          rintro rfl
          exact hn (hb.eq_of_length h)
        have hs' : c≠b::pb := by
          rintro rfl
          exact hn (ha.eq_of_length h.symm).symm
        exact hc.2.2 c (suffix_of_suffix_cons ha hs.symm) (suffix_of_suffix_cons hb hs'.symm)

omit [DecidableEq B] in
lemma levelWith_eq (h : s.Sound) {pa : List B} (ha : pa∈s.entries) (pb : List B) :
    levelWith s.pskip pa pb=some (pa.drop (pa.length-pb.length)) := by
  unfold levelWith
  split
  · have hu : ((pa.length : Int)-1-((pb.length : Int)-1))=((pa.length-pb.length : Nat) :
        Int) := by omega
    rw [getAncestor_eq h ha]
    simp only [ancestorAt]
    split
    · rw [drop_eq_nil_of_le (by omega)]
    · rw [hu,Int.toNat_natCast]
  · rw [show pa.length-pb.length=0 by omega,drop_zero]

/-- The skip list against the walk along pprev, over every index that can be built. -/
theorem skipList_eq_walk (h : s.Built) :
    (∀ p∈s.entries, ∀ height : Int, getAncestor s.pskip p height=some (ancestorAt p height)) ∧
    (∀ pa∈s.entries, ∀ pb∈s.entries,
      ∃ r, s.lastCommonAncestor pa pb=some r ∧ LastCommon pa pb r) := by
  refine ⟨fun p hp => getAncestor_eq h.sound hp,fun pa ha pb hb => ?_⟩
  obtain ⟨r,hcl,hc⟩ := climb_eq (show (pa.drop (pa.length-pb.length)).length =
    (pb.drop (pb.length-pa.length)).length by simp only [length_drop]; omega)
  refine ⟨r,?_,?_⟩
  · simp [SkipIndex.lastCommonAncestor,levelWith_eq h.sound ha,levelWith_eq h.sound hb,hcl]
  · obtain hl | hl := Nat.le_total pb.length pa.length
    · rw [Nat.sub_eq_zero_of_le hl,drop_zero] at hc
      exact hc.of_drop (by rw [length_drop]; omega)
    · rw [Nat.sub_eq_zero_of_le hl,drop_zero] at hc
      exact (hc.symm.of_drop (by rw [length_drop]; omega)).symm

/- The entries of an index, the last one added first: each is new and its parent was there. -/
def growsFrom : List (List B) → Bool
  | [] => true
  | p::entries => p≠[] && (p.tail=[] || p.tail∈entries) && p∉entries && growsFrom entries

lemma SkipIndex.exists_built {entries : List (List B)} (h : growsFrom entries) :
    ∃ s : SkipIndex B, s.Built ∧ s.entries=entries := by
  induction entries with
  | nil => exact ⟨_,.empty,rfl⟩
  | cons p entries ih =>
    simp only [growsFrom,Bool.and_eq_true,Bool.or_eq_true,decide_eq_true_eq] at h
    obtain ⟨⟨⟨hne,hprev⟩,hnew⟩,hrest⟩ := h
    obtain ⟨s,hs,rfl⟩ := ih hrest
    obtain ⟨block,pprev,rfl⟩ := exists_cons_of_ne_nil hne
    rw [tail_cons] at hprev
    have hadd : ∃ skip, s.addToBlockIndex block pprev =
        some ⟨(block::pprev)::s.entries,update s.pskip (block::pprev) skip⟩ := by
      rw [addToBlockIndex,if_neg hnew,buildSkip_eq hs.sound block hprev]
      exact ⟨_,rfl⟩
    obtain ⟨_,hadd⟩ := hadd
    exact ⟨_,.add hs hprev hadd,rfl⟩

/- Nine blocks in a row, and a branch of two that leaves them at height 5. -/
def forkedEntries : List (List Nat) :=
  [[17,16,5,4,3,2,1,0],[16,5,4,3,2,1,0],[8,7,6,5,4,3,2,1,0],[7,6,5,4,3,2,1,0],[6,5,4,3,2,1,0],
    [5,4,3,2,1,0],[4,3,2,1,0],[3,2,1,0],[2,1,0],[1,0],[0]]

lemma forkedEntries_lastCommon :
    LastCommon [8,7,6,5,4,3,2,1,0] [17,16,5,4,3,2,1,0] [5,4,3,2,1,0] := by
  have hcommon : ∀ c∈tails [8,7,6,5,4,3,2,1,0], c∈tails [17,16,5,4,3,2,1,0] →
      c∈tails [5,4,3,2,1,0] := by decide
  exact ⟨by decide,by decide,fun c ha hb => (mem_tails _ _).1
    (hcommon c ((mem_tails _ _).2 ha) ((mem_tails _ _).2 hb))⟩

/- The entry at height 7 jumps to height 1, and the two branches meet at height 5. -/
theorem skipList_eq_walk_forked : ∃ s : SkipIndex Nat, s.Built ∧ s.entries=forkedEntries ∧
    s.pskip [7,6,5,4,3,2,1,0]=[1,0] ∧
    getAncestor s.pskip [8,7,6,5,4,3,2,1,0] 1=some [1,0] ∧
    getAncestor s.pskip [17,16,5,4,3,2,1,0] 6=some [16,5,4,3,2,1,0] ∧
    s.lastCommonAncestor [8,7,6,5,4,3,2,1,0] [17,16,5,4,3,2,1,0]=some [5,4,3,2,1,0] := by
  obtain ⟨s,hs,he⟩ := SkipIndex.exists_built (show growsFrom forkedEntries by decide)
  obtain ⟨hwalk,hcommon⟩ := skipList_eq_walk hs
  rw [he] at hwalk hcommon
  obtain ⟨r,hr,hlast⟩ := hcommon [8,7,6,5,4,3,2,1,0] (by decide) [17,16,5,4,3,2,1,0] (by decide)
  rw [hlast.unique forkedEntries_lastCommon] at hr
  exact ⟨s,hs,he,hs.sound.skips _ (by rw [he]; decide),hwalk _ (by decide) 1,
      hwalk _ (by decide) 6,hr⟩
end Xero
