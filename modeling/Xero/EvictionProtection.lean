import Xero.Eviction

/-! What the protections leave: how many candidates, which, and which is chosen. -/
namespace Xero.Eviction
open Library List Function
section
lemma bool_eq_lt {a b : Bool} (h : a≠b) : b=decide (a<b) ∧ a=decide ((!a)<(!b)) := by
  cases a <;> cases b <;> simp_all

lemma strictWeak_timeConnected : StrictWeak reverseCompareNodeTimeConnected :=
  .of_key (fun a => OrderDual.toDual a.connected) fun _ _ => rfl

lemma strictWeak_minPingTime : StrictWeak reverseCompareNodeMinPingTime :=
  .of_key (fun a => OrderDual.toDual a.minPingTime) fun _ _ => rfl

lemma strictWeak_netGroupKeyed : StrictWeak compareNetGroupKeyed :=
  .of_key (fun a => a.nKeyedNetGroup) fun _ _ => rfl

lemma strictWeak_services : StrictWeak fun a b : Candidate =>
    if a.fRelevantServices≠b.fRelevantServices then b.fRelevantServices
    else reverseCompareNodeTimeConnected a b := by
  refine .byKey (fun a => a.fRelevantServices) strictWeak_timeConnected fun a b => ?_
  by_cases h : a.fRelevantServices≠b.fRelevantServices
  · rw [if_pos h,if_pos h]
    exact (bool_eq_lt h).1
  · rw [if_neg h,if_neg h]

lemma strictWeak_blockTime : StrictWeak compareNodeBlockTime :=
  .byKey (fun a => a.lastBlockTime) strictWeak_services fun _ _ => rfl

lemma strictWeak_txTime : StrictWeak compareNodeTXTime := by
  have hb : StrictWeak fun a b : Candidate =>
      if a.fBloomFilter≠b.fBloomFilter then a.fBloomFilter
      else reverseCompareNodeTimeConnected a b := by
    refine .byKey (fun a => !a.fBloomFilter) strictWeak_timeConnected fun a b => ?_
    by_cases h : a.fBloomFilter≠b.fBloomFilter
    · rw [if_pos h,if_pos (by simpa using h)]
      exact (bool_eq_lt h).2
    · rw [if_neg h,if_neg (by simpa using h)]
  have hr : StrictWeak fun a b : Candidate =>
      if a.relayTxs≠b.relayTxs then b.relayTxs
      else if a.fBloomFilter≠b.fBloomFilter then a.fBloomFilter
      else reverseCompareNodeTimeConnected a b := by
    refine .byKey (fun a => a.relayTxs) hb fun a b => ?_
    by_cases h : a.relayTxs≠b.relayTxs
    · rw [if_pos h,if_pos h]
      exact (bool_eq_lt h).1
    · rw [if_neg h,if_neg h]
  exact .byKey (fun a => a.lastTxTime) hr fun _ _ => rfl

lemma strictWeak_blockRelayOnlyTime : StrictWeak compareNodeBlockRelayOnlyTime := by
  refine .byKey (fun a => !a.relayTxs) strictWeak_blockTime fun a b => ?_
  unfold compareNodeBlockRelayOnlyTime
  by_cases h : a.relayTxs≠b.relayTxs
  · rw [if_pos h,if_pos (by simpa using h)]
    exact (bool_eq_lt h).2
  · have hk : ¬((!a.relayTxs)≠!b.relayTxs) := by simpa using h
    rw [if_neg h,if_neg hk]
    rfl

lemma strictWeak_networkTime (il : Bool) (n : Option Network) :
    StrictWeak (compareNodeNetworkTime il n) := by
  have hn : StrictWeak fun a b : Candidate =>
      if decide (a.network=n)≠decide (b.network=n) then decide (b.network=n)
      else reverseCompareNodeTimeConnected a b := by
    refine .byKey (fun a => decide (a.network=n)) strictWeak_timeConnected fun a b => ?_
    by_cases h : decide (a.network=n)≠decide (b.network=n)
    · rw [if_pos h,if_pos h]
      exact (bool_eq_lt h).1
    · rw [if_neg h,if_neg h]
  refine .byKey (fun a => il && a.isLocal) hn fun a b => ?_
  unfold compareNodeNetworkTime
  cases il with
  | false => simp [reverseCompareNodeTimeConnected]
  | true =>
    by_cases h : a.isLocal≠b.isLocal
    · rw [if_pos ⟨rfl,h⟩,if_pos (by simpa using h)]
      simpa using (bool_eq_lt h).1
    · have hl : ¬(true ∧ a.isLocal≠b.isLocal) := fun ha => h ha.2
      have hk : ¬((true && a.isLocal)≠(true && b.isLocal)) := by simpa using h
      rw [if_neg hl,if_neg hk]
      rfl
end
section
variable (std : StdSort Candidate) {comparator : Candidate → Candidate → Bool}

def erasedLast (comparator : Candidate → Candidate → Bool) (k : Nat)
    (predicate : Candidate → Bool) (elements : List Candidate) : List Candidate :=
  (splitLast std comparator k elements).2.filter predicate

/-- A pass of protections: in an order that the comparator allows, the last `k` candidates are looked
at, and those of them that satisfy the predicate are `gone`. -/
def Protects (comparator : Candidate → Candidate → Bool) (k : Nat) (predicate : Candidate → Bool)
    (candidates left gone : List Candidate) : Prop :=
  ∃ rest last, (rest++last).Perm candidates ∧ last.length=min k candidates.length ∧
    (∀ c∈rest, ∀ d∈last, comparator d c=false) ∧ gone=last.filter predicate ∧
    left=rest++last.filter fun n => !predicate n

lemma protects_eraseLast (hc : StrictWeak comparator) (k : Nat) (predicate : Candidate → Bool)
    (candidates : List Candidate) :
    Protects comparator k predicate candidates
    (eraseLastKElements std comparator k predicate candidates)
      (erasedLast std comparator k predicate candidates) := by
  have hs : (splitLast std comparator k candidates).1++(splitLast std comparator k candidates).2=
      std.sort comparator candidates := take_append_drop _ _
  refine ⟨(splitLast std comparator k candidates).1,(splitLast std comparator k candidates).2,
    hs ▸ std.perm hc candidates,?_,?_,rfl,rfl⟩
  · have hl := (std.perm hc candidates).length_eq
    rw [splitLast,length_drop]
    omega
  · have hsorted := std.sorted hc candidates
    rw [← hs,pairwise_append] at hsorted
    exact hsorted.2.2

lemma Protects.perm {k : Nat} {predicate : Candidate → Bool} {candidates left gone : List Candidate}
    (h : Protects comparator k predicate candidates left gone) : (left++gone).Perm candidates := by
  obtain ⟨rest,last,hp,_,_,rfl,rfl⟩ := h
  rw [append_assoc]
  refine (List.Perm.append_left _ ?_).trans hp
  exact perm_append_comm.trans (filter_append_perm predicate last)

lemma Protects.length_le {k : Nat} {predicate : Candidate → Bool}
    {candidates left gone : List Candidate}
    (h : Protects comparator k predicate candidates left gone) : gone.length≤k := by
  obtain ⟨rest,last,_,hl,_,rfl,_⟩ := h
  exact (length_filter_le _ _).trans (by omega)

lemma Protects.length_eq {k : Nat} {predicate : Candidate → Bool}
    {candidates left gone : List Candidate}
    (h : Protects comparator k predicate candidates left gone) (hall : ∀ c∈candidates, predicate c) :
    gone.length=min k candidates.length ∧ left.length+gone.length=candidates.length := by
  refine ⟨?_,by rw [← length_append,h.perm.length_eq]⟩
  obtain ⟨rest,last,hp,hl,_,rfl,_⟩ := h
  have hself : last.filter predicate=last :=
    filter_eq_self.mpr fun c hc => hall c (hp.subset (mem_append_right _ hc))
  rw [hself,hl]

lemma Protects.subset {k : Nat} {predicate : Candidate → Bool}
    {candidates left gone : List Candidate}
    (h : Protects comparator k predicate candidates left gone) : left ⊆ candidates :=
  fun _ hc => h.perm.subset (mem_append_left _ hc)

lemma length_erasedLast_le (comparator : Candidate → Candidate → Bool) (k : Nat)
    (p : Candidate → Bool) (elements : List Candidate) :
    (erasedLast std comparator k p elements).length≤k := by
  refine (length_filter_le _ _).trans ?_
  rw [splitLast,length_drop]
  omega

lemma predicate_of_mem_erasedLast {k : Nat} {p : Candidate → Bool}
    {elements : List Candidate} {c : Candidate}
    (h : c∈erasedLast std comparator k p elements) : p c :=
  (mem_filter.mp h).2

lemma length_erasedLast (hc : StrictWeak comparator) (k : Nat) (elements : List Candidate) :
    (erasedLast std comparator k (fun _ => true) elements).length=min k elements.length := by
  have hl := (std.perm hc elements).length_eq
  rw [erasedLast,filter_true,splitLast,length_drop]
  omega
end

def Disadvantaged (c : Candidate) : Prop :=
  c.isLocal ∨ c.network=some .cjdns ∨ c.network=some .i2p ∨ c.network=some .onion

section
variable {maxProtect perNetwork : Nat}

/- The count of each network is at least the number of its candidates that are left: a candidate may be
   erased as one of another network. -/
def CountsSuffice (networks : List Net) (candidates : List Candidate) : Prop :=
  ∀ n∈networks, candidates.countP n.has≤n.count ∧ ∀ c, n.has c → Disadvantaged c

variable {candidates : List Candidate}

lemma CountsSuffice.perm {networks : List Net} {k e : List Candidate}
    (h : CountsSuffice networks candidates) (hp : (k++e).Perm candidates) :
    CountsSuffice networks k := by
  intro n hn
  have hc := hp.countP_eq n.has
  rw [countP_append] at hc
  have hn' := h n hn
  exact ⟨by omega,hn'.2⟩

variable (std : StdSort Candidate)

lemma protectEach_spec {networks : List Net} {numProtected : Nat} (any : Bool)
    (hlt : numProtected < maxProtect)
    (hr : perNetwork=1 ∨
      numProtected+perNetwork*(networks.countP fun n => decide (n.count≠0)) ≤ maxProtect)
    (hcn : CountsSuffice networks candidates) :
    ∃ p any' erased, protectEach std maxProtect perNetwork networks candidates numProtected any=
        .ok (p,any') ∧ (p.candidates++erased).Perm candidates ∧
      p.numProtected=numProtected+erased.length ∧ p.numProtected ≤ maxProtect ∧
      (∀ c∈erased, Disadvantaged c) ∧
      (p.numProtected < maxProtect → CountsSuffice p.networks p.candidates) := by
  induction networks generalizing candidates numProtected any with
  | nil =>
    refine ⟨⟨candidates,[],numProtected⟩,any,[],rfl,?_,rfl,hlt.le,
      fun c hc => absurd hc not_mem_nil,fun _ n hn => absurd hn not_mem_nil⟩
    rw [append_nil]
  | cons n networks ih =>
    have hre : CountsSuffice networks candidates := fun n' hn' => hcn n' (mem_cons_of_mem _ hn')
    unfold protectEach
    by_cases hz : n.count=0
    · rw [if_pos hz]
      rw [countP_cons_of_neg (by simpa using hz)] at hr
      obtain ⟨p,any',erased,ho,hp,hnu,hle,hd,hlf⟩ := ih any hlt hr hre
      rw [ho]
      exact ⟨_,any',erased,rfl,hp,hnu,hle,hd,fun hl =>
        forall_mem_cons.mpr ⟨hcn.perm hp n mem_cons_self,hlf hl⟩⟩
    · rw [if_neg hz]
      dsimp only
      rw [countP_cons_of_pos (by simpa using hz),Nat.mul_add] at hr
      have hp1 := (protects_eraseLast std (strictWeak_networkTime n.isLocal n.id) perNetwork n.has
          candidates).perm
      have hm := length_erasedLast_le std (compareNodeNetworkTime n.isLocal n.id) perNetwork
          n.has candidates
      have hh : ∀ c∈erasedLast std (compareNodeNetworkTime n.isLocal n.id) perNetwork n.has
          candidates, n.has c := fun c hc => predicate_of_mem_erasedLast std hc
      generalize eraseLastKElements std (compareNodeNetworkTime n.isLocal n.id) perNetwork n.has
        candidates=after at hp1 ⊢
      generalize erasedLast std (compareNodeNetworkTime n.isLocal n.id) perNetwork n.has
        candidates=gone at hp1 hm hh
      have hln := hp1.length_eq
      rw [length_append] at hln
      have hct := hp1.countP_eq n.has
      rw [countP_append,countP_eq_length.mpr hh] at hct
      have hn := hcn n mem_cons_self
      have hb : numProtected+gone.length ≤ maxProtect := by
        obtain _ | hr := hr <;> omega
      have hr1 : perNetwork=1 ∨ numProtected+gone.length+ perNetwork*(networks.countP fun n =>
          decide (n.count≠0)) ≤ maxProtect :=
        hr.imp_right fun hr => by omega
      have hre1 := hre.perm hp1
      by_cases he : after.length < candidates.length
      · rw [if_pos he]
        have hde : candidates.length-after.length=gone.length := by omega
        rw [hde]
        by_cases hf : maxProtect≤numProtected+gone.length
        · rw [if_pos hf]
          exact ⟨⟨after,n::networks,numProtected+gone.length⟩,true,gone,rfl,hp1,rfl,hb,
            fun c hc => hn.2 c (hh c hc),fun hl => absurd hl (not_lt.mpr hf)⟩
        · rw [if_neg hf]
          have hu : ¬n.count<gone.length := by omega
          obtain ⟨p,any',erased,ho,hp,hnu,hle,hd,hlf⟩ := ih true (not_le.mp hf) hr1 hre1
          simp only [rejectIf,decide_eq_false hu,if_neg Bool.false_ne_true,ho,ok_bind,pure_ok]
          have ha : (p.candidates++(erased++gone)).Perm candidates := by
            rw [← append_assoc]
            exact (hp.append_right gone).trans hp1
          refine ⟨{p with networks := _},any',erased++gone,rfl,ha,?_,hle,
            forall_mem_append.mpr ⟨hd,fun c hc => hn.2 c (hh c hc)⟩,fun hl =>
            forall_mem_cons.mpr ⟨?_,hlf hl⟩⟩
          · rw [hnu,length_append]
            omega
          · have hs := hp.countP_eq n.has
            rw [countP_append] at hs
            exact ⟨show p.candidates.countP n.has≤n.count-gone.length by omega,hn.2⟩
      · rw [if_neg he]
        have hg : gone=[] := eq_nil_of_length_eq_zero (by omega)
        subst hg
        rw [append_nil] at hp1
        obtain ⟨p,any',erased,ho,hp,hnu,hle,hd,hlf⟩ := ih any hlt hr1 hre1
        rw [ho]
        exact ⟨{p with networks := _},any',erased,rfl,hp.trans hp1,hnu,hle,hd,fun hl =>
          forall_mem_cons.mpr ⟨hcn.perm (hp.trans hp1) n mem_cons_self,hlf hl⟩⟩

/-- What the loop keeps: the candidates gone are of disadvantaged networks, at most as many as it
may protect. -/
structure Protecting (maxProtect : Nat) (candidates : List Candidate) (p : Protection) : Prop where
  erased : ∃ erased, (p.candidates++erased).Perm candidates ∧ p.numProtected=erased.length ∧
    ∀ c∈erased, Disadvantaged c
  bound : p.numProtected ≤ maxProtect
  counts : p.numProtected < maxProtect → CountsSuffice p.networks p.candidates

lemma Protecting.protectRound {p : Protection} (h : Protecting maxProtect candidates p) :
    Ensures (fun _ =>
    False) (Sum.elim (Protecting maxProtect candidates) (Protecting maxProtect candidates))
      (protectRound std maxProtect p) := by
  unfold Eviction.protectRound
  by_cases hlt : p.numProtected < maxProtect
  · rw [if_pos hlt]
    dsimp only
    by_cases hn : (p.networks.countP fun n => decide (n.count≠0))=0
    · rw [if_pos hn]
      exact h
    rw [if_neg hn]
    generalize hnu : (p.networks.countP fun n => decide (n.count≠0))=numNetworks at hn
    have hr : max ((maxProtect-p.numProtected)/numNetworks) 1=1 ∨ p.numProtected+
        max ((maxProtect-p.numProtected)/numNetworks) 1*
          (p.networks.countP fun n => decide (n.count≠0)) ≤ maxProtect := by
      rw [hnu]
      by_cases ho : 1≤(maxProtect-p.numProtected)/numNetworks
      · rw [Nat.max_eq_left ho]
        have hdi := Nat.div_mul_le_self (maxProtect-p.numProtected) numNetworks
        exact .inr (by omega)
      · exact .inl (Nat.max_eq_right (by omega))
    obtain ⟨p',a,e,hok,hp,hnu',hle,hd,hl⟩ := protectEach_spec std false hlt hr (h.counts hlt)
    obtain ⟨b,hb,hcn,hd'⟩ := h.erased
    have hp' : Protecting maxProtect candidates p' := by
      refine ⟨⟨e++b,?_,?_,fun c hc => ?_⟩,hle,hl⟩
      · rw [← append_assoc]
        exact (hp.append_right b).trans hb
      · rw [hnu',hcn,length_append]
        omega
      · exact (mem_append.mp hc).elim (hd c) (hd' c)
    rw [hok]
    cases a with
    | false => exact hp'
    | true => exact hp'
  · rw [if_neg hlt]
    exact h

lemma countedNetworks_suffice (candidates : List Candidate) :
    CountsSuffice ((countedNetworks candidates).mergeSort fun a b =>
    a.count≤b.count) candidates := by
  intro n hn
  have hm : n∈countedNetworks candidates := (mergeSort_perm _ _).mem_iff.mp hn
  simp only [countedNetworks,map_cons,map_nil,mem_cons,not_mem_nil,or_false] at hm
  obtain rfl | rfl | rfl | rfl := hm
  all_goals
    refine ⟨le_refl _,fun c hc => ?_⟩
    simp only [Net.has,if_true,Bool.false_eq_true,if_false,decide_eq_true_eq] at hc
    simp [Disadvantaged,hc]

lemma protectByNetwork_spec (candidates : List Candidate) :
    ∃ p, protectByNetwork std candidates=.ok p ∧
      Protecting (candidates.length/2/2) candidates p := by
  have hi : Protecting (candidates.length/2/2) candidates
      ⟨candidates,(countedNetworks candidates).mergeSort fun a b => a.count≤b.count,0⟩ :=
    ⟨⟨[],by simp,rfl,fun c hc => absurd hc not_mem_nil⟩,Nat.zero_le _,
      fun _ => countedNetworks_suffice candidates⟩
  have hr : Ensures (fun _ => False) (Protecting (candidates.length/2/2) candidates)
      (protectByNetwork std candidates) := Loop.run_ensures (fun p hp => hp.protectRound std) hi
  exact hr.exists_ok fun _ hf => hf.elim
end

section
variable (std : StdSort Candidate)

/-- Half of the candidates are protected, at most half of those by network and the others for being
connected longest; what is left is in the order of the time of connection. -/
lemma protectByRatio_spec (candidates : List Candidate) :
    ∃ rest left byTime byNetwork, protectEvictionCandidatesByRatio std candidates=.ok left ∧
      (rest++byNetwork).Perm candidates ∧
      Protects reverseCompareNodeTimeConnected (candidates.length/2-byNetwork.length)
        (fun _ => true) rest left byTime ∧
      byTime.length+byNetwork.length=candidates.length/2 ∧
      byNetwork.length ≤ candidates.length/2/2 ∧ (∀ c∈byNetwork, Disadvantaged c) ∧
      left.Pairwise fun a b => b.connected≤a.connected := by
  obtain ⟨p,ho,hp⟩ := protectByNetwork_spec std candidates
  obtain ⟨byNetwork,hpe,hn,hd⟩ := hp.erased
  have hle := hpe.length_eq
  rw [length_append] at hle
  have hb := hp.bound
  have ha : ¬p.numProtected≠candidates.length-p.candidates.length := by omega
  have hu : ¬candidates.length/2<p.numProtected := by omega
  have hg := length_erasedLast std strictWeak_timeConnected (candidates.length/2-p.numProtected)
    p.candidates
  refine ⟨p.candidates,eraseLastKElements std reverseCompareNodeTimeConnected
    (candidates.length/2-p.numProtected) (fun _ => true) p.candidates,
    erasedLast std reverseCompareNodeTimeConnected (candidates.length/2-p.numProtected)
    (fun _ => true) p.candidates,byNetwork,?_,hpe,?_,?_,hn ▸ hb,hd,?_⟩
  · unfold protectEvictionCandidatesByRatio
    simp only [ho,rejectIf,decide_eq_false ha,decide_eq_false hu,if_neg Bool.false_ne_true,
      ok_bind,pure_ok]
  · rw [← hn]
    exact protects_eraseLast std strictWeak_timeConnected _ _ _
  · omega
  · rw [eraseLastKElements]
    have hnt : ∀ l : List Candidate, (l.filter fun n => !(fun _ => true) n)=[] := fun l => by simp
    rw [hnt,append_nil]
    refine (std.sorted strictWeak_timeConnected p.candidates).sublist (take_sublist _ _)
      |>.imp fun hab => ?_
    simpa [reverseCompareNodeTimeConnected] using hab
end

/-- One of the most recently connected of a largest group. -/
structure Chosen (candidates : List Candidate) (n : Candidate) : Prop where
  mem : n∈candidates
  largest : ∀ g, (candidates.countP fun c => decide (c.nKeyedNetGroup=g)) ≤
    candidates.countP fun c => decide (c.nKeyedNetGroup=n.nKeyedNetGroup)
  youngest : ∀ c∈candidates, c.nKeyedNetGroup=n.nKeyedNetGroup → c.connected≤n.connected

structure Grouped (seen : List Candidate) (g : Groups) : Prop where
  groups : ∀ na, g.mapNetGroupNodes na=seen.filter fun c => decide (c.nKeyedNetGroup=na)
  most : ∀ na, (g.mapNetGroupNodes na).length≤g.nMostConnections
  found : ∀ na, g.naMostConnections=some na → (g.mapNetGroupNodes na).length=g.nMostConnections
  none : seen=[] → g.nMostConnections=0
  some : seen≠[] → g.naMostConnections.isSome ∧ 0<g.nMostConnections

lemma Grouped.addToGroup {s : List Candidate} {g : Groups} (h : Grouped s g) (n : Candidate) :
    Grouped (s++[n]) (addToGroup g n) := by
  have hf : ∀ na, ((s++[n]).filter fun c => decide (c.nKeyedNetGroup=na))=
      update g.mapNetGroupNodes n.nKeyedNetGroup
        (g.mapNetGroupNodes n.nKeyedNetGroup++[n]) na := by
    intro na
    rw [filter_append]
    by_cases heq : na=n.nKeyedNetGroup
    · rw [heq,update_self,h.groups]
      simp
    · have hn : ¬n.nKeyedNetGroup=na := fun heq' => heq heq'.symm
      rw [update_of_ne heq,h.groups]
      simp [hn]
  have ho : ∀ na, na≠n.nKeyedNetGroup → update g.mapNetGroupNodes
      n.nKeyedNetGroup (g.mapNetGroupNodes n.nKeyedNetGroup++[n]) na=
        g.mapNetGroupNodes na := fun na hn => update_of_ne hn ..
  have how := h.most n.nKeyedNetGroup
  unfold Eviction.addToGroup
  dsimp only
  generalize hl : (g.mapNetGroupNodes n.nKeyedNetGroup++[n]).length=length
  rw [length_append,length_singleton] at hl
  split
  · rename_i hla
    refine ⟨fun na => (hf na).symm,fun na => ?_,fun na hna => ?_,fun he => ?_,fun _ => ⟨rfl,?_⟩⟩
    · by_cases heq : na=n.nKeyedNetGroup
      · rw [heq]
        simp only [update_self,length_append,length_singleton]
        omega
      · simp only [ho na heq]
        have hm := h.most na
        omega
    · cases hna
      simp only [update_self,length_append,length_singleton]
      exact hl
    · simp at he
    · show 0<length
      omega
  · rename_i hla
    refine ⟨fun na => (hf na).symm,fun na => ?_,fun na hna => ?_,fun he => ?_,fun _ => ?_⟩
    · by_cases heq : na=n.nKeyedNetGroup
      · rw [heq]
        simp only [update_self,length_append,length_singleton]
        omega
      · simp only [ho na heq]
        exact h.most na
    · have hfn := h.found na hna
      by_cases heq : na=n.nKeyedNetGroup
      · rw [heq] at hfn
        omega
      · simp only [ho na heq]
        exact hfn
    · simp at he
    · refine h.some fun he => ?_
      have hz := h.none he
      omega

lemma grouped_all (candidates : List Candidate) :
    Grouped candidates (candidates.foldl addToGroup {}) := by
  have hs : ∀ r s g, Grouped s g → Grouped (s++r) (r.foldl addToGroup g) := by
    intro r
    induction r with
    | nil =>
      intro s g h
      rw [append_nil]
      exact h
    | cons n r ih =>
      intro s g h
      have hn := ih (s++[n]) (addToGroup g n) (h.addToGroup n)
      rw [append_assoc] at hn
      exact hn
  exact hs candidates [] {} ⟨fun _ => rfl,fun _ => le_refl _,fun _ hna => (nomatch hna),
    fun _ => rfl,fun hne => absurd rfl hne⟩

lemma preferred_sublist (candidates : List Candidate) :
    (preferred candidates).Sublist candidates := by
  unfold preferred
  split
  · exact filter_sublist
  · exact List.Sublist.refl _

lemma preferred_ne_nil {candidates : List Candidate} (h : candidates≠[]) :
    preferred candidates≠[] := by
  unfold preferred
  split
  · rename_i ha
    obtain ⟨n,hn,hp⟩ := any_eq_true.mp ha
    exact ne_nil_of_mem (mem_filter.mpr ⟨hn,hp⟩)
  · exact h

lemma chooseFrom_spec {candidates : List Candidate} (hne : candidates≠[])
    (hs : candidates.Pairwise fun a b => b.connected≤a.connected) :
    ∃ n, chooseFrom candidates=.ok (some n.id) ∧ Chosen (preferred candidates) n := by
  have hg := grouped_all (preferred candidates)
  have hs' := hs.sublist (preferred_sublist candidates)
  obtain ⟨hso,hp⟩ := hg.some (preferred_ne_nil hne)
  unfold chooseFrom
  rw [if_neg hne]
  dsimp only
  generalize (preferred candidates).foldl addToGroup {}=g at hg hso hp ⊢
  obtain ⟨na,hna⟩ := Option.isSome_iff_exists.mp hso
  have hf := hg.found na hna
  have hgr := hg.groups na
  rw [hna]
  dsimp only
  cases hn : g.mapNetGroupNodes na with
  | nil =>
    rw [hn] at hf
    simp at hf
    omega
  | cons n r =>
    rw [hn] at hgr
    have hme : n∈(preferred candidates).filter fun c => decide (c.nKeyedNetGroup=na) :=
      hgr ▸ mem_cons_self
    obtain ⟨hi,hk⟩ := mem_filter.mp hme
    have hk : n.nKeyedNetGroup=na := of_decide_eq_true hk
    refine ⟨n,rfl,hi,fun n' => ?_,fun c hc hsa => ?_⟩
    · have hm := hg.most n'
      rw [← hf,hg.groups na,hg.groups n'] at hm
      rw [countP_eq_length_filter,countP_eq_length_filter,hk]
      exact hm
    · have hc' : c∈n::r := by
        rw [hgr]
        exact mem_filter.mpr ⟨hc,decide_eq_true (hsa.trans hk)⟩
      have hpa : (n::r).Pairwise fun a b => b.connected≤a.connected := by
        rw [hgr]
        exact hs'.sublist filter_sublist
      obtain rfl | hr := mem_cons.mp hc'
      · exact le_refl _
      · exact rel_of_pairwise_cons hpa hr

/- The inbound candidates without noban, and those of them that no fixed protection takes. -/
def eligible (candidates : List Candidate) : List Candidate :=
  candidates.filter fun n => !n.noban && decide (n.connType=.INBOUND)

def reached (std : StdSort Candidate) (candidates : List Candidate) : List Candidate :=
  protectFixed std (protectOutboundConnections (protectNoBanConnections candidates))

/-- Who is protected by what, and who is left. -/
structure Protections where
  byNetGroup : List Candidate
  byPing : List Candidate
  byTxTime : List Candidate
  byBlockRelay : List Candidate
  byBlockTime : List Candidate
  byNetwork : List Candidate
  byTime : List Candidate
  left : List Candidate

namespace Protections
variable (p : Protections)

def fixed : List Candidate :=
  p.byBlockTime++p.byBlockRelay++p.byTxTime++p.byPing++p.byNetGroup

def all : List Candidate := p.byTime++p.byNetwork++p.fixed

/-- The passes in their order, each over what the one before left; then half of the candidates that
are reached, at most half of them by network and the others for being connected longest. -/
structure Hold (std : StdSort Candidate) (candidates : List Candidate)
    (p : Protections) : Prop where
  passes : ∃ l₁ l₂ l₃ l₄,
    Protects compareNetGroupKeyed 4 (fun _ => true) (eligible candidates) l₁ p.byNetGroup ∧
    Protects reverseCompareNodeMinPingTime 8 (fun _ => true) l₁ l₂ p.byPing ∧
    Protects compareNodeTXTime 4 (fun _ => true) l₂ l₃ p.byTxTime ∧
    Protects compareNodeBlockRelayOnlyTime 8 (fun n => !n.relayTxs && n.fRelevantServices) l₃ l₄
      p.byBlockRelay ∧
    Protects compareNodeBlockTime 4 (fun _ => true) l₄ (reached std candidates) p.byBlockTime
  ratio : ∃ rest, (rest++p.byNetwork).Perm (reached std candidates) ∧
    Protects reverseCompareNodeTimeConnected
      ((reached std candidates).length/2-p.byNetwork.length) (fun _ => true) rest p.left p.byTime
  half : p.byTime.length+p.byNetwork.length=(reached std candidates).length/2
  network_le : p.byNetwork.length≤(reached std candidates).length/2/2
  disadvantaged : ∀ c∈p.byNetwork, Disadvantaged c
  result : protectEvictionCandidatesByRatio std (reached std candidates)=.ok p.left

variable {p} {std : StdSort Candidate} {candidates : List Candidate}

lemma Hold.reached_perm (h : p.Hold std candidates) :
    (p.left++p.byTime++p.byNetwork).Perm (reached std candidates) := by
  obtain ⟨rest,hrest,htime⟩ := h.ratio
  exact (htime.perm.append_right _).trans hrest

lemma Hold.fixed_perm (h : p.Hold std candidates) :
    (reached std candidates++p.fixed).Perm (eligible candidates) ∧ p.fixed.length≤28 := by
  obtain ⟨l₁,l₂,l₃,l₄,h₁,h₂,h₃,h₄,h₅⟩ := h.passes
  constructor
  · rw [fixed,← append_assoc,← append_assoc,← append_assoc,← append_assoc]
    exact ((((((h₅.perm.append_right _).trans h₄.perm).append_right _).trans
      h₃.perm).append_right _).trans h₂.perm).append_right _ |>.trans h₁.perm
  · have := h₁.length_le
    have := h₂.length_le
    have := h₃.length_le
    have := h₄.length_le
    have := h₅.length_le
    simp only [fixed,length_append]
    omega

lemma Hold.perm (h : p.Hold std candidates) : (p.left++p.all).Perm (eligible candidates) := by
  rw [all,← append_assoc,← append_assoc]
  exact (h.reached_perm.append_right _).trans h.fixed_perm.1

lemma Hold.left_ne_nil (h : p.Hold std candidates) (h29 : 29≤(eligible candidates).length) :
    p.left≠[] := by
  intro hnil
  obtain ⟨hperm,hfixed⟩ := h.fixed_perm
  have hlen := hperm.length_eq
  have hreached := h.reached_perm.length_eq
  have hhalf := h.half
  simp only [length_append,hnil,length_nil] at hlen hreached
  omega
end Protections

lemma eligible_eq (candidates : List Candidate) :
    protectOutboundConnections (protectNoBanConnections candidates)=eligible candidates := by
  rw [protectOutboundConnections,protectNoBanConnections,filter_filter]
  refine filter_congr fun n _ => ?_
  exact Bool.and_comm ..

lemma protectFixed_passes (std : StdSort Candidate) (elements : List Candidate) :
    ∃ l₁ l₂ l₃ l₄ g₁ g₂ g₃ g₄ g₅, Protects compareNetGroupKeyed 4 (fun _ => true) elements l₁ g₁ ∧
      Protects reverseCompareNodeMinPingTime 8 (fun _ => true) l₁ l₂ g₂ ∧
      Protects compareNodeTXTime 4 (fun _ => true) l₂ l₃ g₃ ∧
      Protects compareNodeBlockRelayOnlyTime 8
      (fun n => !n.relayTxs && n.fRelevantServices) l₃ l₄ g₄ ∧
      Protects compareNodeBlockTime 4 (fun _ => true) l₄ (protectFixed std elements) g₅ :=
  ⟨_,_,_,_,_,_,_,_,_,protects_eraseLast std strictWeak_netGroupKeyed 4 _ _,
    protects_eraseLast std strictWeak_minPingTime 8 _ _,protects_eraseLast std
        strictWeak_txTime 4 _ _,
    protects_eraseLast std strictWeak_blockRelayOnlyTime 8 _ _,
    protects_eraseLast std strictWeak_blockTime 4 _ _⟩

lemma exists_protections (std : StdSort Candidate) (candidates : List Candidate) :
    ∃ p : Protections, p.Hold std candidates ∧ p.left.Pairwise fun a b =>
    b.connected≤a.connected := by
  obtain ⟨rest,left,byTime,byNetwork,hresult,hrest,htime,hhalf,hnetwork,hdis,hsorted⟩ :=
    protectByRatio_spec std (reached std candidates)
  obtain ⟨l₁,l₂,l₃,l₄,g₁,g₂,g₃,g₄,g₅,hpasses⟩ := protectFixed_passes std (eligible candidates)
  rw [← eligible_eq] at hpasses
  refine ⟨⟨g₁,g₂,g₃,g₄,g₅,byNetwork,byTime,left⟩,
    ⟨⟨l₁,l₂,l₃,l₄,?_⟩,⟨rest,hrest,htime⟩,hhalf,hnetwork,hdis,hresult⟩,hsorted⟩
  rw [← eligible_eq]
  exact hpasses

/-- SelectNodeToEvict: nothing fails, and the node that is returned, if any, is one of those that no
pass protects, of a largest group and most recently connected there. There is one if 29 are
eligible. -/
theorem selectNodeToEvict_spec (std : StdSort Candidate) (candidates : List Candidate) :
    ∃ p : Protections, p.Hold std candidates ∧ (p.left++p.all).Perm (eligible candidates) ∧
      (29≤(eligible candidates).length → p.left≠[]) ∧
      (p.left=[] ∧ selectNodeToEvict std candidates=.ok none ∨
        ∃ n, selectNodeToEvict std candidates=.ok (some n.id) ∧ Chosen (preferred p.left) n ∧
          n∈p.left ∧ n∈candidates ∧ n.noban=false ∧ n.connType=.INBOUND ∧
          ((candidates.map NodeEvictionCandidate.id).Nodup → ∀ c∈p.all, c.id≠n.id)) := by
  obtain ⟨p,hp,hsorted⟩ := exists_protections std candidates
  refine ⟨p,hp,hp.perm,hp.left_ne_nil,?_⟩
  have hresult := hp.result
  rw [reached,eligible_eq] at hresult
  have hse : selectNodeToEvict std candidates=chooseFrom p.left := by
    simp only [selectNodeToEvict,eligible_eq,hresult]
    rfl
  rw [hse]
  by_cases hne : p.left=[]
  · exact .inl ⟨hne,by rw [chooseFrom,if_pos hne]⟩
  obtain ⟨n,hn,hch⟩ := chooseFrom_spec hne hsorted
  have hle : n∈p.left := (preferred_sublist p.left).subset hch.mem
  obtain ⟨hin,hf⟩ := mem_filter.mp (hp.perm.mem_iff.mp (mem_append_left _ hle))
  simp only [Bool.and_eq_true,Bool.not_eq_true',decide_eq_true_eq] at hf
  refine .inr ⟨n,hn,hch,hle,hin,hf.1,hf.2,fun hno c hc heq => ?_⟩
  have hi : ((p.left++p.all).map NodeEvictionCandidate.id).Nodup := by
    have hsu : ((eligible candidates).map NodeEvictionCandidate.id).Nodup :=
      hno.sublist (filter_sublist.map _)
    exact (List.Perm.nodup_iff (hp.perm.map _)).mpr hsu
  rw [map_append,nodup_append] at hi
  exact hi.2.2 n.id (mem_map_of_mem hle) c.id (mem_map_of_mem hc) heq.symm

/- Peers of thirty network groups that relay blocks only, each connected a second after the one
before: every pass protects as many as it may. -/
def samplePeers : List Candidate :=
  (range 30).map fun i : Nat => ⟨i,i,1,0,0,true,false,false,i,false,false,some .ipv4,false,.INBOUND⟩

theorem selectNodeToEvict_thirty : ∃ (p : Protections) (n : Candidate),
    p.Hold .merge samplePeers ∧ (p.byNetGroup.length=4 ∧ p.byPing.length=8 ∧
      p.byTxTime.length=4 ∧ p.byBlockRelay.length=8 ∧ p.byBlockTime.length=4 ∧
      p.byTime.length+p.byNetwork.length=1) ∧
    selectNodeToEvict .merge samplePeers=.ok (some n.id) ∧ n∈p.left ∧ ∀ c∈p.all, c.id≠n.id := by
  obtain ⟨p,hp,_,hleft,hcase⟩ := selectNodeToEvict_spec .merge samplePeers
  obtain ⟨hnil,_⟩ | ⟨n,hn,_,hmem,_,_,_,hother⟩ := hcase
  · exact absurd hnil (hleft (by decide))
  refine ⟨p,n,hp,?_,hn,hmem,hother (by decide)⟩
  have hsize : (eligible samplePeers).length=30 := by decide
  have hrelay : ∀ c∈eligible samplePeers, !c.relayTxs && c.fRelevantServices := by decide
  obtain ⟨l₁,l₂,l₃,l₄,hgroup,hping,htx,hblocks,htime⟩ := hp.passes
  have hsub : l₃ ⊆ eligible samplePeers :=
    fun c hc => hgroup.subset (hping.subset (htx.subset hc))
  obtain ⟨hgroup,_⟩ := hgroup.length_eq (by simp)
  obtain ⟨hping,_⟩ := hping.length_eq (by simp)
  obtain ⟨htx,_⟩ := htx.length_eq (by simp)
  obtain ⟨hblocks,_⟩ := hblocks.length_eq fun c hc => hrelay c (hsub hc)
  obtain ⟨htime,_⟩ := htime.length_eq (by simp)
  have hhalf := hp.half
  omega
end Xero.Eviction
