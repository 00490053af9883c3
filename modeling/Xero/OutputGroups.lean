import Mathlib.Algebra.BigOperators.Group.Finset.Basic
import Mathlib.Algebra.Order.Ring.Int

/-! GroupOutputs with avoid_partial_spends: the outputs of a script and type go to groups of at most
OUTPUT_GROUP_MAX_ENTRIES, of which the last one counts as partial. -/
namespace Xero
open List Function
variable {S O : Type}

def OUTPUT_GROUP_MAX_ENTRIES : Nat := 100

/-- The lambda insert_output, on the groups of one script and type with the last group first. -/
def insertOutput : List (List O) → O → List (List O)
  | [],output => [[output]]
  | group::groups,output =>
    if group.length≥OUTPUT_GROUP_MAX_ENTRIES then [output]::group::groups
    else (group++[output])::groups

/-- The map of all groups or, for the coins of positive effective value, of the positive ones. -/
def spkToGroupsMap [DecidableEq S] (coins : List (S×O)) : S → List (List O) :=
  coins.foldl (fun groups c => update groups c.1 (insertOutput (groups c.1) c.2)) fun _ => []

def outputsOf [DecidableEq S] (coins : List (S×O)) (s : S) : List O :=
  (coins.filter fun c => c.1=s).map Prod.snd

/-- push_output_groups for one filter: the groups that it gets, and the eligible ones that are left
out as partial. -/
def pushOutputGroups (eligible : List O → Bool) (includePartialGroups : Bool) :
    List (List O) → List (List O)×List (List O)
  | [] => ([],[])
  | group::groups =>
    let others := groups.filter eligible
    if !eligible group then (others,[])
    else if !groups.isEmpty && !includePartialGroups then (others,[group])
    else (group::others,[])

/-- Without partial groups, what is left out is not full and stands beside a full group. -/
def LeavesOutPartial (eligible : List O → Bool) (groups : List (List O)) : Prop :=
  ∀ g, g∈(pushOutputGroups eligible false groups).2 ↔ g∈groups ∧ eligible g ∧
    g.length<OUTPUT_GROUP_MAX_ENTRIES ∧ ∃ g'∈groups, g'.length=OUTPUT_GROUP_MAX_ENTRIES

/-- The outputs fill several groups, and the last of them is eligible. -/
def FullLast (eligible : List O → Bool) (outputs : List O) : Prop :=
  OUTPUT_GROUP_MAX_ENTRIES<outputs.length ∧ OUTPUT_GROUP_MAX_ENTRIES∣outputs.length ∧
    eligible (outputs.drop (outputs.length-OUTPUT_GROUP_MAX_ENTRIES))

/-- Full groups before a last one that holds the rest. -/
structure Chunked (groups : List (List O)) (outputs : List O) : Prop where
  flat : groups.reverse.flatten=outputs
  full : ∀ g∈groups.tail, g.length=OUTPUT_GROUP_MAX_ENTRIES
  last : ∀ g∈groups.head?, 0<g.length ∧ g.length≤OUTPUT_GROUP_MAX_ENTRIES

variable {groups : List (List O)} {outputs : List O}

lemma Chunked.insertOutput (h : Chunked groups outputs) (o : O) :
    Chunked (insertOutput groups o) (outputs++[o]) := by
  obtain ⟨hf,hfu,hl⟩ := h
  have hm : 1≤OUTPUT_GROUP_MAX_ENTRIES := by decide
  cases groups with
  | nil => exact ⟨by simp [← hf,Xero.insertOutput],nofun,by simp [Xero.insertOutput,hm]⟩
  | cons g groups =>
    have hg := hl g rfl
    rw [Xero.insertOutput]
    split
    case isTrue hge =>
      refine ⟨by simp [← hf],?_,by simp [hm]⟩
      exact forall_mem_cons.mpr ⟨by omega,hfu⟩
    case isFalse hlt => exact ⟨by simp [← hf],hfu,by simp; omega⟩

lemma chunked_foldl (h : Chunked groups outputs) (m : List O) :
    Chunked (m.foldl insertOutput groups) (outputs++m) := by
  induction m generalizing groups outputs with
  | nil => simpa using h
  | cons o m ih => simpa using ih (h.insertOutput o)

lemma spkToGroupsMap_eq [DecidableEq S] (co : List (S×O)) (s : S) :
    spkToGroupsMap co s=(outputsOf co s).foldl insertOutput [] := by
  have hf (m : S → List (List O)) :
      co.foldl (fun groups c => update groups c.1 (insertOutput (groups c.1) c.2)) m s=
        (outputsOf co s).foldl insertOutput (m s) := by
    induction co generalizing m with
    | nil => rfl
    | cons c co ih =>
      rw [foldl_cons,ih]
      by_cases hc : c.1=s
      · simp [outputsOf,hc]
      · simp [outputsOf,hc,update_of_ne (Ne.symm hc)]
  exact hf _

lemma chunked_spkToGroupsMap [DecidableEq S] (c : List (S×O)) (s : S) :
    Chunked (spkToGroupsMap c s) (outputsOf c s) := by
  rw [spkToGroupsMap_eq]
  exact chunked_foldl ⟨rfl,by simp,by simp⟩ _

lemma Chunked.last_group {g : List O} (h : Chunked (g::groups) outputs) :
    outputs.length=groups.length*OUTPUT_GROUP_MAX_ENTRIES+g.length ∧
      outputs.drop (groups.length*OUTPUT_GROUP_MAX_ENTRIES)=g := by
  have hl : groups.reverse.flatten.length=groups.length*OUTPUT_GROUP_MAX_ENTRIES := by
    have ha := map_eq_replicate_iff.mpr h.full
    rw [tail_cons] at ha
    rw [length_flatten,map_reverse,sum_reverse,ha,sum_replicate_nat]
  have hf := h.flat
  rw [reverse_cons,flatten_append,flatten_singleton] at hf
  rw [← hf,length_append,hl]
  exact ⟨rfl,drop_left' hl⟩

lemma Chunked.leftOut_iff (h : Chunked groups outputs) (e : List O → Bool) :
    LeavesOutPartial e groups ↔ ¬FullLast e outputs := by
  unfold LeavesOutPartial FullLast
  match groups,h with
  | [],h => simp [pushOutputGroups,← h.flat]
  | [g],h =>
    obtain ⟨hl,-⟩ := h.last_group
    have hg := h.last g rfl
    have hn : (pushOutputGroups e false [g]).2=[] := by simp [pushOutputGroups,apply_ite]
    simp only [hn,not_mem_nil,false_iff,mem_singleton]
    refine ⟨fun _ hlt => ?_,?_⟩
    · simp at hl
      omega
    · rintro - g' ⟨rfl,-,hlt,g',rfl,_⟩
      omega
  | g::r::rest,h =>
    obtain ⟨hl,hd⟩ := h.last_group
    have hg := h.last g rfl
    have ho := h.full
    rw [tail_cons] at ho
    have hle x : x∈(pushOutputGroups e false (g::r::rest)).2 ↔ x=g ∧ e g := by
      cases he : e g <;> simp [pushOutputGroups,he]
    have hs x : (x∈g::r::rest ∧ e x ∧ x.length<OUTPUT_GROUP_MAX_ENTRIES ∧
        ∃ g'∈g::r::rest, g'.length=OUTPUT_GROUP_MAX_ENTRIES) ↔
        x=g ∧ e g ∧ g.length<OUTPUT_GROUP_MAX_ENTRIES := by
      constructor
      · rintro ⟨hx,he,hlt,-⟩
        obtain rfl | hx := mem_cons.mp hx
        · exact ⟨rfl,he,hlt⟩
        · exact absurd (ho x hx) hlt.ne
      · rintro ⟨rfl,he,hlt⟩
        exact ⟨mem_cons_self,he,hlt,r,by simp,ho r mem_cons_self⟩
    simp only [hle,hs]
    -- several groups have more outputs than one holds, a multiple of it when the last one is full
    simp only [length_cons,OUTPUT_GROUP_MAX_ENTRIES] at hl hd hg ⊢
    constructor
    · rintro ha ⟨_,_,he⟩
      rw [show outputs.length-100=(rest.length+1)*100 by omega,hd] at he
      exact absurd ((ha g).mp ⟨rfl,he⟩).2.2 (by omega)
    · refine fun hno x => ⟨fun hx => ⟨hx.1,hx.2,?_⟩,fun hx => ⟨hx.1,hx.2.1⟩⟩
      by_contra hge
      refine hno ⟨by omega,by omega,?_⟩
      rw [show outputs.length-100=(rest.length+1)*100 by omega,hd,hx.2]

/-- Every output is in one group of its script and type, and no group is too large. The partial
groups are the ones left out exactly when no script fills several groups, the last eligible. -/
theorem groupOutputs_leavesOutPartial_iff [DecidableEq S] (coins : List (S×O))
    (eligible : List O → Bool) :
    (∀ s, (spkToGroupsMap coins s).reverse.flatten=outputsOf coins s ∧
      ∀ g∈spkToGroupsMap coins s, g.length≤OUTPUT_GROUP_MAX_ENTRIES) ∧
    ((∀ s, LeavesOutPartial eligible (spkToGroupsMap coins s)) ↔
      ∀ s, ¬FullLast eligible (outputsOf coins s)) := by
  have hc := chunked_spkToGroupsMap coins
  refine ⟨fun s => ⟨(hc s).flat,fun g hg => ?_⟩,forall_congr' fun s => (hc s).leftOut_iff eligible⟩
  have hs := hc s
  revert hs hg
  cases spkToGroupsMap coins s with
  | nil => exact nofun
  | cons l groups =>
    intro hg hs
    obtain rfl | hg := mem_cons.mp hg
    · exact (hs.last g rfl).2
    · exact (hs.full g hg).le

/- With 200 outputs of one script the second group is left out although it is full. -/
theorem groupOutputs_leavesOut_full : ∃ g∈(pushOutputGroups (fun _ => true) false
    (spkToGroupsMap ((range 200).map fun i => ((),i)) ())).2,
    g.length=OUTPUT_GROUP_MAX_ENTRIES := by
  decide +kernel
end Xero
