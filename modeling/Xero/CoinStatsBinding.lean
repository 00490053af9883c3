import Xero.CoinStats

/-! What the data that is hashed in the mode HASH_SERIALIZED says about the UTXO set. -/
namespace Xero.CoinStats
open Library List
variable {x y : Bytes} {n : Nat} {hash : Uint256} {outs : Outputs} {c : Coin}

/-- The database key of a coin, after the byte all coins share. -/
def coinKey (o : OutPoint) : Bytes := serWritedata 32 o.hash++writeVarInt o.n

/- A coin as it can be in the set: an output index, an amount in range, and a script short enough to
be spendable. -/
structure CoinValid (o : OutPoint) (c : Coin) : Prop where
  hash : o.hash<256^32
  n : o.n<NULL_INDEX
  script : c.out.scriptPubKey.length≤MAX_SCRIPT_SIZE
  value : 0 ≤ c.out.nValue ∧ c.out.nValue≤MAX_MONEY

/-- A UTXO set, as the list its cursor returns in the order of the keys. -/
structure UtxoSet where
  coins : List (OutPoint×Coin)
  sorted : coins.Pairwise fun p q => coinKey p.1 < coinKey q.1
  valid : ∀ p∈coins, CoinValid p.1 p.2

variable (transform : Compression) (hashBlock : Uint256)

/-- What is fed to the hasher for a set with the given best block. -/
def fedBytes (nHeight : Int) (set : UtxoSet) : Except StatsError Bytes := do
  let s ← scanCursor (serialized transform) {nHeight, hashBlock} (set.coins.map some)
  pure s.hash_obj

section
def outputBytes (n : Nat) (out : TxOut) : Bytes :=
  writeVarInt (n+1)++(serializeBytes out.scriptPubKey++writeVarInt out.nValue.toNat)

structure Entry where
  hash : Uint256
  code : Nat
  outs : List (Nat×TxOut)

def entryBytes (e : Entry) : Bytes :=
  serWritedata 32 e.hash++(writeVarInt e.code++(e.outs.flatMap (fun o => outputBytes o.1 o.2)++
    writeVarInt 0))

structure Entry.Valid (e : Entry) : Prop where
  hash : e.hash<256^32
  code : e.code≤1
  outs : ∀ o∈e.outs, o.1<NULL_INDEX ∧ o.2.scriptPubKey.length≤MAX_SCRIPT_SIZE ∧
    0≤o.2.nValue ∧ o.2.nValue≤MAX_MONEY

lemma script_inj {s t : Bytes} (hs : s.length≤MAX_SCRIPT_SIZE) (ht : t.length≤MAX_SCRIPT_SIZE)
    (h : serializeBytes s++x=serializeBytes t++y) : s=t ∧ x=y := by
  have hl : MAX_SCRIPT_SIZE≤MAX_SIZE := by decide
  have hr := codec_unserializeBytes.reads s x (hs.trans hl)
  rw [h,codec_unserializeBytes.reads t y (ht.trans hl)] at hr
  cases hr
  exact ⟨rfl,rfl⟩

lemma hash_inj {a b : Nat} (ha : a<256^32) (hb : b<256^32)
    (h : serWritedata 32 a++x=serWritedata 32 b++y) : a=b ∧ x=y := by
  have hr := (codec_serReaddata 32).reads a x ha
  rw [h,(codec_serReaddata 32).reads b y hb] at hr
  cases hr
  exact ⟨rfl,rfl⟩

lemma outputs_inj {outs ou' : List (Nat×TxOut)}
    (h1 : ∀ o∈outs, o.1<NULL_INDEX ∧ o.2.scriptPubKey.length≤MAX_SCRIPT_SIZE ∧
      0≤o.2.nValue ∧ o.2.nValue≤MAX_MONEY)
    (h2 : ∀ o∈ou', o.1<NULL_INDEX ∧ o.2.scriptPubKey.length≤MAX_SCRIPT_SIZE ∧
      0≤o.2.nValue ∧ o.2.nValue≤MAX_MONEY)
    (h : outs.flatMap (fun o => outputBytes o.1 o.2)++(writeVarInt 0++x)=
      ou'.flatMap (fun o => outputBytes o.1 o.2)++(writeVarInt 0++y)) : outs=ou' ∧ x=y := by
  induction outs generalizing ou' with
  | nil =>
    cases ou' with
    | nil => exact ⟨rfl,(varInt_inj h).2⟩
    | cons o ou' =>
      rw [flatMap_cons,outputBytes,append_assoc,append_assoc] at h
      exact absurd (varInt_inj h).1 (Nat.succ_ne_zero _).symm
  | cons o outs ih =>
    cases ou' with
    | nil =>
      rw [flatMap_cons,outputBytes,append_assoc,append_assoc] at h
      exact absurd (varInt_inj h).1 (Nat.succ_ne_zero _)
    | cons o' ou' =>
      obtain ⟨ho,hr1⟩ := forall_mem_cons.mp h1
      obtain ⟨ho',hr2⟩ := forall_mem_cons.mp h2
      simp only [flatMap_cons,outputBytes,append_assoc] at h
      obtain ⟨hn,h⟩ := varInt_inj h
      obtain ⟨hs,h⟩ := script_inj ho.2.1 ho'.2.1 h
      obtain ⟨_,h⟩ := varInt_inj h
      obtain ⟨ht,hx⟩ := ih hr1 hr2 h
      have ha : o.2.nValue=o'.2.nValue := by
        omega
      obtain ⟨n,_,_⟩ := o
      cases hn
      cases hs
      cases ha
      exact ⟨by rw [ht],hx⟩

lemma entries_inj {es es' : List Entry} (h1 : ∀ e∈es, e.Valid) (h2 : ∀ e∈es', e.Valid)
    (h : es.flatMap entryBytes=es'.flatMap entryBytes) : es=es' := by
  have hn : ∀ e, entryBytes e≠[] := by
    intro e hni
    have hl := congrArg length hni
    rw [entryBytes,length_append,serWritedata,length_toLittleEndian,length_nil] at hl
    omega
  induction es generalizing es' with
  | nil =>
    cases es' with
    | nil => rfl
    | cons e es' =>
      exact absurd (append_eq_nil_iff.mp h.symm).1 (hn e)
  | cons e es ih =>
    cases es' with
    | nil =>
      exact absurd (append_eq_nil_iff.mp h).1 (hn e)
    | cons e' es' =>
      obtain ⟨he,hes⟩ := forall_mem_cons.mp h1
      obtain ⟨he',hes'⟩ := forall_mem_cons.mp h2
      simp only [flatMap_cons,entryBytes,append_assoc] at h
      obtain ⟨hh,h⟩ := hash_inj he.hash he'.hash h
      obtain ⟨hc,h⟩ := varInt_inj h
      obtain ⟨ho,hr⟩ := outputs_inj he.outs he'.outs h
      obtain ⟨hash,_,outs⟩ := e
      cases hh
      cases hc
      cases ho
      rw [ih hes hes' hr]
end
section
lemma lt_or_eq_of_append_lt {u v : Bytes} (hl : x.length=y.length) (h : x++u<y++v) : x<y ∨ x=y := by
  induction x generalizing y with
  | nil =>
    exact .inr (eq_nil_of_length_eq_zero hl.symm).symm
  | cons a x ih =>
    cases y with
    | nil => cases hl
    | cons b y =>
      rw [cons_append,cons_append,cons_lt_cons_iff] at h
      rw [cons_lt_cons_iff]
      obtain hlt | ⟨rfl,hlt⟩ := h
      · exact .inl (.inl hlt)
      · obtain hlt | rfl := ih (Nat.succ.inj hl) hlt
        · exact .inl (.inr ⟨rfl,hlt⟩)
        · exact .inr rfl

def HashLt (a b : Uint256) : Prop := serWritedata 32 a < serWritedata 32 b

lemma HashLt.ne {a b : Uint256} (h : HashLt a b) : a≠b := by
  intro he
  rw [he] at h
  exact List.lt_irrefl _ h

lemma HashLt.trans {a b c : Uint256} (h : HashLt a b) (h' : HashLt b c) : HashLt a c :=
  List.lt_trans h h'

lemma hashLt_or_eq {o o' : OutPoint} (ho : o.hash<256^32) (ho' : o'.hash<256^32)
    (h : coinKey o < coinKey o') : HashLt o.hash o'.hash ∨ o.hash=o'.hash := by
  obtain hl | he := lt_or_eq_of_append_lt (by simp [serWritedata,length_toLittleEndian]) h
  · exact .inl hl
  · refine .inr ?_
    have hi := hash_inj ho ho' (congrArg (·++[]) he)
    exact hi.1
end
section
variable {ou : Outputs}

lemma mem_setOutput {coin : Coin} (h : ∀ o∈ou, o.1≠n)
    (x : Nat×Coin) : x∈setOutput n coin ou ↔ x=(n,coin) ∨ x∈ou := by
  induction ou with
  | nil => simp [setOutput]
  | cons o ou ih =>
    obtain ⟨m,c⟩ := o
    obtain ⟨ho,hr⟩ := forall_mem_cons.mp h
    rw [setOutput]
    by_cases hl : n < m
    · rw [if_pos hl,mem_cons]
    · rw [if_neg hl,if_neg (fun he => ho he.symm),mem_cons,ih hr,mem_cons]
      exact or_left_comm

lemma sorted_setOutput {coin : Coin} (h : ∀ o∈ou, o.1≠n) (hs : ou.Pairwise fun a b => a.1<b.1) :
    (setOutput n coin ou).Pairwise fun a b => a.1<b.1 := by
  induction ou with
  | nil => exact pairwise_singleton _ _
  | cons o ou ih =>
    obtain ⟨m,c⟩ := o
    obtain ⟨ho,hr⟩ := forall_mem_cons.mp h
    obtain ⟨hf,ht⟩ := pairwise_cons.mp hs
    have hn : ¬n=m := fun he => ho he.symm
    rw [setOutput]
    by_cases hl : n < m
    · rw [if_pos hl]
      exact pairwise_cons.mpr ⟨forall_mem_cons.mpr ⟨hl,fun x hx => hl.trans (hf x hx)⟩,hs⟩
    · rw [if_neg hl,if_neg hn]
      refine pairwise_cons.mpr ⟨fun x hx => ?_,ih hr ht⟩
      obtain rfl | hx := (mem_setOutput hr x).mp hx
      · omega
      · exact hf x hx

/-- The groups are the coins by transaction. -/
structure Grouped (coin : Uint256 → Nat → Coin → Prop) (gs : List (Uint256×Outputs)) : Prop where
  mem : ∀ h n c, coin h n c ↔ ∃ outs, (h,outs)∈gs ∧ (n,c)∈outs
  hashes : gs.Pairwise fun g g' => g.1≠g'.1
  sorted : ∀ g∈gs, g.2≠[] ∧ g.2.Pairwise fun a b => a.1<b.1

variable {ci : Uint256 → Nat → Coin → Prop} {gs : List (Uint256×Outputs)}

lemma Grouped.congr {c' : Uint256 → Nat → Coin → Prop}
    (h : Grouped ci gs) (hi : ∀ hash n c, c' hash n c ↔ ci hash n c) : Grouped c' gs :=
  ⟨fun hash n c => (hi hash n c).trans (h.mem hash n c),h.hashes,h.sorted⟩

lemma Grouped.cons (h : Grouped ci gs) (hne : ou≠[])
    (hs : ou.Pairwise fun a b => a.1<b.1) (hn : ∀ n c, ¬ci hash n c) :
    Grouped (fun hash' n c => hash'=hash ∧ (n,c)∈ou ∨ ci hash' n c)
      ((hash,ou)::gs) := by
  refine ⟨fun hash' n c => ?_,pairwise_cons.mpr ⟨fun g hg he => ?_,h.hashes⟩,
    forall_mem_cons.mpr ⟨⟨hne,hs⟩,h.sorted⟩⟩
  · rw [h.mem]
    simp [or_and_right,exists_or,and_assoc]
  · obtain ⟨⟨n,c⟩,_,hg'⟩ := exists_cons_of_ne_nil (h.sorted g hg).1
    refine hn n c ((h.mem hash n c).mpr ⟨g.2,?_,by rw [hg']; exact mem_cons_self⟩)
    rw [show hash=g.1 from he]
    exact hg

/-- In a list by transactions, with different indices in each, the groups are found. -/
lemma grouped_groupsFrom {pr : Uint256} {co : List (OutPoint×Coin)}
    (hou : ou.Pairwise fun a b => a.1<b.1)
    (hl : ou≠[] → ∀ p∈co, HashLt pr p.1.hash ∨ pr=p.1.hash ∧ ∀ o∈ou, o.1≠p.1.n)
    (hco : co.Pairwise fun p q => HashLt p.1.hash q.1.hash ∨ p.1.hash=q.1.hash ∧ p.1.n≠q.1.n) :
    Grouped (fun h n c => h=pr ∧ (n,c)∈ou ∨ (⟨h,n⟩,c)∈co)
      (groupsFrom pr ou co) := by
  induction co generalizing pr ou with
  | nil =>
    have he : Grouped (fun h n c => (⟨h,n⟩,c)∈([] : List (OutPoint×Coin))) [] :=
      ⟨by simp,List.Pairwise.nil,fun g hg => absurd hg not_mem_nil⟩
    rw [groupsFrom]
    by_cases hno : ou.isEmpty
    · rw [if_pos hno]
      have hn : ou=[] := by simpa using hno
      exact he.congr (by simp [hn])
    · rw [if_neg hno]
      exact he.cons (by simpa using hno) hou (by simp)
  | cons e co ih =>
    obtain ⟨k,ci⟩ := e
    obtain ⟨hf,hr⟩ := pairwise_cons.mp hco
    have hen : ∀ h n c, ((⟨h,n⟩ : OutPoint),c)=(k,ci) ↔ h=k.hash ∧ n=k.n ∧ c=ci := by
      intro h n c
      obtain ⟨_,_⟩ := k
      rw [Prod.mk.injEq,OutPoint.mk.injEq,and_assoc]
    rw [groupsFrom]
    by_cases hne : (!ou.isEmpty && decide (k.hash≠pr))
    · rw [if_pos hne]
      simp only [Bool.and_eq_true,Bool.not_eq_true',isEmpty_eq_false_iff,decide_eq_true_eq] at hne
      have hk : HashLt pr k.hash :=
        (hl hne.1 _ mem_cons_self).resolve_right fun heq => hne.2 heq.1.symm
      have hi : Grouped _ (groupsFrom k.hash (setOutput k.n ci []) co) :=
        ih (pairwise_singleton _ _) (fun _ p hp => (hf p hp).imp_right fun heq =>
          ⟨heq.1,fun o ho => by cases mem_singleton.mp ho; exact heq.2⟩) hr
      refine (hi.cons hne.1 hou fun n c hc => ?_).congr fun h n c => ?_
      · obtain ⟨heq,-⟩ | hm := hc
        · exact hne.2 heq.symm
        · have ha : HashLt pr pr := by
            obtain hlt | heq := hf _ hm
            · exact hk.trans hlt
            · exact absurd heq.1 hne.2
          exact ha.ne rfl
      · rw [mem_cons,hen,setOutput,mem_singleton,Prod.mk.injEq]
    · rw [if_neg hne]
      have hs : ou=[] ∨ pr=k.hash ∧ ∀ o∈ou, o.1≠k.n := by
        by_cases hn : ou=[]
        · exact .inl hn
        · refine .inr ((hl hn _ mem_cons_self).resolve_left fun hlt => hne ?_)
          simp [hn,hlt.ne.symm]
      have hfr : ∀ o∈ou, o.1≠k.n := by
        obtain hn | heq := hs
        · exact fun o ho => absurd (hn ▸ ho) not_mem_nil
        · exact heq.2
      have hl' : ∀ p∈co, HashLt k.hash p.1.hash ∨
          k.hash=p.1.hash ∧ ∀ o∈setOutput k.n ci ou, o.1≠p.1.n := by
        intro p hp
        refine (hf p hp).imp_right fun heq => ⟨heq.1,fun o ho => ?_⟩
        obtain rfl | ho := (mem_setOutput hfr o).mp ho
        · exact heq.2
        obtain hn | hpr := hs
        · exact absurd (hn ▸ ho) not_mem_nil
        obtain hlt | hd := hl (ne_nil_of_mem ho) p (mem_cons_of_mem _ hp)
        · exact absurd (hpr.1.trans heq.1) hlt.ne
        · exact hd.2 o ho
      refine (ih (sorted_setOutput hfr hou) (fun _ => hl') hr).congr fun h n c => ?_
      rw [mem_cons,hen,mem_setOutput hfr,Prod.mk.injEq]
      obtain hn | heq := hs
      · simp [hn]
      · rw [heq.1]
        simp only [and_or_left,or_assoc]
        exact or_left_comm

lemma UtxoSet.separated (set : UtxoSet) : set.coins.Pairwise fun p q =>
    HashLt p.1.hash q.1.hash ∨ p.1.hash=q.1.hash ∧ p.1.n≠q.1.n := by
  refine set.sorted.imp_of_mem fun {p q} hp hq hl => ?_
  refine (hashLt_or_eq (set.valid p hp).hash (set.valid q hq).hash hl).imp_right
    fun he => ⟨he,fun hn => ?_⟩
  have hs : p.1=q.1 := by
    obtain ⟨⟨h,n⟩,c⟩ := p
    obtain ⟨⟨_,_⟩,_⟩ := q
    cases he
    cases hn
    rfl
  rw [hs] at hl
  exact List.lt_irrefl _ hl

lemma UtxoSet.grouped (set : UtxoSet) : Grouped (fun h n c => (⟨h,n⟩,c)∈set.coins)
    (groups set.coins) :=
  (grouped_groupsFrom List.Pairwise.nil (fun hn => absurd rfl hn) set.separated).congr
    fun h n c => by simp

lemma UtxoSet.nodup (set : UtxoSet) : (set.coins.map Prod.fst).Nodup := by
  refine pairwise_map.mpr (set.sorted.imp fun {p q} hl he => ?_)
  rw [he] at hl
  exact List.lt_irrefl _ hl

lemma Grouped.mem_iff (h : Grouped ci gs) (hg : (hash,outs)∈gs) (n : Nat) (c : Coin) :
    ci hash n c ↔ (n,c)∈outs := by
  rw [h.mem]
  refine ⟨fun ⟨o',hg',hm⟩ => ?_,fun hm => ⟨outs,hg,hm⟩⟩
  have hn : (gs.map Prod.fst).Nodup := pairwise_map.mpr h.hashes
  have hs := (Prod.mk.inj (inj_on_of_nodup_map hn hg hg' rfl)).2
  rwa [← hs] at hm
end
section
def codeOf (outs : Outputs) : Nat := (outs.head?.map fun o => heightCode o.2).getD 0

def entryOf (g : Uint256×Outputs) : Entry where
  hash := g.1
  code := codeOf g.2
  outs := g.2.map fun o => (o.1,o.2.out)
def OutputsValid (outs : Outputs) : Prop :=
  ∀ o∈outs, o.1<NULL_INDEX ∧ o.2.out.scriptPubKey.length≤MAX_SCRIPT_SIZE ∧
    0≤o.2.out.nValue ∧ o.2.out.nValue≤MAX_MONEY

lemma applyHashFrom_rest (h : OutputsValid outs) (hne : outs≠[])
    (ss : Bytes) : applyHashFrom hash false ss outs=
      ss++((outs.map fun o => (o.1,o.2.out)).flatMap (fun o =>
      outputBytes o.1 o.2)++writeVarInt 0) := by
  induction outs generalizing ss with
  | nil => exact absurd rfl hne
  | cons o outs ih =>
    obtain ⟨n,c⟩ := o
    obtain ⟨ho,hr⟩ := forall_mem_cons.mp h
    have hn : (n+1)%2^32=n+1 := by
      have hl := ho.1
      unfold NULL_INDEX at hl
      omega
    have hv : writeVarIntSigned c.out.nValue=writeVarInt c.out.nValue.toNat := by
      rw [writeVarIntSigned,if_neg (not_lt.mpr ho.2.2.1)]
    rw [applyHashFrom,if_neg Bool.false_ne_true,hn,hv]
    cases outs with
    | nil =>
      simp [applyHashFrom,outputBytes]
    | cons o' outs =>
      rw [isEmpty_cons,if_neg Bool.false_ne_true,ih hr (cons_ne_nil _ _)]
      simp [outputBytes]

lemma applyHashFrom_entry (h : OutputsValid outs) (hn : outs≠[])
    (ss : Bytes) : applyHashFrom hash true ss outs=ss++entryBytes (entryOf (hash,outs)) := by
  cases outs with
  | nil => exact absurd rfl hn
  | cons o outs =>
    have hb : applyHashFrom hash true ss (o::outs)=
        applyHashFrom hash false (ss++serWritedata 32 hash++writeVarInt (heightCode o.2))
            (o::outs) := by
      rfl
    rw [hb,applyHashFrom_rest h hn]
    simp [entryBytes,entryOf,codeOf]

def UtxoSet.entries (set : UtxoSet) : List Entry := (groups set.coins).map entryOf

lemma UtxoSet.group_valid (set : UtxoSet) {g : Uint256×Outputs} (hg : g∈groups set.coins) :
    g.1<256^32 ∧ OutputsValid g.2 := by
  have hgr := set.grouped
  have hc : ∀ o∈g.2, CoinValid ⟨g.1,o.1⟩ o.2 := fun o ho =>
    set.valid _ ((hgr.mem_iff hg o.1 o.2).mpr ho)
  obtain ⟨o,_,hou⟩ := exists_cons_of_ne_nil (hgr.sorted g hg).1
  refine ⟨(hc o (hou ▸ mem_cons_self)).hash,fun o ho => ?_⟩
  have hv := hc o ho
  exact ⟨hv.n,hv.script,hv.value⟩

lemma UtxoSet.entries_valid (set : UtxoSet) : ∀ e∈set.entries, e.Valid := by
  intro e he
  obtain ⟨g,hg,rfl⟩ := mem_map.mp he
  obtain ⟨hh,hou⟩ := set.group_valid hg
  refine ⟨hh,?_,fun o ho => ?_⟩
  · show codeOf g.2≤1
    unfold codeOf
    cases g.2 with
    | nil => exact Nat.zero_le 1
    | cons o outs =>
      simp only [head?_cons,Option.map_some,Option.getD_some,heightCode]
      split_ifs
      · exact le_refl 1
      · exact Nat.zero_le 1
  · obtain ⟨o',ho',rfl⟩ := mem_map.mp ho
    exact hou o' ho'

lemma fedBytes_eq (nHeight : Int) (set : UtxoSet) : fedBytes transform hashBlock nHeight set=
      .ok (serWritedata 32 hashBlock++set.entries.flatMap entryBytes) := by
  obtain ⟨s,hs,hh,-⟩ := scanCursor_groups (serialized transform) {nHeight, hashBlock} set.coins
  have hf : ∀ gs : List (Uint256×Outputs), (∀ g∈gs, g∈groups set.coins) → ∀ ss : Bytes,
      gs.foldl (fun ss g =>
          applyHashFrom g.1 true ss g.2) ss=ss++(gs.map entryOf).flatMap entryBytes := by
    intro gs
    induction gs with
    | nil =>
      intro _ ss
      rw [map_nil,flatMap_nil,append_nil]
      rfl
    | cons g gs ih =>
      intro hgs ss
      obtain ⟨hg,hr⟩ := forall_mem_cons.mp hgs
      rw [foldl_cons,ih hr,applyHashFrom_entry (set.group_valid hg).2 (set.grouped.sorted g hg).1,
        map_cons,flatMap_cons,append_assoc]
  have hb : s.hash_obj=serWritedata 32 hashBlock++set.entries.flatMap entryBytes :=
    hh.trans (hf _ (fun g hg => hg) _)
  simp only [fedBytes,hs,ok_bind,pure_ok,hb]

/-- The sets agree in their outpoints, scripts and amounts, and, for the lowest output of each
transaction, in whether height and coinbase flag are both zero. -/
structure Indistinct (a b : UtxoSet) : Prop where
  outs : ∀ o out, (∃ c, (o,c)∈a.coins ∧ c.out=out) ↔ ∃ c, (o,c)∈b.coins ∧ c.out=out
  first : ∀ o c c', (o,c)∈a.coins → (o,c')∈b.coins →
    (∀ n d, (⟨o.hash,n⟩,d)∈a.coins → o.n≤n) →
    (c.nHeight=0 ∧ c.fCoinBase=false ↔ c'.nHeight=0 ∧ c'.fCoinBase=false)

lemma heightCode_inj {c' : Coin} : heightCode c=heightCode c' ↔
    (c.nHeight=0 ∧ c.fCoinBase=false ↔ c'.nHeight=0 ∧ c'.fCoinBase=false) := by
  have hz : ∀ d : Coin, d.nHeight*2+d.fCoinBase.toNat=0 ↔ d.nHeight=0 ∧ d.fCoinBase=false := by
    intro d
    cases d.fCoinBase with
    | false => simp
    | true => simp
  unfold heightCode
  rw [← hz c,← hz c']
  by_cases hc : c.nHeight*2+c.fCoinBase.toNat=0
  · by_cases hc' : c'.nHeight*2+c'.fCoinBase.toNat=0
    · simp only [hc,hc']
    · simp [hc]
  · by_cases hc' : c'.nHeight*2+c'.fCoinBase.toNat=0
    · simp [hc']
    · simp only [hc,hc',ne_eq,not_false_iff,if_true]

lemma codeOf_lowest (hs : outs.Pairwise fun a b => a.1<b.1)
    (hm : (n,c)∈outs) (hl : ∀ o∈outs, n≤o.1) : codeOf outs=heightCode c := by
  cases outs with
  | nil => cases hm
  | cons o outs =>
    obtain rfl | hla := mem_cons.mp hm
    · rfl
    · have hlt := (pairwise_cons.mp hs).1 _ hla
      have hle := hl o mem_cons_self
      exact absurd hlt (not_lt.mpr hle)

section
variable {a b : UtxoSet}

lemma group_of_entries (h : a.entries=b.entries) (hg : (hash,outs)∈groups a.coins) :
    ∃ outs', (hash,outs')∈groups b.coins ∧ codeOf outs=codeOf outs' ∧
      outs.map (fun o => (o.1,o.2.out))=outs'.map fun o => (o.1,o.2.out) := by
  have hm : entryOf (hash,outs)∈b.entries := h ▸ mem_map_of_mem hg
  obtain ⟨⟨_,outs'⟩,hg',he⟩ := mem_map.mp hm
  obtain ⟨hh,hc,ho⟩ := Entry.mk.inj he
  cases hh
  exact ⟨outs',hg',hc.symm,ho.symm⟩

lemma coin_of_entries (h : a.entries=b.entries) {o : OutPoint} (hc : (o,c)∈a.coins) :
    ∃ c', (o,c')∈b.coins ∧ c'.out=c.out := by
  obtain ⟨_,hg,hm⟩ := (a.grouped.mem o.hash o.n c).mp hc
  obtain ⟨o',hg',-,ho⟩ := group_of_entries h hg
  have hou : (o.n,c.out)∈o'.map fun o => (o.1,o.2.out) := ho ▸ mem_map_of_mem hm
  obtain ⟨⟨n,c'⟩,hm',he⟩ := mem_map.mp hou
  obtain ⟨hn,hc'⟩ := Prod.mk.inj he
  cases hn
  exact ⟨c',(b.grouped.mem_iff hg' _ c').mpr hm',hc'⟩

lemma indistinct_of_entries (h : a.entries=b.entries) : Indistinct a b := by
  refine ⟨fun o out => ⟨fun ⟨c,hc,ho⟩ => ?_,fun ⟨c,hc,ho⟩ => ?_⟩,fun o c c' hc hc' hlo => ?_⟩
  · obtain ⟨c',hc',ho'⟩ := coin_of_entries h hc
    exact ⟨c',hc',ho'.trans ho⟩
  · obtain ⟨c',hc',ho'⟩ := coin_of_entries h.symm hc
    exact ⟨c',hc',ho'.trans ho⟩
  · obtain ⟨outs,hg,hm⟩ := (a.grouped.mem o.hash o.n c).mp hc
    obtain ⟨outs',hg',hco,hou⟩ := group_of_entries h hg
    have hm' : (o.n,c')∈outs' := (b.grouped.mem_iff hg' o.n c').mp hc'
    have hl : ∀ p∈outs, o.n≤p.1 := fun p hp =>
      hlo p.1 p.2 ((a.grouped.mem_iff hg p.1 p.2).mpr hp)
    have hl' : ∀ p∈outs', o.n≤p.1 := by
      intro p hp
      have ho : (p.1,p.2.out)∈outs.map fun o => (o.1,o.2.out) := hou.symm ▸ mem_map_of_mem hp
      obtain ⟨q,hq,heq⟩ := mem_map.mp ho
      exact (Prod.mk.inj heq).1 ▸ hl q hq
    rw [← heightCode_inj,← codeOf_lowest (a.grouped.sorted _ hg).2 hm hl,hco,
      codeOf_lowest (b.grouped.sorted _ hg').2 hm' hl']

lemma map_setOutput {c' : Coin} {ou' : Outputs} (hc : c.out=c'.out)
    (h : outs.map (fun o => (o.1,o.2.out))=ou'.map fun o => (o.1,o.2.out)) :
    (setOutput n c outs).map (fun o => (o.1,o.2.out))=
      (setOutput n c' ou').map fun o => (o.1,o.2.out) := by
  induction outs generalizing ou' with
  | nil =>
    cases ou' with
    | nil => simp [setOutput,hc]
    | cons o ou' => cases h
  | cons o outs ih =>
    cases ou' with
    | nil => cases h
    | cons o' ou' =>
      obtain ⟨hh,ht⟩ := cons.inj h
      obtain ⟨m,d⟩ := o
      obtain ⟨_,d'⟩ := o'
      obtain ⟨hm,hd⟩ := Prod.mk.inj hh
      cases hm
      rw [setOutput,setOutput]
      split_ifs
      · simp only [map_cons,hc,ht]
        rw [show d.out=d'.out from hd]
      · simp [hc,ht]
      · simp only [map_cons,ih ht]
        rw [show d.out=d'.out from hd]

lemma groupsFrom_congr {pr : Uint256} {o' : Outputs} {cs cs' : List (OutPoint×Coin)}
    (ho : outs.map (fun o => (o.1,o.2.out))=o'.map fun o => (o.1,o.2.out))
    (h : cs.map (fun p => (p.1,p.2.out))=cs'.map fun p => (p.1,p.2.out)) :
    (groupsFrom pr outs cs).map (fun g => (g.1,g.2.map fun o => (o.1,o.2.out)))=
      (groupsFrom pr o' cs').map fun g => (g.1,g.2.map fun o => (o.1,o.2.out)) := by
  have he : ∀ {os os' : Outputs}, os.map (fun o => (o.1,o.2.out))=
      os'.map (fun o => (o.1,o.2.out)) → os.isEmpty=os'.isEmpty := by
    intro os os' heq
    have hl := congrArg isEmpty heq
    rwa [isEmpty_map,isEmpty_map] at hl
  induction cs generalizing pr outs o' cs' with
  | nil =>
    cases cs' with
    | nil =>
      rw [groupsFrom,groupsFrom,he ho]
      split_ifs
      · rfl
      · simp [ho]
    | cons p cs' => cases h
  | cons p cs ih =>
    cases cs' with
    | nil => cases h
    | cons p' cs' =>
      obtain ⟨hh,ht⟩ := cons.inj h
      obtain ⟨_,c⟩ := p
      obtain ⟨_,_⟩ := p'
      obtain ⟨hk,hc⟩ := Prod.mk.inj hh
      cases hk
      rw [groupsFrom,groupsFrom,he ho]
      split_ifs
      · rw [map_cons,map_cons,ho,ih (map_setOutput hc rfl) ht]
      · exact ih (map_setOutput hc ho) ht

lemma coins_of_indistinct (h : Indistinct a b) :
    a.coins.map (fun p => (p.1,p.2.out))=b.coins.map fun p => (p.1,p.2.out) := by
  have hn : ∀ s : UtxoSet, (s.coins.map fun p => (p.1,p.2.out)).Nodup := by
    intro s
    have hf : (s.coins.map fun p => (p.1,p.2.out)).map Prod.fst=s.coins.map Prod.fst := by
      rw [map_map]
      rfl
    exact List.Nodup.of_map Prod.fst (hf ▸ s.nodup)
  have hs : ∀ s : UtxoSet, (s.coins.map fun p => (p.1,p.2.out)).Pairwise
      fun p q => coinKey p.1 < coinKey q.1 := fun s => pairwise_map.mpr s.sorted
  refine List.Perm.eq_of_pairwise (fun p q _ _ hp hq => ?_) (hs a) (hs b) ?_
  · exact absurd (List.lt_trans hp hq) (List.lt_irrefl _)
  · rw [perm_ext_iff_of_nodup (hn a) (hn b)]
    rintro ⟨o,out⟩
    have hm : ∀ s : UtxoSet, (o,out)∈(s.coins.map fun p => (p.1,p.2.out)) ↔
        ∃ c, (o,c)∈s.coins ∧ c.out=out := by
      intro s
      simp only [mem_map,Prod.exists,Prod.mk.injEq]
      constructor
      · rintro ⟨_,c,hc,rfl,ho⟩
        exact ⟨c,hc,ho⟩
      · rintro ⟨c,hc,ho⟩
        exact ⟨o,c,hc,rfl,ho⟩
    rw [hm a,hm b]
    exact h.outs o out

lemma entries_of_indistinct (h : Indistinct a b) : a.entries=b.entries := by
  have hgr : (groups a.coins).map (fun g => (g.1,g.2.map fun o => (o.1,o.2.out)))=
      (groups b.coins).map fun g => (g.1,g.2.map fun o => (o.1,o.2.out)) :=
    groupsFrom_congr rfl (coins_of_indistinct h)
  have hp : List.Forall₂ (fun g g' : Uint256×Outputs =>
      (g.1,g.2.map fun o => (o.1,o.2.out))=(g'.1,g'.2.map fun o => (o.1,o.2.out)))
      (groups a.coins) (groups b.coins) := by
    rw [← forall₂_eq_eq_eq,forall₂_map_left_iff,forall₂_map_right_iff] at hgr
    exact hgr
  obtain ⟨hl,hz⟩ := forall₂_iff_zip.mp hp
  have he : List.Forall₂ (fun g g' => entryOf g=entryOf g') (groups a.coins) (groups b.coins) := by
    refine forall₂_iff_zip.mpr ⟨hl,fun {g g'} hm => ?_⟩
    obtain ⟨hg,hg'⟩ := of_mem_zip hm
    obtain ⟨hash,_⟩ := g
    obtain ⟨_,_⟩ := g'
    obtain ⟨hh,ho⟩ := Prod.mk.inj (hz hm)
    cases hh
    obtain ⟨⟨n,c⟩,t,rfl⟩ := exists_cons_of_ne_nil (a.grouped.sorted _ hg).1
    obtain ⟨⟨_,c'⟩,_,rfl⟩ := exists_cons_of_ne_nil (b.grouped.sorted _ hg').1
    obtain ⟨hf,-⟩ := cons.inj ho
    obtain ⟨hn,-⟩ := Prod.mk.inj hf
    cases hn
    have hc := (a.grouped.mem_iff hg n c).mpr mem_cons_self
    have hc' := (b.grouped.mem_iff hg' n c').mpr mem_cons_self
    have hlo : ∀ m d, (⟨hash,m⟩,d)∈a.coins → n ≤ m := by
      intro m d hd
      obtain heq | hla := mem_cons.mp ((a.grouped.mem_iff hg m d).mp hd)
      · exact (Prod.mk.inj heq).1.ge
      · exact ((pairwise_cons.mp (a.grouped.sorted _ hg).2).1 _ hla).le
    have hco := heightCode_inj.mpr (h.first ⟨hash,n⟩ c c' hc hc' hlo)
    show Entry.mk hash (heightCode c) _=Entry.mk hash (heightCode c') _
    rw [hco]
    exact congrArg _ ho
  have hma : List.Forall₂ (· = ·) a.entries b.entries := by
    rw [UtxoSet.entries,UtxoSet.entries,forall₂_map_left_iff,forall₂_map_right_iff]
    exact he
  rwa [forall₂_eq_eq_eq] at hma
end

/-- Two sets with the same best block are told apart exactly if they are not indistinct. -/
theorem fedBytes_ne_iff (nHeight : Int) (a b : UtxoSet) :
    fedBytes transform hashBlock nHeight a≠fedBytes transform hashBlock nHeight b ↔
      ¬Indistinct a b := by
  rw [fedBytes_eq,fedBytes_eq]
  refine not_congr ⟨fun h => ?_,fun h => by rw [entries_of_indistinct h]⟩
  have hb := append_cancel_left (Except.ok.inj h)
  exact indistinct_of_entries (entries_inj a.entries_valid b.entries_valid hb)

def singleCoin (c : Coin) (h : CoinValid ⟨1,0⟩ c) : UtxoSet where
  coins := [(⟨1,0⟩,c)]
  sorted := pairwise_singleton _ _
  valid := by
    intro p hp
    cases mem_singleton.mp hp
    exact h

def atHeightOne : UtxoSet :=
  singleCoin ⟨⟨50,[0x51]⟩,false,1⟩ ⟨by decide,by decide,by decide,by decide⟩
def coinbaseAtHeightTwo : UtxoSet :=
  singleCoin ⟨⟨50,[0x51]⟩,true,2⟩ ⟨by decide,by decide,by decide,by decide⟩

/-- They are different sets with the same data. -/
theorem fedBytes_of_heights : atHeightOne.coins≠coinbaseAtHeightTwo.coins ∧
    ∀ transform hashBlock nHeight, fedBytes transform hashBlock nHeight atHeightOne=
      fedBytes transform hashBlock nHeight coinbaseAtHeightTwo :=
  ⟨by decide,fun _ _ _ => rfl⟩
end
end Xero.CoinStats
