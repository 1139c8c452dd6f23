import CyberRT.Base.AtomicHashMap

/-!
# The buckets of an `AtomicHashMap`

A search stops at the first key that is not too small, and if the key was there when it began, it
cannot pass it by.
-/

namespace Base

open Lib List MapMemory

variable {K V : Type*} {m m' : MapMemory K V} {k : K} {a : Nat} {o : Option Nat} {l : List Nat}

variable {next : Nat → Option Nat} {b : Nat}

def Present (m : MapMemory K V) (l : List Nat) (k : K) : Prop := ∃ a ∈ l, m.keyAt a = some k

theorem next_setNext_entry (m : MapMemory K V) (a : Nat) (target : Option Nat) :
    (fun d => (m.setNext (.entry a) target).next (.entry d)) =
      Function.update (fun d => m.next (.entry d)) a target := by
  funext d
  by_cases hd : d = a
  · simp [setNext, hd]
  · simp [setNext, hd]

theorem next_setNext_head (m : MapMemory K V) (a b : Nat) (target : Option Nat) :
    (m.setNext (.entry a) target).next (.head b) = m.next (.head b) := by
  simp [setNext]

theorem bucket_setNext (ha : a ∉ l) (target : Option Nat) :
    (m.setNext (.entry a) target).Bucket b l ↔ m.Bucket b l := by
  rw [Bucket, next_setNext_entry, next_setNext_head]
  exact chain_update ha target

section
variable [LinearOrder K] {target : Option Nat} {prev : NodeRef} {e : Nat}

theorem MapMemory.KeyLt.trans {a b d : Nat} (h : m.KeyLt a b) (h' : m.KeyLt b d) : m.KeyLt a d := by
  obtain ⟨k₁, k₂, h₁, h₂, hlt⟩ := h
  obtain ⟨k₂', k₃, h₂', h₃, hlt'⟩ := h'
  obtain rfl : k₂ = k₂' := Option.some.inj (h₂.symm.trans h₂')
  exact ⟨k₁, k₃, h₁, h₃, lt_trans hlt hlt'⟩

theorem MapMemory.KeyLt.irrefl (h : m.KeyLt a a) : False := by
  obtain ⟨k₁, k₂, h₁, h₂, hlt⟩ := h
  grind

theorem nodup_of_sorted (h : l.Pairwise m.KeyLt) : l.Nodup :=
  h.imp fun hlt heq => by
    subst heq
    exact hlt.irrefl

theorem MapMemory.KeyLt.congr (ha : m'.keyAt a = m.keyAt a) (hb : m'.keyAt b = m.keyAt b)
    (h : m.KeyLt a b) : m'.KeyLt a b := by
  obtain ⟨k₁, k₂, h₁, h₂, hlt⟩ := h
  exact ⟨k₁, k₂, ha.trans h₁, hb.trans h₂, hlt⟩

section
variable (hchain : Chain next o l)
include hchain

theorem le_of_present (hsorted : l.Pairwise m.KeyLt) (h : Present m l k) :
    ∃ e ∈ o, ∃ k', m.keyAt e = some k' ∧ k' ≤ k := by
  obtain ⟨a, ha, hk⟩ := h
  cases l with
  | nil => cases ha
  | cons e l =>
    refine ⟨e, hchain.1, ?_⟩
    rcases mem_cons.1 ha with rfl | hmem
    · exact ⟨k, hk, le_refl k⟩
    · obtain ⟨k₁, k₂, h₁, h₂, hlt⟩ := (pairwise_cons.1 hsorted).1 a hmem
      grind

theorem le_of_present_behind {ka : K}
    (hsorted : l.Pairwise m.KeyLt) (ha : a ∈ l) (hka : m.keyAt a = some ka) (hlt : ka < k)
    (h : Present m l k) : ∃ e ∈ next a, ∃ k', m.keyAt e = some k' ∧ k' ≤ k := by
  obtain ⟨l₁, l₂, rfl⟩ := append_of_mem ha
  have hparts := pairwise_append.1 hsorted
  refine le_of_present hchain.behind (pairwise_cons.1 hparts.2.1).2 ?_
  obtain ⟨d, hd, hkd⟩ := h
  refine ⟨d, ?_, hkd⟩
  rcases mem_append.1 hd with hfront | hback
  · -- in front of `a` the keys are less than that of `a`
    obtain ⟨k₁, k₂, h₁, h₂, hlt'⟩ := hparts.2.2 d hfront a mem_cons_self
    grind
  · grind

theorem mem_of_chain (he : e ∈ o) : e ∈ l := by
  rw [Option.mem_def.1 he] at hchain
  obtain ⟨l', rfl, -⟩ := hchain.eq_cons
  exact mem_cons_self

theorem mem_of_next (ha : a ∈ l) (he : e ∈ next a) : e ∈ l := by
  obtain ⟨l₁, l₂, rfl⟩ := append_of_mem ha
  have hmem := mem_of_chain hchain.behind he
  exact mem_append_right l₁ (mem_cons_of_mem a hmem)

end

def AtPrev (m : MapMemory K V) (b : Nat) (l : List Nat) (k : K) : NodeRef → Prop
  | .head b' => b' = b
  | .entry p => p ∈ l ∧ ∃ k', m.keyAt p = some k' ∧ k' < k

/-- The place of key `k`: behind `prev`, before `target`. -/
def Gap (m : MapMemory K V) (b : Nat) (l : List Nat) (k : K) (prev : NodeRef)
    (target : Option Nat) : Prop :=
  AtPrev m b l k prev ∧ ∀ e ∈ target, e ∈ l ∧ ∃ k', m.keyAt e = some k' ∧ k < k'

theorem Gap.split (h : Gap m b l k prev target)
    (hbucket : m.Bucket b l) (hsorted : l.Pairwise m.KeyLt) (hprev : m.next prev = target)
    (ha : m.keyAt a = some k) :
    ∃ l₁ l₂, l = l₁ ++ l₂ ∧ (∀ d ∈ l₁, m.KeyLt d a) ∧ (∀ d ∈ l₂, m.KeyLt a d) ∧
      Chain (fun d => m.next (.entry d)) target l₂ ∧
      (prev = .head b ∧ l₁ = [] ∨ ∃ p l₀, prev = .entry p ∧ l₁ = l₀ ++ [p]) := by
  -- behind the place come the target, which is greater, and what is greater still
  have hback : ∀ l₂ : List Nat, l₂.Pairwise m.KeyLt →
      Chain (fun d => m.next (.entry d)) target l₂ → ∀ d ∈ l₂, m.KeyLt a d := by
    intro l₂ hpair hchain d hd
    cases l₂ with
    | nil => cases hd
    | cons e l₂ =>
      obtain ⟨-, k', hk', hlt⟩ := h.2 e hchain.1
      have hae : m.KeyLt a e := ⟨k, k', ha, hk', hlt⟩
      rcases mem_cons.1 hd with rfl | hmem
      · exact hae
      · exact hae.trans ((pairwise_cons.1 hpair).1 d hmem)
  cases prev with
  | head b' =>
    obtain rfl : b' = b := h.1
    have hchain : Chain (fun d => m.next (.entry d)) target l := hprev ▸ hbucket
    exact ⟨[], l, rfl, nofun, hback l hsorted hchain, hchain, .inl ⟨rfl, rfl⟩⟩
  | entry p =>
    obtain ⟨hp, kp, hkp, hlt⟩ := h.1
    obtain ⟨l₀, l₂, rfl⟩ := append_of_mem hp
    have hparts := pairwise_append.1 hsorted
    have hchain : Chain (fun d => m.next (.entry d)) target l₂ := hprev ▸ hbucket.behind
    have hpa : m.KeyLt p a := ⟨kp, k, hkp, ha, hlt⟩
    refine ⟨l₀ ++ [p], l₂, by simp, fun d hd => ?_,
      hback l₂ (pairwise_cons.1 hparts.2.1).2 hchain, hchain, .inr ⟨p, l₀, rfl, rfl⟩⟩
    rcases mem_append.1 hd with hmem | hmem
    · exact (hparts.2.2 d hmem p mem_cons_self).trans hpa
    · grind

theorem pairwise_insert {l₁ l₂ : List Nat} (h : (l₁ ++ l₂).Pairwise m.KeyLt)
    (h₁ : ∀ d ∈ l₁, m.KeyLt d a) (h₂ : ∀ d ∈ l₂, m.KeyLt a d) :
    (l₁ ++ a :: l₂).Pairwise m.KeyLt := by
  obtain ⟨hfront, hback, hcross⟩ := pairwise_append.1 h
  refine pairwise_append.2 ⟨hfront, pairwise_cons.2 ⟨h₂, hback⟩, fun d hd e he => ?_⟩
  grind

theorem Gap.link (h : Gap m b l k prev target)
    (hbucket : m.Bucket b l) (hsorted : l.Pairwise m.KeyLt) (hprev : m.next prev = target)
    (ha : m.keyAt a = some k) (hnext : m.next (.entry a) = target) (hnew : a ∉ l) :
    ∃ l', (m.setNext prev (some a)).Bucket b l' ∧ l'.Pairwise m.KeyLt ∧ l.Sublist l' ∧
      ∀ d, d ∈ l' ↔ d = a ∨ d ∈ l := by
  obtain ⟨l₁, l₂, rfl, h₁, h₂, hchain, hplace⟩ := h.split hbucket hsorted hprev ha
  refine ⟨l₁ ++ a :: l₂, ?_, pairwise_insert hsorted h₁ h₂,
    List.Sublist.append (List.Sublist.refl l₁) (sublist_cons_self a l₂), fun d => by
      simp only [mem_append, mem_cons]
      tauto⟩
  rcases hplace with ⟨rfl, rfl⟩ | ⟨p, l₀, rfl, rfl⟩
  · -- in front of the list
    refine ⟨by simp [setNext], ?_⟩
    simpa [setNext, hnext] using hchain
  · rw [append_assoc, singleton_append] at hbucket hsorted hnew ⊢
    rw [Bucket, next_setNext_entry, next_setNext_head]
    exact Chain.insert hbucket (nodup_of_sorted hsorted) hnew (hnext.trans hprev.symm)

end

/-!
## Threads on an `AtomicHashMap`

What each thread knows of the buckets stays true, for entries are never unlinked and keep their keys
(`Knows.mono`).
-/

open Function

variable {ι : Type*} {pcs : ι → MapPc K V} {pc : MapPc K V}

namespace MapPc

def setCall : MapPc K V → Option (SetCall K V)
  | .first (.set c) | .visit (.set c) _ _ | .newValue c _ | .loadOld c _ | .casValue c _ _
  | .deleteOld c _ | .deleteEntry c | .newEntry c _ _ | .storeNext c _ _ | .casNext c _ _
  | .deleteValue c => some c
  | _ => none

def freshEntry (pc : MapPc K V) : Option (Nat × K × V) :=
  pc.setCall.bind fun c => c.newEntry.map fun a => (a, c.key, c.arg)

def freshCell (pc : MapPc K V) : Option (Nat × V) :=
  pc.setCall.bind fun c => c.newValue.map fun v => (v, c.arg)

def oldCell : MapPc K V → Option Nat
  | .deleteOld _ old => some old
  | _ => none

end MapPc

inductive CellOwner (ι : Type*) where
  | entry (a : Nat)
  | fresh (i : ι)
  | old (i : ι)
  deriving DecidableEq

def cellOf (m : MapMemory K V) (pcs : ι → MapPc K V) : CellOwner ι → Option Nat
  | .entry a => (m.entries a).map MapEntry.valuePtr
  | .fresh i => (pcs i).freshCell.map Prod.fst
  | .old i => (pcs i).oldCell

theorem cellOf_entry {m : MapMemory K V} {e : MapEntry K}
    (he : m.entries a = some e) : cellOf m pcs (.entry a) = some e.valuePtr := by
  simp [cellOf, he]

theorem cellOf_setEntry [DecidableEq ι] (m : MapMemory K V) (pcs : ι → MapPc K V) (a : Nat)
    (e : Option (MapEntry K)) :
    cellOf (m.setEntry a e) pcs = update (cellOf m pcs) (.entry a) (e.map MapEntry.valuePtr) := by
  funext o
  cases o with
  | entry d =>
    by_cases hd : d = a
    · simp [cellOf, setEntry, hd]
    · simp [cellOf, setEntry, hd]
  | fresh j => simp [cellOf]
  | old j => simp [cellOf]

theorem cellOf_put [DecidableEq ι] (m : MapMemory K V) (pcs : ι → MapPc K V) (i : ι)
    (pc : MapPc K V) :
    cellOf m (update pcs i pc) =
      update (update (cellOf m pcs) (.fresh i) (pc.freshCell.map Prod.fst))
        (.old i) pc.oldCell := by
  funext o
  cases o with
  | entry d => simp [cellOf]
  | fresh j =>
    by_cases hj : j = i
    · simp [cellOf, hj]
    · simp [cellOf, hj]
  | old j =>
    by_cases hj : j = i
    · simp [cellOf, hj]
    · simp [cellOf, hj]

theorem cellOf_put_same [DecidableEq ι] {m : MapMemory K V} {i : ι}
    (hcell : pc.freshCell.map Prod.fst = (pcs i).freshCell.map Prod.fst)
    (hold : pc.oldCell = (pcs i).oldCell) : cellOf m (update pcs i pc) = cellOf m pcs := by
  have hfresh : update (cellOf m pcs) (.fresh i) (pc.freshCell.map Prod.fst) =
      cellOf m pcs := update_eq_self_iff.2 hcell
  rw [cellOf_put, hfresh]
  exact update_eq_self_iff.2 hold

namespace MapSystem

variable {conf : MapConf K V} {L L' : Nat → List Nat}
  {s : MapSystem ι K V} {i : ι}

def LinkedAt (conf : MapConf K V) (m : MapMemory K V) (L : Nat → List Nat) (a : Nat) (k : K) :
    Prop :=
  a ∈ L (conf.index k) ∧ m.keyAt a = some k

def mustFind : MapCall K V → Bool
  | .has _ due | .get _ due => due
  | .set c => c.newValue.isSome

def Unmoved (c : SetCall K V) : Prop := c.newValue = none → c.value = c.arg

def CallOk (conf : MapConf K V) (m : MapMemory K V) (L : Nat → List Nat) (call : MapCall K V) :
    Prop :=
  (mustFind call = true → Present m (L (conf.index call.key)) call.key) ∧
    ∀ c, call = .set c → Unmoved c

def Grows (m : MapMemory K V) (L : Nat → List Nat) (m' : MapMemory K V) (L' : Nat → List Nat) :
    Prop :=
  ∀ b, (L b).Sublist (L' b) ∧ ∀ a ∈ L b, m'.keyAt a = m.keyAt a

theorem Grows.of_keyAt (h : ∀ b, ∀ a ∈ L b, m'.keyAt a = m.keyAt a) : Grows m L m' L := fun b =>
  ⟨List.Sublist.refl _, h b⟩

theorem Grows.trans {m'' : MapMemory K V} {L'' : Nat → List Nat} (h : Grows m L m' L')
    (h' : Grows m' L' m'' L'') : Grows m L m'' L'' := fun b =>
  ⟨(h b).1.trans (h' b).1, fun a ha => ((h' b).2 a ((h b).1.subset ha)).trans ((h b).2 a ha)⟩

section
variable (hg : Grows m L m' L')
include hg

theorem LinkedAt.mono {k : K} (h : LinkedAt conf m L a k) : LinkedAt conf m' L' a k :=
  ⟨(hg _).1.subset h.1, ((hg _).2 a h.1).trans h.2⟩

theorem Present.mono {b : Nat} {k : K} (h : Present m (L b) k) : Present m' (L' b) k := by
  obtain ⟨a, ha, hk⟩ := h
  exact ⟨a, (hg b).1.subset ha, ((hg b).2 a ha).trans hk⟩

theorem CallOk.mono {call : MapCall K V} (h : CallOk conf m L call) : CallOk conf m' L' call :=
  ⟨fun hf => Present.mono hg (h.1 hf), h.2⟩

end

variable [LinearOrder K]

def InsertOk (conf : MapConf K V) (m : MapMemory K V) (L : Nat → List Nat) (c : SetCall K V)
    (prev : NodeRef) (target : Option Nat) : Prop :=
  Gap m (conf.index c.key) (L (conf.index c.key)) c.key prev target ∧
    c.newValue = none ∧ c.value = c.arg

/-- What a thread knows of the buckets, by where it is. -/
def Knows (conf : MapConf K V) (m : MapMemory K V) (L : Nat → List Nat) : MapPc K V → Prop
  | .idle => True
  | .first call => CallOk conf m L call
  | .visit call prev target =>
    CallOk conf m L call ∧
      AtPrev m (conf.index call.key) (L (conf.index call.key)) call.key prev ∧
      (∀ e ∈ target, e ∈ L (conf.index call.key)) ∧
      (mustFind call = true → ∃ e ∈ target, ∃ k, m.keyAt e = some k ∧ k ≤ call.key)
  | .loadPtr k _ a | .deref k _ a _ => LinkedAt conf m L a k
  | .newValue c a => LinkedAt conf m L a c.key ∧ Unmoved c
  | .loadOld c a | .casValue c a _ => LinkedAt conf m L a c.key ∧ c.newValue ≠ none
  | .deleteOld c _ | .deleteEntry c => Present m (L (conf.index c.key)) c.key ∧ c.newValue = none
  | .newEntry c prev target => InsertOk conf m L c prev target
  | .storeNext c prev target => InsertOk conf m L c prev target ∧ c.newEntry ≠ none
  | .casNext c prev target =>
    InsertOk conf m L c prev target ∧ ∃ a, c.newEntry = some a ∧ m.next (.entry a) = target
  | .deleteValue c =>
    Present m (L (conf.index c.key)) c.key ∧ c.newValue = none ∧ c.newEntry = none
  | .hasResult _ due found => due = true → found = true
  | .getResult _ due value => due = true → value ≠ none

section
variable (hg : Grows m L m' L') {prev : NodeRef}
include hg

theorem AtPrev.mono {b : Nat} {k : K} (h : AtPrev m b (L b) k prev) :
    AtPrev m' b (L' b) k prev := by
  cases prev with
  | head b' => exact h
  | entry p =>
    obtain ⟨hp, k', hk', hlt⟩ := h
    exact ⟨(hg b).1.subset hp, k', ((hg b).2 p hp).trans hk', hlt⟩

theorem InsertOk.mono {c : SetCall K V} {target : Option Nat}
    (h : InsertOk conf m L c prev target) : InsertOk conf m' L' c prev target := by
  refine ⟨⟨AtPrev.mono hg h.1.1, fun e he => ?_⟩, h.2⟩
  obtain ⟨hmem, k, hk, hlt⟩ := h.1.2 e he
  exact ⟨(hg _).1.subset hmem, k, ((hg _).2 e hmem).trans hk, hlt⟩

theorem Knows.mono
    (hnext : ∀ a x, pc.freshEntry = some (a, x) → m'.next (.entry a) = m.next (.entry a))
    (h : Knows conf m L pc) : Knows conf m' L' pc := by
  cases pc with
  | idle => trivial
  | first call => exact CallOk.mono hg h
  | visit call prev target =>
    obtain ⟨hcall, hprev, hmem, hfind⟩ := h
    refine ⟨CallOk.mono hg hcall, AtPrev.mono hg hprev, fun e he => (hg _).1.subset (hmem e he),
      fun hf => ?_⟩
    obtain ⟨e, he, k, hk, hle⟩ := hfind hf
    exact ⟨e, he, k, ((hg _).2 e (hmem e he)).trans hk, hle⟩
  | loadPtr k due a => exact LinkedAt.mono hg h
  | deref k due a ptr => exact LinkedAt.mono hg h
  | newValue c a => exact ⟨LinkedAt.mono hg h.1, h.2⟩
  | loadOld c a => exact ⟨LinkedAt.mono hg h.1, h.2⟩
  | casValue c a old => exact ⟨LinkedAt.mono hg h.1, h.2⟩
  | deleteOld c old => exact ⟨Present.mono hg h.1, h.2⟩
  | deleteEntry c => exact ⟨Present.mono hg h.1, h.2⟩
  | newEntry c prev target => exact InsertOk.mono hg h
  | storeNext c prev target => exact ⟨InsertOk.mono hg h.1, h.2⟩
  | casNext c prev target =>
    obtain ⟨hins, a, ha, hlink⟩ := h
    refine ⟨InsertOk.mono hg hins, a, ha, ?_⟩
    rw [hnext a (c.key, c.arg) (by simp [MapPc.freshEntry, MapPc.setCall, ha])]
    exact hlink
  | deleteValue c => exact ⟨Present.mono hg h.1, h.2⟩
  | hasResult k due found => exact h
  | getResult k due value => exact h

end

structure Inv (conf : MapConf K V) (s : MapSystem ι K V) (L : Nat → List Nat) : Prop where
  bucket : ∀ b, s.mem.Bucket b (L b)
  sorted : ∀ b, (L b).Pairwise s.mem.KeyLt
  indexed : ∀ b, ∀ a ∈ L b, ∃ k, s.mem.keyAt a = some k ∧ conf.index k = b
  cells : OneOwner (cellOf s.mem s.pcs) s.mem.vals
  entryOwner : ∀ i j a x y, (s.pcs i).freshEntry = some (a, x) →
    (s.pcs j).freshEntry = some (a, y) → i = j
  freshEntry : ∀ i a k x, (s.pcs i).freshEntry = some (a, k, x) →
    (∀ b, a ∉ L b) ∧ ∃ v, s.mem.entries a = some ⟨k, v⟩ ∧ s.mem.vals v = some x
  freshCell : ∀ i v x, (s.pcs i).freshCell = some (v, x) → s.mem.vals v = some x
  values : ∀ b, ∀ a ∈ L b, ∀ e, s.mem.entries a = some e →
    ∃ x, s.mem.vals e.valuePtr = some x ∧ (e.key, x) ∈ s.stored
  completed : ∀ k ∈ s.completed, Present s.mem (L (conf.index k)) k
  knows : ∀ i, Knows conf s.mem L (s.pcs i)

theorem Inv.init : Inv conf (init : MapSystem ι K V) fun _ => [] where
  bucket _ := rfl
  sorted _ := List.Pairwise.nil
  indexed _ _ h := by cases h
  cells := by
    have hnone : ∀ o, cellOf (MapSystem.init : MapSystem ι K V).mem
        (MapSystem.init : MapSystem ι K V).pcs o = none := by
      intro o
      cases o <;> rfl
    exact ⟨fun o o' v h => by simp [hnone o] at h, fun o v h => by simp [hnone o] at h⟩
  entryOwner _ _ _ _ _ h := by cases h
  freshEntry _ _ _ _ h := by cases h
  freshCell _ _ _ h := by cases h
  values _ _ h := by cases h
  completed _ h := by cases h
  knows _ := trivial

section
variable (h : Inv conf s L)
include h

theorem Inv.found : s.Found := by
  intro i k
  have hknows := h.knows i
  constructor
  · intro hpc
    rw [hpc] at hknows
    exact absurd (hknows rfl) (by decide)
  · intro hpc
    rw [hpc] at hknows
    exact hknows rfl rfl

theorem Inv.isSorted : s.Sorted := fun b => ⟨L b, h.bucket b, h.sorted b⟩

theorem Inv.addStored (p : K × V) : Inv conf { s with stored := p :: s.stored } L where
  bucket := h.bucket
  sorted := h.sorted
  indexed := h.indexed
  cells := h.cells
  entryOwner := h.entryOwner
  freshEntry := h.freshEntry
  freshCell := h.freshCell
  values b a ha e he := by
    obtain ⟨x, hx, hmem⟩ := h.values b a ha e he
    exact ⟨x, hx, List.mem_cons_of_mem p hmem⟩
  completed := h.completed
  knows := h.knows

theorem Inv.addCompleted {k : K} (hk : Present s.mem (L (conf.index k)) k) :
    Inv conf { s with completed := k :: s.completed } L where
  bucket := h.bucket
  sorted := h.sorted
  indexed := h.indexed
  cells := h.cells
  entryOwner := h.entryOwner
  freshEntry := h.freshEntry
  freshCell := h.freshCell
  values := h.values
  completed k' hk' := by
    rcases List.mem_cons.1 hk' with rfl | hmem
    · exact hk
    · exact h.completed k' hmem
  knows := h.knows

end

end MapSystem

end Base
