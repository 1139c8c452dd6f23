import CyberRT.Common.GlobalData

/-!
# The ids of a process stay

A name is found again where it was put, for what the search has passed on the way there is never
taken away (`Lib.probe_extends`).
-/

namespace Common

open Lib

inductive IdKind where
  | node
  | channel
  | service
  | task
  deriving DecidableEq

namespace GlobalData

variable (hash : String → UInt64) (g : GlobalData)

def idMap : IdKind → IdMap
  | .node => g.nodeIdMap
  | .channel => g.channelIdMap
  | .service => g.serviceIdMap
  | .task => g.taskIdMap

def register : IdKind → String → Option (GlobalData × UInt64)
  | .node => g.registerNode hash
  | .channel => g.registerChannel hash
  | .service => g.registerService hash
  | .task => g.registerTaskName hash

def getById : IdKind → UInt64 → String
  | .node => g.getNodeById
  | .channel => g.getChannelById
  | .service => g.getServiceById
  | .task => g.getTaskNameById

/-- Registrations one after the other, each with the id that it returned. One that does not return
is the last. -/
def registrations : GlobalData → List (IdKind × String) →
    GlobalData × List (IdKind × String × UInt64)
  | g, [] => (g, [])
  | g, (k, name) :: l =>
    match g.register hash k name with
    | some (g', id) =>
      let rest := registrations g' l
      (rest.1, (k, name, id) :: rest.2)
    | none => (g, [])

/-- The name has its place in the map, and a search for it comes there. -/
def Has (k : IdKind) (name : String) (id : UInt64) : Prop :=
  g.idMap k id = some name ∧ probe (· + 1) (g.idMap k) name (2 ^ 64) (hash name) = some id

variable {hash g} {g' : GlobalData} {k k' : IdKind} {name : String} {id : UInt64}

section
variable (h : g.register hash k name = some (g', id))
include h

theorem register_idMap :
    (g.idMap k).register hash name = some (g'.idMap k, id) ∧
      ∀ k', k' ≠ k → g'.idMap k' = g.idMap k' := by
  cases k <;>
  · obtain ⟨r, hr, heq⟩ := Option.map_eq_some_iff.1 h
    cases heq
    exact ⟨hr, fun k' hk' => by cases k' <;> first | rfl | exact absurd rfl hk'⟩

theorem extends_register (k' : IdKind) : Extends (g.idMap k') (g'.idMap k') := by
  obtain ⟨hreg, hother⟩ := register_idMap h
  by_cases hk : k' = k
  · exact hk ▸ (IdMap.register_spec hreg).2
  · rw [hother k' hk]
    exact Extends.refl _

omit h in
theorem Has.mono (h : g.Has hash k name id) (he : ∀ k', Extends (g.idMap k') (g'.idMap k')) :
    g'.Has hash k name id :=
  ⟨he k id name h.1, probe_extends h.2 (he k) (he k id name h.1)⟩

theorem has_register : g'.Has hash k name id := by
  obtain ⟨hreg, -⟩ := register_idMap h
  have hspec := IdMap.register_spec hreg
  exact ⟨hspec.1, probe_extends (IdMap.register_eq_some_iff.1 hreg).1 hspec.2 hspec.1⟩

end

theorem extends_registrations (g : GlobalData) (l : List (IdKind × String)) (k : IdKind) :
    Extends (g.idMap k) ((g.registrations hash l).1.idMap k) := by
  induction l generalizing g with
  | nil => exact Extends.refl _
  | cons x l ih =>
    rw [registrations]
    split
    · rename_i g' id hreg
      exact (extends_register hreg k).trans (ih g')
    · exact Extends.refl _

theorem has_of_mem {l : List (IdKind × String)} (h : (k, name, id) ∈ (g.registrations hash l).2) :
    (g.registrations hash l).1.Has hash k name id := by
  induction l generalizing g with
  | nil => cases h
  | cons x l ih =>
    rw [registrations] at h ⊢
    split at h
    · rename_i g' id' hreg
      rcases List.mem_cons.1 h with heq | hmem
      · cases heq
        exact (has_register hreg).mono (extends_registrations g' l)
      · exact ih hmem
    · cases h

theorem getById_eq (g : GlobalData) (k : IdKind) (id : UInt64) :
    g.getById k id = (g.idMap k id).getD "" := by
  cases k <;> rfl

theorem register_eq_none_iff :
    g.register hash k name = none ↔ ∀ id, ∃ other, other ≠ name ∧ g.idMap k id = some other := by
  have hmap : g.register hash k name = none ↔
      probe (· + 1) (g.idMap k) name (2 ^ 64) (hash name) = none := by
    cases k <;> simp [register, registerNode, registerChannel, registerService, registerTaskName,
      idMap, IdMap.register]
  have hsettled : ∀ id, ¬ Settled (g.idMap k) name id ↔
      ∃ other, other ≠ name ∧ g.idMap k id = some other := by
    intro id
    cases hm : g.idMap k id <;> simp [Settled, hm]
  have hiter : ∀ i, (· + 1)^[i] (hash name) = hash name + UInt64.ofNat i := by
    intro i
    induction i with
    | zero => simp
    | succ i ih =>
      rw [Function.iterate_succ_apply', ih, UInt64.ofNat_add, UInt64.add_assoc]
      rfl
  simp only [hmap, probe_eq_none_iff, hiter, hsettled]
  refine ⟨fun h id => ?_, fun h i _ => h _⟩
  have hid := h (id - hash name).toNat (UInt64.toNat_lt _)
  rw [UInt64.ofNat_toNat] at hid
  have hback : hash name + (id - hash name) = id := by grind
  rwa [hback] at hid

/-- **The ids of a process.** For every hash function and every sequence of registrations: equal ids
are those of equal names, and an id stands for its name ever after. -/
theorem ids_stay (hash : String → UInt64) (l : List (IdKind × String)) :
    (∀ x ∈ (init.registrations hash l).2, ∀ y ∈ (init.registrations hash l).2, x.1 = y.1 →
      (x.2.1 = y.2.1 ↔ x.2.2 = y.2.2)) ∧
    (∀ x ∈ (init.registrations hash l).2,
      (init.registrations hash l).1.getById x.1 x.2.2 = x.2.1) ∧
    ∀ k name, (init.registrations hash l).1.register hash k name = none ↔
      ∀ id, ∃ other, other ≠ name ∧ (init.registrations hash l).1.idMap k id = some other := by
  refine ⟨fun x hx y hy hk => ?_, fun x hx => ?_, fun k name => register_eq_none_iff⟩
  · have hhx := has_of_mem hx
    have hhy := has_of_mem hy
    rw [← hk] at hhy
    constructor
    · intro hname
      rw [← hname] at hhy
      exact Option.some.inj (hhx.2.symm.trans hhy.2)
    · intro hid
      rw [← hid] at hhy
      exact Option.some.inj (hhx.1.symm.trans hhy.1)
  · rw [getById_eq, (has_of_mem hx).1]
    rfl

end GlobalData

/-!
## The ids of channels in two processes

A channel has the hash of its name for its id as long as no other channel of the process has that
hash (`registerAll_of_injOn`).
-/

open List

variable {hash : String → UInt64} {g : GlobalData} {l l₁ l₂ : List String} {c : String}
  {id : UInt64}

def registerAll (hash : String → UInt64) :
    GlobalData → List String → GlobalData × List (String × Option UInt64)
  | g, [] => (g, [])
  | g, c :: cs =>
    match g.registerChannel hash c with
    | some (g', id) =>
      let rest := registerAll hash g' cs
      (rest.1, (c, some id) :: rest.2)
    | none => (g, [(c, none)])

structure Assigns (p : GlobalData × List (String × Option UInt64)) (c : String) (id : UInt64) :
    Prop where
  registered : (c, some id) ∈ p.2
  only : ∀ r, (c, r) ∈ p.2 → r = some id
  denotes : p.1.getChannelById id = c

/-- **Each channel has the same id in both processes**, the one that the subscriber's listener
computes. -/
def SameIds (hash : String → UInt64) (l₁ l₂ : List String) : Prop :=
  ∀ c ∈ l₁, ∃ id, id = subscriberChannelId hash c ∧
    Assigns (registerAll hash .init l₁) c id ∧ Assigns (registerAll hash .init l₂) c id

theorem registerChannel_eq_some {g' : GlobalData} (h : g.registerChannel hash c = some (g', id)) :
    g.channelIdMap.register hash c = some (g'.channelIdMap, id) := by
  obtain ⟨r, hr, heq⟩ := Option.map_eq_some_iff.1 h
  cases heq
  exact hr

theorem extends_registerAll (hash : String → UInt64) (g : GlobalData) (l : List String) :
    Extends g.channelIdMap (registerAll hash g l).1.channelIdMap := by
  induction l generalizing g with
  | nil => exact Extends.refl _
  | cons c cs ih =>
    rw [registerAll]
    split
    · rename_i g' id hreg
      have hspec := IdMap.register_spec (registerChannel_eq_some hreg)
      exact hspec.2.trans (ih g')
    · exact Extends.refl _

theorem channelIdMap_of_mem (h : (c, some id) ∈ (registerAll hash g l).2) :
    (registerAll hash g l).1.channelIdMap id = some c := by
  induction l generalizing g with
  | nil => cases h
  | cons c' cs ih =>
    rw [registerAll] at h ⊢
    split at h
    · rename_i g' id' hreg
      rcases mem_cons.1 h with heq | hmem
      · cases heq
        have hspec := IdMap.register_spec (registerChannel_eq_some hreg)
        exact extends_registerAll hash g' cs id c hspec.1
      · exact ih hmem
    · simp at h

theorem registerAll_of_injOn {S : Set String} (hinj : S.InjOn hash)
    (h : g.channelIdMap.Hashed hash S) (hl : ∀ c ∈ l, c ∈ S) :
    (registerAll hash g l).2 = l.map fun c => (c, some (hash c)) := by
  induction l generalizing g with
  | nil => rfl
  | cons c cs ih =>
    obtain ⟨hc, hcs⟩ := forall_mem_cons.1 hl
    obtain ⟨hreg, hnext⟩ := h.register hinj hc
    have hreg' : g.registerChannel hash c = some
        ({ g with channelIdMap := Function.update g.channelIdMap (hash c) (some c) }, hash c) := by
      rw [GlobalData.registerChannel, hreg]
      rfl
    rw [registerAll, hreg']
    grind

theorem assigns_of_injOn (hinj : Set.InjOn hash {c | c ∈ l}) (hc : c ∈ l) :
    Assigns (registerAll hash .init l) c (hash c) := by
  have hlog : (registerAll hash .init l).2 = l.map fun c => (c, some (hash c)) :=
    registerAll_of_injOn hinj nofun fun _ h => h
  have hmem : (c, some (hash c)) ∈ (registerAll hash .init l).2 := by
    rw [hlog]
    exact mem_map_of_mem hc
  refine ⟨hmem, fun r hr => ?_, ?_⟩
  · rw [hlog, mem_map] at hr
    obtain ⟨c', -, heq⟩ := hr
    cases heq
    rfl
  · rw [GlobalData.getChannelById, IdMap.getById, channelIdMap_of_mem hmem, Option.getD_some]

theorem injOn_of_sameIds (h : SameIds hash l₁ l₂) : Set.InjOn hash {c | c ∈ l₁} := by
  intro c hc c' hc' heq
  obtain ⟨id, hid, hassigns, -⟩ := h c hc
  obtain ⟨id', hid', hassigns', -⟩ := h c' hc'
  have hsame : id = id' := hid.trans (heq.trans hid'.symm)
  subst hsame
  have hc := channelIdMap_of_mem hassigns.registered
  rw [channelIdMap_of_mem hassigns'.registered] at hc
  exact (Option.some.inj hc).symm

/-- **Two processes that register the same channels agree on their ids**, and with the subscriber's
listener, exactly if no two of the channels have the same hash. -/
theorem sameIds_iff (hash : String → UInt64) (l₁ l₂ : List String) (h : ∀ c, c ∈ l₁ ↔ c ∈ l₂) :
    SameIds hash l₁ l₂ ↔ Set.InjOn hash {c | c ∈ l₁} := by
  refine ⟨injOn_of_sameIds, fun hinj c hc => ?_⟩
  have hinj₂ : Set.InjOn hash {c | c ∈ l₂} := fun a ha b hb => hinj ((h a).2 ha) ((h b).2 hb)
  exact ⟨hash c, rfl, assigns_of_injOn hinj hc, assigns_of_injOn hinj₂ ((h c).1 hc)⟩

/-- Two channels with two hashes. -/
theorem sameIds_twoHashes :
    SameIds (fun c => UInt64.ofNat c.length) ["a", "bc"] ["bc", "a", "bc"] := by
  refine (sameIds_iff _ _ _ fun c => ?_).2 ?_
  · grind
  · intro c hc c' hc' heq
    have hmem : ∀ x ∈ ["a", "bc"], x = "a" ∨ x = "bc" := by decide
    rcases hmem c hc with rfl | rfl <;> rcases hmem c' hc' with rfl | rfl
    · rfl
    · exact absurd heq (by decide)
    · exact absurd heq (by decide)
    · rfl

/-- Two channels with one hash: in the first process `a` has it, in the second `b`. -/
theorem not_sameIds_oneHash : ¬ SameIds (fun _ => 7) ["a", "b"] ["b", "a"] := by
  intro h
  have heq : "a" = "b" := injOn_of_sameIds h mem_cons_self
    (mem_cons_of_mem "a" mem_cons_self) rfl
  exact absurd heq (by decide)

end Common
