import Mathlib.Data.List.Nodup
import CyberRT.Lib.Run
import CyberRT.Scheduler.Scheduler

/-!
# Which routine `RemoveTask` removes

A routine that can be found by its id is in its queue, and the other way round (`Inv`), so removing
an id removes one routine from both places and touches nothing else (`Inv.removeCRoutine_eq`).
-/

namespace Scheduler

open Common Function Lib List

variable {crid : UInt64}

namespace Policy

variable (policy : Policy) (cr : CRoutine)

theorem assign_keeps : (policy.assign cr).id = cr.id ∧ (policy.assign cr).name = cr.name ∧
    (policy.assign cr).forceStop = cr.forceStop := by
  cases policy with
  | classic crConfs firstGroup =>
    simp only [assign, CRoutine.assignClassic, CRoutine.capPriority]
    split <;> split <;> exact ⟨rfl, rfl, rfl⟩
  | choreography crConfs procNum =>
    simp only [assign, CRoutine.assignChoreography, CRoutine.capPriority]
    split <;> split <;> (try split) <;> exact ⟨rfl, rfl, rfl⟩

theorem queueOf_stop : policy.queueOf { cr with forceStop := true } = policy.queueOf cr := by
  cases policy <;> rfl

end Policy

namespace State

variable {hash : String → UInt64} {policy : Policy} {s : State} {crs : List Nat} {q : Queue}

theorem enqueue_perm (s : State) (cr : Nat) (q : Queue) (crs : List Nat) :
    (s.enqueue cr q crs).Perm (cr :: crs) := by
  cases q with
  | group name prio => exact perm_append_singleton cr crs
  | context pid =>
    refine perm_middle.trans ?_
    rw [takeWhile_append_dropWhile]

structure Inv (policy : Policy) (s : State) : Prop where
  fresh : ∀ id cr, s.idCr id = some cr → cr < s.created
  byId : ∀ id cr, s.idCr id = some cr → (s.routines cr).id = id
  active : ∀ id cr, s.idCr id = some cr → s.Active policy cr
  queued : ∀ q cr, cr ∈ s.queues q →
    q = policy.queueOf (s.routines cr) ∧ s.idCr (s.routines cr).id = some cr
  nodup : ∀ q, (s.queues q).Nodup

theorem inv_init : Inv policy init :=
  ⟨nofun, nofun, nofun, nofun, fun _ => nodup_nil⟩

section
variable {cr i : Nat} (h : Inv policy s) (hcr : s.idCr crid = some cr)
include h hcr

theorem Inv.queued_id (hi : i ∈ s.queues q) (hid : (s.routines i).id = crid) : i = cr := by
  have hbyId := (h.queued q i hi).2
  grind

theorem Inv.removeCRoutine_eq : s.removeCRoutine policy crid =
      { s with
        routines := update s.routines cr { s.routines cr with forceStop := true }
        idCr := update s.idCr crid none
        queues := update s.queues (policy.queueOf (s.routines cr))
          ((s.queues (policy.queueOf (s.routines cr))).erase cr) } := by
  have hid := h.byId crid cr hcr
  have hsame : ∀ i, (update s.routines cr { s.routines cr with forceStop := true } i).id =
      (s.routines i).id := by
    grind
  have hfind : (s.queues (policy.queueOf (s.routines cr))).find?
      (fun i => (s.routines i).id = crid) = some cr := by
    cases hf : (s.queues (policy.queueOf (s.routines cr))).find?
        (fun i => (s.routines i).id = crid) with
    | none =>
      have hnone := find?_eq_none.1 hf cr (h.active crid cr hcr).queued
      simp [hid] at hnone
    | some i =>
      have hi : (s.routines i).id = crid := by simpa using find?_some hf
      rw [h.queued_id hcr (mem_of_find?_eq_some hf) hi]
  simp only [removeCRoutine, hcr, removeFromQueue, stop, update_self, Policy.queueOf_stop,
    hsame, hfind, update_idem]

theorem Inv.active_removeCRoutine (hi : s.Active policy i) (hne : i ≠ cr) :
    (s.removeCRoutine policy crid).Active policy i := by
  have hid : (s.routines i).id ≠ crid := by
    have hbyId := hi.byId
    grind
  rw [h.removeCRoutine_eq hcr]
  refine ⟨?_, ?_, ?_⟩
  · simp only [update_of_ne hne, update_of_ne hid]
    exact hi.byId
  · simp only [update_of_ne hne]
    by_cases hq : policy.queueOf (s.routines i) = policy.queueOf (s.routines cr)
    · rw [hq, update_self, mem_erase_of_ne hne, ← hq]
      exact hi.queued
    · rw [update_of_ne hq]
      exact hi.queued
  · simp only [update_of_ne hne]
    exact hi.running

theorem Inv.mem_removeCRoutine (hi : i ∈ (s.removeCRoutine policy crid).queues q) :
    i ∈ s.queues q ∧ i ≠ cr := by
  rw [h.removeCRoutine_eq hcr] at hi
  dsimp only at hi
  by_cases hq : q = policy.queueOf (s.routines cr)
  · rw [hq, update_self] at hi
    rw [hq]
    exact ⟨mem_of_mem_erase hi, fun heq => (h.nodup _).not_mem_erase (heq ▸ hi)⟩
  · rw [update_of_ne hq] at hi
    refine ⟨hi, fun heq => hq ?_⟩
    rw [← heq]
    exact (h.queued q i hi).1

theorem Inv.idCr_removeCRoutine {id : UInt64}
    (hi : (s.removeCRoutine policy crid).idCr id = some i) : s.idCr id = some i ∧ i ≠ cr := by
  rw [h.removeCRoutine_eq hcr] at hi
  dsimp only at hi
  by_cases hid : id = crid
  · grind
  · rw [update_of_ne hid] at hi
    refine ⟨hi, fun heq => hid ?_⟩
    rw [← h.byId id i hi, ← h.byId crid cr hcr, heq]

theorem Inv.removed_removeCRoutine : (s.removeCRoutine policy crid).Removed cr :=
  ⟨fun _ hid => (h.idCr_removeCRoutine hcr hid).2 rfl,
    fun _ hq => (h.mem_removeCRoutine hcr hq).2 rfl⟩

end

theorem removeCRoutine_none (hcr : s.idCr crid = none) : s.removeCRoutine policy crid = s := by
  rw [removeCRoutine, hcr]

section
variable (h : Inv policy s)
include h

theorem Inv.removeCRoutine (crid : UInt64) : Inv policy (s.removeCRoutine policy crid) := by
  cases hcr : s.idCr crid with
  | none =>
    rw [removeCRoutine_none hcr]
    exact h
  | some cr =>
    have hroutines : ∀ i, i ≠ cr → (s.removeCRoutine policy crid).routines i = s.routines i := by
      intro i hi
      rw [h.removeCRoutine_eq hcr]
      exact update_of_ne hi _ _
    refine ⟨fun id i hi => ?_, fun id i hi => ?_, fun id i hi => ?_, fun q i hi => ?_, fun q => ?_⟩
    · have hold := h.idCr_removeCRoutine hcr hi
      rw [h.removeCRoutine_eq hcr]
      exact h.fresh id i hold.1
    · have hold := h.idCr_removeCRoutine hcr hi
      rw [hroutines i hold.2]
      exact h.byId id i hold.1
    · have hold := h.idCr_removeCRoutine hcr hi
      exact h.active_removeCRoutine hcr (h.active id i hold.1) hold.2
    · have hold := h.mem_removeCRoutine hcr hi
      have hq := h.queued q i hold.1
      have hactive := h.active_removeCRoutine hcr (h.active _ i hq.2) hold.2
      refine ⟨?_, hactive.byId⟩
      grind
    · rw [h.removeCRoutine_eq hcr]
      dsimp only
      by_cases hq : q = policy.queueOf (s.routines cr)
      · rw [hq, update_self]
        exact (h.nodup _).erase cr
      · rw [update_of_ne hq]
        exact h.nodup q

theorem Inv.alloc (g : GlobalData) (r : CRoutine) :
    Inv policy { s with
      global := g
      created := s.created + 1
      routines := update s.routines s.created r } := by
  have hne : ∀ id cr, s.idCr id = some cr → cr ≠ s.created :=
    fun id cr hcr => Nat.ne_of_lt (h.fresh id cr hcr)
  refine ⟨fun id cr hcr => Nat.lt_succ_of_lt (h.fresh id cr hcr), fun id cr hcr => ?_,
    fun id cr hcr => ?_, fun q cr hcr => ?_, h.nodup⟩
  · simp only [update_of_ne (hne id cr hcr)]
    exact h.byId id cr hcr
  · have hactive := h.active id cr hcr
    refine ⟨?_, ?_, ?_⟩ <;> simp only [update_of_ne (hne id cr hcr)]
    · exact hactive.byId
    · exact hactive.queued
    · exact hactive.running
  · have hq := h.queued q cr hcr
    grind

omit h in
theorem update_free {idCr : UInt64 → Option Nat} {id₀ id : UInt64} {cr i : Nat}
    (hfree : idCr id₀ = none) :
    update idCr id₀ (some cr) id = some i ↔ id = id₀ ∧ i = cr ∨ idCr id = some i := by
  grind

omit h in
theorem mem_update_perm {queues : Queue → List Nat} {q₀ : Queue} {cr i : Nat}
    (hperm : crs.Perm (cr :: queues q₀)) :
    i ∈ update queues q₀ crs q ↔ q = q₀ ∧ i = cr ∨ i ∈ queues q := by
  grind

theorem Inv.enter {cr : Nat} (hcr : cr < s.created)
    (hnew : ∀ id, s.idCr id ≠ some cr) (hrunning : (s.routines cr).forceStop = false)
    (hfree : s.idCr (s.routines cr).id = none)
    (hperm : crs.Perm (cr :: s.queues (policy.queueOf (s.routines cr)))) :
    Inv policy { s with
      idCr := update s.idCr (s.routines cr).id (some cr)
      queues := update s.queues (policy.queueOf (s.routines cr)) crs } := by
  refine ⟨fun id i hi => ?_, fun id i hi => ?_, fun id i hi => ?_, fun q i hi => ?_, fun q => ?_⟩
  · rcases (update_free hfree).1 hi with ⟨-, rfl⟩ | hold
    · exact hcr
    · exact h.fresh id i hold
  · rcases (update_free hfree).1 hi with ⟨rfl, rfl⟩ | hold
    · rfl
    · exact h.byId id i hold
  · rcases (update_free hfree).1 hi with ⟨-, rfl⟩ | hold
    · exact ⟨update_self _ _ _, (mem_update_perm hperm).2 (.inl ⟨rfl, rfl⟩), hrunning⟩
    · have hactive := h.active id i hold
      exact ⟨(update_free hfree).2 (.inr hactive.byId),
        (mem_update_perm hperm).2 (.inr hactive.queued), hactive.running⟩
  · rcases (mem_update_perm hperm).1 hi with ⟨rfl, rfl⟩ | hold
    · exact ⟨rfl, update_self _ _ _⟩
    · have hqueued := h.queued q i hold
      exact ⟨hqueued.1, (update_free hfree).2 (.inr hqueued.2)⟩
  · dsimp only
    by_cases hq : q = policy.queueOf (s.routines cr)
    · rw [hq, update_self, hperm.nodup_iff, nodup_cons]
      exact ⟨fun hmem => hnew _ (h.queued _ cr hmem).2, h.nodup _⟩
    · rw [update_of_ne hq]
      exact h.nodup q

omit h in
theorem createTask_cases (hash : String → UInt64) (policy : Policy) (s : State) (name : String) :
    s.createTask hash policy name = s ∨
    ∃ g r, s.global.registerTaskName hash name = some (g, r.id) ∧ r.name = name ∧
      r.forceStop = false ∧
      (s.createTask hash policy name =
        { s with
          global := g
          created := s.created + 1
          routines := update s.routines s.created r } ∨
      s.idCr r.id = none ∧ ∃ crs, crs.Perm (s.created :: s.queues (policy.queueOf r)) ∧
        s.createTask hash policy name =
          ⟨g, s.created + 1, update s.routines s.created r, update s.idCr r.id (some s.created),
            update s.queues (policy.queueOf r) crs⟩) := by
  unfold createTask
  split
  · exact .inl rfl
  · rename_i g taskId hreg
    obtain ⟨hid, hname, hstop⟩ := policy.assign_keeps ⟨taskId, name, 0, -1, "", false⟩
    refine .inr ⟨g, _, by rw [hid]; exact hreg, hname, hstop, ?_⟩
    simp only [dispatchTask, update_self, update_idem]
    split
    · exact .inl rfl
    · rename_i hfree
      exact .inr ⟨hfree, _, enqueue_perm _ _ _ _, rfl⟩

theorem Inv.createTask (hash : String → UInt64) (name : String) :
    Inv policy (s.createTask hash policy name) := by
  rcases createTask_cases hash policy s name with
    heq | ⟨g, r, -, -, hrunning, heq | ⟨hfree, crs, hperm, heq⟩⟩
  · rw [heq]
    exact h
  · rw [heq]
    exact h.alloc g r
  · have hself : update s.routines s.created r s.created = r := update_self _ _ _
    have hnew : ∀ id, s.idCr id ≠ some s.created :=
      fun id hid => Nat.lt_irrefl _ (h.fresh id s.created hid)
    have henter := (h.alloc g r).enter (Nat.lt_succ_self s.created) hnew
      (by simp only [hself, hrunning]) (by simp only [hself, hfree])
      (by simp only [hself]; exact hperm)
    grind

theorem Inv.step (ev : Event) : Inv policy (s.step hash policy ev) := by
  cases ev with
  | createTask name => exact h.createTask hash name
  | removeTask name => exact h.removeCRoutine (hash name)

end

def StepOk (hash : String → UInt64) (policy : Policy) (s : State) : Event → Prop
  | .createTask _ => True
  | .removeTask name => ∀ cr, s.Active policy cr →
      ((s.routines cr).name = name ↔ (s.routines cr).id = hash name)

/-- The call removes the routine if it has the hash for its id, and else leaves it. -/
theorem Inv.removeTask_own (h : Inv policy s) {cr : Nat} (hcr : s.Active policy cr)
    (hash : String → UInt64) (name : String) :
    if (s.routines cr).id = hash name then (s.removeTask hash policy name).Removed cr
    else (s.removeTask hash policy name).Active policy cr := by
  split
  · rename_i hid
    apply h.removed_removeCRoutine
    rw [GlobalData.generateHashId, ← hid]
    exact hcr.byId
  · rename_i hid
    rw [removeTask, GlobalData.generateHashId]
    cases hold : s.idCr (hash name) with
    | none =>
      rw [removeCRoutine_none hold]
      exact hcr
    | some cr' =>
      refine h.active_removeCRoutine hold hcr fun heq => hid ?_
      rw [heq]
      exact h.byId _ cr' hold

theorem Inv.removesOwn_iff (h : Inv policy s) (ev : Event) :
    s.RemovesOwn hash policy ev ↔ s.StepOk hash policy ev := by
  cases ev with
  | createTask name => exact Iff.rfl
  | removeTask name =>
    refine forall₂_congr fun cr hcr => ?_
    have hremoved : ¬ ((s.removeTask hash policy name).Removed cr ∧
        (s.removeTask hash policy name).Active policy cr) :=
      fun hboth => hboth.1.1 _ hboth.2.byId
    have hown := h.removeTask_own hcr hash name
    grind

/-- **`RemoveTask` removes the routine of its name and no other** in every sequence of calls, under
both policies, exactly as long as the routines with the name are those with its hash for an id. -/
theorem along_removesOwn_iff (hash : String → UInt64) (policy : Policy) (evs : List Event) :
    Along (step hash policy) (RemovesOwn hash policy) init evs ↔
      Along (step hash policy) (StepOk hash policy) init evs :=
  along_congr inv_init (fun _ ev h => h.removesOwn_iff ev) fun _ ev h _ => h.step ev

/-- Two tasks with one hash: `RemoveTask` of the second removes the first. -/
theorem not_removesOwn_oneHash :
    ¬ Along (step (fun _ => 7) (.classic (fun _ => none) defaultGroupName))
      (RemovesOwn (fun _ => 7) (.classic (fun _ => none) defaultGroupName)) init
      [.createTask "a", .createTask "b", .removeTask "b"] := by
  intro h
  obtain ⟨-, -, hremove, -⟩ := h
  have ha := hremove 0 ⟨by decide +kernel, by decide +kernel, by decide +kernel⟩
  exact absurd ha.byId (by decide +kernel)

end State

/-!
## The tasks of two readers (`node/reader.h`)

`Init` creates a task that is named after the node and the channel, and `Shutdown` removes it by
that name.
-/

def croutineName (reader : String × String) : String := reader.1 ++ "_" ++ reader.2

namespace State

variable {hash : String → UInt64} {policy : Policy} {s : State} {name : String} {g : GlobalData}
  {id : UInt64}

theorem createTask_some (policy : Policy) (h : s.global.registerTaskName hash name = some (g, id)) :
    ∃ r : CRoutine, r.id = id ∧ ∃ queues, s.createTask hash policy name =
      ⟨g, s.created + 1, update s.routines s.created r,
        if s.idCr id = none then update s.idCr id (some s.created) else s.idCr, queues⟩ := by
  obtain ⟨hid, -⟩ := policy.assign_keeps ⟨id, name, 0, -1, "", false⟩
  refine ⟨_, hid, ?_⟩
  rw [createTask, h]
  simp only [dispatchTask, update_self, update_idem, hid]
  split
  all_goals
    rename_i hcr
    exact ⟨_, by rw [hcr]; rfl⟩

theorem Inv.createTask_active_iff (h : Inv policy s) :
    (s.createTask hash policy name).Active policy s.created ↔
      ∃ g id, s.global.registerTaskName hash name = some (g, id) ∧ s.idCr id = none := by
  have hnew : ∀ id, s.idCr id ≠ some s.created :=
    fun id hid => Nat.lt_irrefl _ (h.fresh id s.created hid)
  cases hreg : s.global.registerTaskName hash name with
  | none =>
    rw [State.createTask, hreg]
    exact iff_of_false (fun hact => hnew _ hact.byId) (by simp)
  | some x =>
    obtain ⟨g, id⟩ := x
    obtain ⟨r, hid, queues, heq⟩ := createTask_some policy hreg
    constructor
    · intro hact
      refine ⟨g, id, rfl, not_not.1 fun hne => hnew id ?_⟩
      have hbyId := hact.byId
      simpa only [heq, update_self, hid, if_neg hne] using hbyId
    · rintro ⟨g', id', hsome, hfree⟩
      cases hsome
      refine (h.createTask hash name).active id s.created ?_
      simp only [heq, if_pos hfree, update_self]

theorem Inv.routines_createTask (h : Inv policy s) {cr : Nat} {id' : UInt64}
    (hcr : s.idCr id' = some cr) (hreg : s.global.registerTaskName hash name = some (g, id)) :
    ((s.createTask hash policy name).routines s.created).id = id ∧
      (s.createTask hash policy name).Active policy cr ∧
      ((s.createTask hash policy name).routines cr).id = id' := by
  obtain ⟨r, hid, queues, heq⟩ := createTask_some policy hreg
  have hold : (s.createTask hash policy name).idCr id' = some cr := by
    rw [heq]
    grind
  have h' := h.createTask hash name
  refine ⟨?_, h'.active id' cr hold, h'.byId id' cr hold⟩
  rw [heq]
  simp only [update_self, hid]

theorem Inv.active_removeTask_iff (h : Inv policy s) {cr : Nat} (hcr : s.Active policy cr) :
    (s.removeTask hash policy name).Active policy cr ↔ (s.routines cr).id ≠ hash name := by
  have hown := h.removeTask_own hcr hash name
  have hremoved : (s.removeTask hash policy name).Removed cr →
      ¬ (s.removeTask hash policy name).Active policy cr := fun hrem hact => hrem.1 _ hact.byId
  grind

/-- **The second reader does not meet the first**, which has the routine `cr`: its task is created,
and the shutdown of each leaves the task of the other. -/
def Independent (hash : String → UInt64) (policy : Policy) (s : State) (cr : Nat)
    (a b : String × String) : Prop :=
  let s' := s.createTask hash policy (croutineName b)
  s'.Active policy s.created ∧
    (s'.removeTask hash policy (croutineName a)).Active policy s.created ∧
    (s'.removeTask hash policy (croutineName b)).Active policy cr

theorem Inv.independent_iff (h : Inv policy s) {cr : Nat} (hcr : s.Active policy cr)
    (a b : String × String) : Independent hash policy s cr a b ↔
      ∃ g id, s.global.registerTaskName hash (croutineName b) = some (g, id) ∧
        s.idCr id = none ∧ id ≠ hash (croutineName a) ∧
          (s.routines cr).id ≠ hash (croutineName b) := by
  have h' := h.createTask hash (croutineName b)
  constructor
  · rintro ⟨hact, hrema, hremb⟩
    obtain ⟨g, id, hreg, hfree⟩ := h.createTask_active_iff.1 hact
    obtain ⟨hidb, hacta, hida⟩ := h.routines_createTask hcr.byId hreg
    exact ⟨g, id, hreg, hfree, hidb ▸ (h'.active_removeTask_iff hact).1 hrema,
      hida ▸ (h'.active_removeTask_iff hacta).1 hremb⟩
  · rintro ⟨g, id, hreg, hfree, hnea, hneb⟩
    have hact := h.createTask_active_iff.2 ⟨g, id, hreg, hfree⟩
    obtain ⟨hidb, hacta, hida⟩ := h.routines_createTask hcr.byId hreg
    exact ⟨hact, (h'.active_removeTask_iff hact).2 (hidb.symm ▸ hnea),
      (h'.active_removeTask_iff hacta).2 (hida.symm ▸ hneb)⟩

/-- Where the first reader has its plain hash for its id, and that of the second is taken by no
third task, they do not meet exactly if the hashes differ. -/
theorem Inv.independent_iff_hash (h : Inv policy s) {cr : Nat} (hcr : s.Active policy cr)
    {a b : String × String} (hid : (s.routines cr).id = hash (croutineName a))
    (hfree : hash (croutineName a) ≠ hash (croutineName b) → s.idCr (hash (croutineName b)) = none ∧
      ∃ g, s.global.registerTaskName hash (croutineName b) = some (g, hash (croutineName b))) :
    Independent hash policy s cr a b ↔ hash (croutineName a) ≠ hash (croutineName b) := by
  rw [h.independent_iff hcr, hid]
  constructor
  · rintro ⟨_, _, _, _, _, hne⟩
    exact hne
  · intro hne
    obtain ⟨hnone, g, hreg⟩ := hfree hne
    exact ⟨g, _, hreg, hnone, hne.symm, hne⟩

/-- **Two readers of one process**, whatever tasks were created and removed before the second one is
initialised: they do not meet exactly if the id that its name gets is not in use, and neither task
has the hash of the other's name for its id. -/
theorem readers_independent_iff (hash : String → UInt64) (policy : Policy) (evs : List Event)
    (a b : String × String) (cr : Nat)
    (hcr : (evs.foldl (step hash policy) init).Active policy cr) :
    let s := evs.foldl (step hash policy) init
    Independent hash policy s cr a b ↔
      ∃ g id, s.global.registerTaskName hash (croutineName b) = some (g, id) ∧
        s.idCr id = none ∧ id ≠ hash (croutineName a) ∧
          (s.routines cr).id ≠ hash (croutineName b) := by
  have h : Inv policy (evs.foldl (step hash policy) init) :=
    (always_of_inv (P := Inv policy) inv_init (fun s ev hs => hs.step ev) fun _ hs => hs).last
  exact h.independent_iff hcr a b

def firstGroup : Policy := .classic (fun _ => none) defaultGroupName

def byNode (name : String) : UInt64 := if name = "a_x" then 1 else 2

theorem readers_independent_twoNodes : Independent byNode firstGroup
    (init.createTask byNode firstGroup (croutineName ("a", "x"))) 0 ("a", "x") ("b", "x") :=
  (readers_independent_iff byNode firstGroup [.createTask (croutineName ("a", "x"))] ("a", "x")
    ("b", "x") 0 ⟨by decide +kernel, by decide +kernel, by decide +kernel⟩).2
    ⟨_, _, rfl, by decide +kernel, by decide +kernel, by decide +kernel⟩

/-- The nodes `a` and `a_b` with the channels `b_c` and `c`. -/
theorem not_readers_independent_oneName : ¬ Independent byNode firstGroup
    (init.createTask byNode firstGroup (croutineName ("a", "b_c"))) 0 ("a", "b_c") ("a_b", "c") :=
  fun h => absurd h.1.byId (by decide +kernel)

end State

end Scheduler
