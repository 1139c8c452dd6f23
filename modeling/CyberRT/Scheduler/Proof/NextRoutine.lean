import Mathlib.Data.List.Find
import Mathlib.Data.List.TakeWhile
import CyberRT.Scheduler.Proof.RemoveTask

/-!
# Which routine runs next (`scheduler/policy/*_context.cc`, `croutine/croutine.h`)

`NextRoutine` goes through the queues of its context and takes the first routine that is not held
and is ready after its `UpdateState`. A queue is in order of priority and age (`Ordered`), so that
is the oldest one of the highest priority.
-/

namespace Scheduler

open Croutine Function Lib List

variable {hash : String → UInt64} {policy : Policy} {s : State} {crs : List Nat} {cr : Nat}
  {q : Queue}

theorem updateState_lock (now : Nat) (r : Routine) (lock : Bool) :
    { r with lock }.updateState now = { r.updateState now with lock } := by
  unfold Routine.updateState
  split <;> rfl

theorem Policy.priority_of_group {r : CRoutine} {name : String} {prio : UInt32}
    (h : .group name prio = policy.queueOf r) : r.priority = prio := by
  cases policy <;> grind [Policy.queueOf]

namespace State

def ready (now : Nat → Nat) (rs : Nat → Routine) (cr : Nat) : Bool :=
  !(rs cr).lock && ((rs cr).updateState (now cr)).state = .ready

theorem scan_spec (hcrs : crs.Nodup) (now : Nat → Nat) (rs : Nat → Routine) :
    (scan now rs crs).1 = crs.find? (ready now rs) ∧
    ∀ i, ((scan now rs crs).2 i).lock = ((rs i).lock || (scan now rs crs).1 == some i) := by
  induction crs generalizing rs with
  | nil => simp [scan]
  | cons cr crs ih =>
    obtain ⟨hcr, hcrs⟩ := nodup_cons.1 hcrs
    rw [scan, updateState_lock, find?_cons]
    by_cases hlock : (rs cr).lock = true
    · simpa [hlock, ready] using ih hcrs rs
    · by_cases hready : ((rs cr).updateState (now cr)).state = .ready
      · simp only [hlock, hready, ready]
        grind
      · -- the routine is released again, and the others are as they were
        have hfind : crs.find? (ready now (update rs cr
            { (rs cr).updateState (now cr) with lock := false })) = crs.find? (ready now rs) :=
          find?_congr fun i hi => by
            rw [ready, update_of_ne (ne_of_mem_of_not_mem hi hcr), ready]
        simp only [hlock, hready, ready]
        grind

/-! ## The order of a queue -/

def Before (routines : Nat → CRoutine) (i j : Nat) : Prop :=
  (routines j).priority < (routines i).priority ∨
    (routines j).priority = (routines i).priority ∧ i < j

structure Ordered (policy : Policy) (s : State) : Prop extends Inv policy s where
  sorted : ∀ q, (s.queues q).Pairwise (Before s.routines)

theorem pairwise_enqueue (policy : Policy) {rs : Nat → CRoutine} (hrs : s.routines = rs)
    (hcrs : crs.Pairwise (Before rs)) (hlt : ∀ i ∈ crs, i < cr)
    (hq : ∀ i ∈ cr :: crs, q = policy.queueOf (rs i)) :
    (s.enqueue cr q crs).Pairwise (Before rs) := by
  subst hrs
  cases q with
  | group name prio =>
    have hprio := fun i hi => Policy.priority_of_group (hq i hi)
    refine pairwise_append.2 ⟨hcrs, pairwise_singleton _ _, fun i hi j hj => .inr ?_⟩
    grind
  | context pid =>
    simp only [enqueue]
    generalize hp : (fun i => decide ((s.routines cr).priority ≤ (s.routines i).priority)) = p
    have hhead := head?_dropWhile_not p crs
    rw [← takeWhile_append_dropWhile (p := p) (l := crs)] at hcrs
    obtain ⟨hbefore, hafter, hboth⟩ := pairwise_append.1 hcrs
    refine pairwise_append.2 ⟨hbefore, pairwise_cons.2 ⟨fun i hi => .inl ?_, hafter⟩, ?_⟩
    · -- the first routine behind the new one has a lower priority, so the others have too
      cases hd : crs.dropWhile p with
      | nil => simp [hd] at hi
      | cons j rest =>
        rw [hd] at hi hafter hhead
        have hij : i = j ∨ Before s.routines j i := by grind [pairwise_cons]
        grind [Before]
    · intro i hi j hj
      have hle := mem_takeWhile_imp hi
      have hlt := hlt i ((takeWhile_sublist p).subset hi)
      rcases mem_cons.1 hj with rfl | hj
      · grind [Before]
      · exact hboth i hi j hj

theorem Ordered.createTask (h : Ordered policy s) (name : String) (q : Queue) :
    ((s.createTask hash policy name).queues q).Pairwise
      (Before (s.createTask hash policy name).routines) := by
  have hlt : ∀ q, ∀ i ∈ s.queues q, i < s.created := fun q i hi => h.fresh _ i (h.queued q i hi).2
  have hold : ∀ q r, (s.queues q).Pairwise (Before (update s.routines s.created r)) := by
    intro q r
    refine (h.sorted q).imp_of_mem fun hi hj hij => ?_
    rwa [Before, update_of_ne (hlt q _ hi).ne, update_of_ne (hlt q _ hj).ne]
  unfold State.createTask
  split
  · exact h.sorted q
  · simp only [dispatchTask, update_self, update_idem]
    split
    · exact hold ..
    · dsimp only
      generalize policy.assign _ = r
      by_cases hq : q = policy.queueOf r
      · rw [hq, update_self]
        refine pairwise_enqueue policy rfl (hold ..) (hlt _) ?_
        grind [h.queued]
      · rw [update_of_ne hq]
        exact hold ..

theorem Ordered.step (h : Ordered policy s) (ev : Event) :
    Ordered policy (s.step hash policy ev) := by
  refine ⟨h.toInv.step ev, fun q => ?_⟩
  cases ev with
  | createTask name => exact h.createTask name q
  | removeTask name =>
    simp only [State.step, State.removeTask]
    cases hcr : s.idCr (Common.GlobalData.generateHashId hash name) with
    | none =>
      rw [removeCRoutine_none hcr]
      exact h.sorted q
    | some cr =>
      rw [h.removeCRoutine_eq hcr]
      have hqueue : (update s.queues (policy.queueOf (s.routines cr))
          ((s.queues (policy.queueOf (s.routines cr))).erase cr) q).Sublist (s.queues q) := by
        grind [erase_sublist]
      exact ((h.sorted q).sublist hqueue).imp (by grind [Before])

theorem ordered_run (hash : String → UInt64) (policy : Policy) (evs : List Event) :
    Ordered policy (evs.foldl (step hash policy) init) :=
  foldlRecOn evs _ ⟨inv_init, fun _ => .nil⟩ fun _ h ev _ => h.step ev

/-- **The run queues agree with the registered routines**, under either policy, for every hash and
every run: a routine is in a queue if and only if it is registered and not stopped and its
configuration selects that queue; and a queue is in order of priority, then of age. -/
theorem always_queued_iff (hash : String → UInt64) (policy : Policy) (evs : List Event) :
    Always (step hash policy) (fun s => ∀ q,
      (∀ cr, cr ∈ s.queues q ↔ (s.idCr (s.routines cr).id = some cr ∧
        (s.routines cr).forceStop = false) ∧ q = policy.queueOf (s.routines cr)) ∧
      (s.queues q).Pairwise (Before s.routines)) init evs := by
  refine always_iff.2 fun pre _ _ q => ?_
  have h := ordered_run hash policy pre
  refine ⟨fun cr => ⟨fun hcr => ?_, fun ⟨hcr, hq⟩ => hq ▸ (h.active _ cr hcr.1).queued⟩,
    h.sorted q⟩
  have hact := h.active _ cr (h.queued q cr hcr).2
  exact ⟨⟨hact.byId, hact.running⟩, (h.queued q cr hcr).1⟩

theorem Ordered.pairwise_queued (h : Ordered policy s) (c : Context) :
    (s.queued c).Pairwise (Before s.routines) := by
  cases c with
  | choreography pid => exact h.sorted _
  | classic group =>
    refine pairwise_flatMap.2 ⟨fun i _ => h.sorted _, pairwise_reverse.2 ?_⟩
    refine pairwise_lt_range.imp_of_mem fun hi hj hlt x hx y hy => .inl ?_
    rw [Policy.priority_of_group (h.queued _ x hx).1, Policy.priority_of_group (h.queued _ y hy).1,
      UInt32.ofNat_lt_iff_lt] <;> simp [maxPrio, UInt32.size] at * <;> omega

/-- **`NextRoutine` takes the oldest ready routine of the highest priority**, in either context and
after any run. It takes none only if each routine in its queues is held or not ready, and the lock
of the routine that it takes is the only one that it keeps. -/
theorem nextRoutine_first (hash : String → UInt64) (policy : Policy) (evs : List Event)
    (c : Context) (now : Nat → Nat) (rs : Nat → Routine) :
    let s := evs.foldl (step hash policy) init
    let r := s.nextRoutine c false now rs
    (∀ cr, r.1 = some cr → cr ∈ s.queued c ∧ ready now rs cr ∧
      ∀ i ∈ s.queued c, ready now rs i → i = cr ∨ Before s.routines cr i) ∧
    (r.1 = none → ∀ i ∈ s.queued c, ¬ ready now rs i) ∧
    ∀ i, (r.2 i).lock = ((rs i).lock || r.1 == some i) := by
  intro s r
  have hs := (ordered_run hash policy evs).pairwise_queued c
  obtain ⟨hfind, hlock⟩ := scan_spec (hs.imp fun h => by grind [Before]) now rs
  have hr : r.1 = (s.queued c).find? (ready now rs) := hfind
  refine ⟨fun cr hcr => ?_, fun hnone => ?_, hlock⟩
  · obtain ⟨hready, before, after, hsplit, hbefore⟩ := find?_eq_some_iff_append.1 (hr ▸ hcr)
    rw [hsplit] at hs ⊢
    have hafter := (pairwise_cons.1 (pairwise_append.1 hs).2.1).1
    refine ⟨by simp, hready, fun i hi hi' => ?_⟩
    rcases mem_append.1 hi with hi | hi
    · simp only [Bool.not_eq_true'] at hbefore
      grind
    · grind
  · exact find?_eq_none.1 (hr ▸ hnone)

end State

end Scheduler
