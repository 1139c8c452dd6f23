import CyberRT.Data.Proof.Fetching

/-!
# `Component` in its two modes (`component/component.h`, `blocker/blocker.h`)

A component with a first channel and `k` others (1, 2 and 3 in the templates).
-/

namespace Component

open Data

variable {T : Type*} {k : Nat} {M0 : Type*} {M : Fin k → Type*}

structure Blocker (T : Type*) where
  capacity : Nat
  published : List T

namespace Blocker

def new (capacity : Nat) : Blocker T := ⟨capacity, []⟩

variable (b : Blocker T)

def isPublishedEmpty : Bool := b.published.isEmpty

def getLatestPublishedPtr : Option T := b.published.head?

def enqueue (msg : T) : Blocker T :=
  if b.capacity = 0 then b else { b with published := (msg :: b.published).take b.capacity }

end Blocker

structure Simulation (M0 : Type*) (M : Fin k → Type*) where
  blocker0 : Blocker M0
  blockers : (i : Fin k) → Blocker (M i)
  processed : List (Fused M0 M)

namespace Simulation

def start (depth0 : Nat) (depths : Fin k → Nat) : Simulation M0 M :=
  ⟨.new depth0, fun i => .new (depths i), []⟩

def func (c : Simulation M0 M) (msg0 : M0) : Simulation M0 M :=
  if ∀ i, (c.blockers i).isPublishedEmpty = false then
    match allSome fun i => (c.blockers i).getLatestPublishedPtr with
    | none => c
    | some msgs => { c with processed := c.processed ++ [(msg0, msgs)] }
  else c

def step (c : Simulation M0 M) : FusionOp M0 M → Simulation M0 M
  | .arrive0 m0 => { c with blocker0 := c.blocker0.enqueue m0 }.func m0
  | .arrive i m => { c with blockers := Function.update c.blockers i ((c.blockers i).enqueue m) }
  | .tryFetch => c

end Simulation

def realProcessed (a : AllLatest M0 M) : List (Fused M0 M) := a.fusion.fetched.map (·.2)

/-!
## The two modes of a component

Both do what `Fusing` says: for a message of the first channel, one tuple with the latest of every
other channel, if each has one.
-/

open Function Lib

theorem Blocker.enqueue_capacity (b : Blocker T) (msg : T) :
    (b.enqueue msg).capacity = b.capacity := by
  unfold enqueue
  split <;> rfl

theorem Blocker.enqueue_head {b : Blocker T} (hb : 1 ≤ b.capacity) (msg : T) :
    (b.enqueue msg).getLatestPublishedPtr = some msg := by
  obtain ⟨n, hn⟩ := Nat.exists_eq_add_of_le' hb
  rw [enqueue, if_neg (by omega), getLatestPublishedPtr, hn]
  rfl

structure Simulates (c : Simulation M0 M) (f : Fusing M0 M) : Prop where
  room : ∀ i, 1 ≤ (c.blockers i).capacity
  latest : ∀ i, (c.blockers i).getLatestPublishedPtr = f.latest i
  processed : c.processed = f.produced

variable {c : Simulation M0 M} {f : Fusing M0 M} {depths : Fin k → Nat}

theorem Simulates.start (depth0 : Nat) (hdepths : ∀ i, 1 ≤ depths i) :
    Simulates (.start depth0 depths : Simulation M0 M) .start :=
  ⟨hdepths, fun _ => rfl, rfl⟩

theorem forall_isPublishedEmpty_iff (blockers : (i : Fin k) → Blocker (M i)) :
    (∀ i, (blockers i).isPublishedEmpty = false) ↔
      ∀ i, ((blockers i).getLatestPublishedPtr).isSome = true := by
  refine forall_congr' fun i => ?_
  rw [Blocker.isPublishedEmpty, Blocker.getLatestPublishedPtr]
  cases (blockers i).published <;> simp

theorem Simulation.func_eq (c : Simulation M0 M) (m0 : M0) :
    c.func m0 =
      match allSome fun i => (c.blockers i).getLatestPublishedPtr with
      | none => c
      | some msgs => { c with processed := c.processed ++ [(m0, msgs)] } := by
  unfold func
  by_cases hall : ∀ i, (c.blockers i).isPublishedEmpty = false
  · grind
  · rw [if_neg hall, allSome, dif_neg (mt (forall_isPublishedEmpty_iff c.blockers).2 hall)]

theorem Simulates.step (h : Simulates c f) (op : FusionOp M0 M) :
    Simulates (c.step op) (f.step op) := by
  cases op with
  | arrive0 m0 =>
    rw [Simulation.step, Simulation.func_eq, Fusing.step, funext h.latest]
    cases allSome f.latest with
    | none => exact ⟨h.room, h.latest, h.processed⟩
    | some ms => exact ⟨h.room, h.latest, congrArg (· ++ [(m0, ms)]) h.processed⟩
  | arrive i m =>
    refine ⟨fun j => ?_, fun j => ?_, h.processed⟩ <;>
      simp only [Simulation.step, Fusing.step] <;> by_cases hj : j = i
    · subst hj
      rw [update_self, Blocker.enqueue_capacity]
      exact h.room j
    · rw [update_of_ne hj]
      exact h.room j
    · subst hj
      rw [update_self, update_self]
      exact Blocker.enqueue_head (h.room j) m
    · rw [update_of_ne hj, update_of_ne hj]
      exact h.latest j
  | tryFetch => exact ⟨h.room, h.latest, h.processed⟩

theorem simulates_run (depth0 : Nat) (hdepths : ∀ i, 1 ≤ depths i) (ops : List (FusionOp M0 M)) :
    Simulates (ops.foldl Simulation.step (.start depth0 depths)) (ops.foldl Fusing.step .start) :=
  List.foldl_rel (Simulates.start depth0 hdepths) fun op _ _ _ h => h.step op

/-- **The two modes process the same tuples**, for every number of other channels, all history
depths and queue sizes and every order of arrivals, when the routine fetches each tuple before the
next one arrives; a last tuple may be still to be fetched. -/
theorem processed_eq [Inhabited M0] [∀ i, Inhabited (M i)] (depth0 : Nat) {depths : Fin k → Nat}
    (hdepths : ∀ i, 1 ≤ depths i) (size0 : Nat) (sizes : Fin k → Nat)
    {ops : List (FusionOp M0 M)} (hops : Along Fusing.step Fusing.FetchesEach .start ops) :
    realProcessed (ops.foldl AllLatest.step (.start size0 sizes)) =
      if (ops.foldl Fusing.step .start).pending then
        (ops.foldl Simulation.step (.start depth0 depths)).processed.dropLast
      else (ops.foldl Simulation.step (.start depth0 depths)).processed := by
  rw [(simulates_run depth0 hdepths ops).processed]
  exact fetched_run size0 sizes hops

def earlyThenPair : List (FusionOp Nat fun _ : Fin 1 => Nat) :=
  [.arrive0 1, .arrive ⟨0, Nat.one_pos⟩ 7, .arrive0 2, .tryFetch, .arrive ⟨0, Nat.one_pos⟩ 8,
    .arrive0 3, .tryFetch]

theorem processed_eq_earlyThenPair :
    Along Fusing.step Fusing.FetchesEach .start earlyThenPair ∧
      realProcessed (earlyThenPair.foldl AllLatest.step (.start 1 fun _ => 1)) =
        if (earlyThenPair.foldl Fusing.step .start).pending then
          (earlyThenPair.foldl Simulation.step (.start 1 fun _ => 1)).processed.dropLast
        else (earlyThenPair.foldl Simulation.step (.start 1 fun _ => 1)).processed :=
  have hops : Along Fusing.step Fusing.FetchesEach .start earlyThenPair := by decide
  ⟨hops, processed_eq 1 (fun _ => Nat.le_refl 1) 1 (fun _ => 1) hops⟩

end Component
