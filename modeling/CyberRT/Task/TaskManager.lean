import CyberRT.Croutine.CRoutine
import CyberRT.Lib.Run

/-!
# `TaskManager` (`task/task_manager.{h,cc}`)

A pool of `n` routines takes tasks from one queue; `Enqueue` pushes a task and then notifies every
routine of the pool in turn, also when the queue was full and took nothing.
-/

namespace Task

open Croutine Function

def taskQueueSize : Nat := 1000

/-- Where the loop of a pool routine is: before it tries to dequeue; with a task to run; with the
queue found empty, before `set_state(DATA_WAIT)` of `HangUp`; before the swap of that. -/
inductive TaskPc (T : Type*) where
  | top
  | working (task : T)
  | empty
  | hung
  deriving DecidableEq

structure EnqueuePc where
  next : Nat
  pc : NotifyPc

def EnqueuePc.goTo (e : EnqueuePc) : NotifyPc → EnqueuePc
  | .done => ⟨e.next + 1, .readDataWait⟩
  | pc => ⟨e.next, pc⟩

structure TaskSys (n : Nat) (T : Type*) where
  queue : List T
  routines : Fin n → CRoutine
  pcs : Fin n → TaskPc T
  enqueues : List EnqueuePc

inductive TaskStep (n : Nat) (T : Type*) where
  | push (task : T)
  | enqueue (k : Nat)
  | processor (i : Fin n)
  | routine (i : Fin n)

namespace TaskSys

variable {n : Nat} {T : Type*}

def init : TaskSys n T := ⟨[], fun _ => .new, fun _ => .top, []⟩

def push (s : TaskSys n T) (task : T) : TaskSys n T :=
  { s with
    queue := if s.queue.length < taskQueueSize then s.queue ++ [task] else s.queue
    enqueues := s.enqueues ++ [⟨0, .readDataWait⟩] }

def enqueue (s : TaskSys n T) (k : Nat) : TaskSys n T :=
  match s.enqueues[k]? with
  | none => s
  | some e =>
    if h : e.next < n then
      let (pc, routine) := notifyProcessor e.pc (s.routines ⟨e.next, h⟩)
      { s with
        routines := update s.routines ⟨e.next, h⟩ routine
        enqueues := s.enqueues.set k (e.goTo pc) }
    else s

def runRoutine (s : TaskSys n T) (i : Fin n) : TaskSys n T :=
  if (s.routines i).holder ≠ .running then s
  else
    match s.pcs i with
    | .top =>
      match s.queue with
      | [] => { s with pcs := update s.pcs i .empty }
      | task :: queue => { s with queue, pcs := update s.pcs i (.working task) }
    | .working _ => { s with pcs := update s.pcs i .top }
    | .empty =>
      { s with
        routines := update s.routines i ((s.routines i).setState .dataWait)
        pcs := update s.pcs i .hung }
    | .hung =>
      { s with
        routines := update s.routines i (s.routines i).swapOut
        pcs := update s.pcs i .top }

def step (s : TaskSys n T) : TaskStep n T → TaskSys n T
  | .push task => s.push task
  | .enqueue k => s.enqueue k
  | .processor i =>
    { s with routines := update s.routines i (s.routines i).processor }
  | .routine i => s.runRoutine i

/-- **The lost wakeup**: there is a task, every pool routine is parked in `DATA_WAIT` with no update
pending, and no `Enqueue` is between its push and its last notification. -/
def Stuck (s : TaskSys n T) : Prop :=
  s.queue ≠ [] ∧
  (∀ i, (s.routines i).Parked ∧ (s.routines i).state = .dataWait ∧ ¬ (s.routines i).Pending) ∧
  ∀ e ∈ s.enqueues, n ≤ e.next

/-- The condition on a step: an `Enqueue` does not look at the state of a routine that has found
the queue empty and has not set `DATA_WAIT` yet. -/
def LooksInTime (s : TaskSys n T) : TaskStep n T → Prop
  | .enqueue k => ∀ e ∈ s.enqueues[k]?, e.pc = .readDataWait →
    ∀ h : e.next < n, s.pcs ⟨e.next, h⟩ ≠ .empty
  | _ => True

instance [DecidableEq T] (s : TaskSys n T) : Decidable s.Stuck :=
  inferInstanceAs (Decidable (_ ∧ _ ∧ _))

instance [DecidableEq T] (s : TaskSys n T) (a : TaskStep n T) : Decidable (s.LooksInTime a) := by
  unfold LooksInTime
  split <;> infer_instance

end TaskSys

/-!
## When a task pool is not left asleep

A pool routine looks into the queue *before* it enters `DATA_WAIT`, and an `Enqueue` leaves an
update only with a routine that it finds waiting.
-/

open Lib

namespace TaskSys

variable {n : Nat} {T : Type*} {s : TaskSys n T} {i : Fin n} {pc : TaskPc T} {r : CRoutine}

def Owes (e : EnqueuePc) (i : Fin n) : Prop :=
  e.next < i ∨ (e.next = i ∧ (e.pc = .readDataWait ∨ e.pc = .setFlag))

def Answered (s : TaskSys n T) (i : Fin n) : Prop :=
  ((s.routines i).Alert ∧ s.pcs i ≠ .empty) ∨ (s.routines i).Pending ∨ ∃ e ∈ s.enqueues, Owes e i

structure Inv (s : TaskSys n T) : Prop where
  noIo : ∀ i, (s.routines i).state ≠ .ioWait
  runs : ∀ i, (s.routines i).holder ≠ .running → s.pcs i = .top
  answered : s.queue ≠ [] → ∀ i, s.Answered i

theorem inv_init : Inv (init : TaskSys n T) where
  noIo i := by simp [init, CRoutine.new]
  runs i _ := rfl
  answered h := by simp [init] at h

theorem Inv.push (h : Inv s) (task : T) : Inv (s.push task) where
  noIo := h.noIo
  runs := h.runs
  answered _ i := by
    refine .inr (.inr ⟨⟨0, .readDataWait⟩, List.mem_append_right _ (List.mem_singleton_self _), ?_⟩)
    rcases Nat.eq_zero_or_pos i.val with hi | hi
    · exact .inr ⟨hi.symm, .inl rfl⟩
    · exact .inl hi

theorem owes_next {next : Nat} {pc : NotifyPc} (hlt : next < i) :
    Owes (EnqueuePc.goTo ⟨next, pc⟩ .done) i := by
  rcases Nat.lt_or_ge (next + 1) i with h | h
  · exact .inl h
  · exact .inr ⟨Nat.le_antisymm hlt h, .inl rfl⟩

section
variable (h : Inv s)
include h

theorem Inv.goOn {k : Nat} {e e' : EnqueuePc} (hk : s.enqueues[k]? = some e)
    (he : ∀ i, Owes e i → Owes e' i ∨ ((s.routines i).Alert ∧ s.pcs i ≠ .empty) ∨
      (s.routines i).Pending) : Inv { s with enqueues := s.enqueues.set k e' } := by
  refine ⟨h.noIo, h.runs, fun hq i => ?_⟩
  obtain ⟨hlt, -⟩ := List.getElem?_eq_some_iff.1 hk
  rcases h.answered hq i with ha | ha | ⟨d, hd, ho⟩
  · exact .inl ha
  · exact .inr (.inl ha)
  · rcases mem_set_or_eq hk hd e' with rfl | hd'
    · rcases he i ho with ho' | ha | ha
      · exact .inr (.inr ⟨e', List.mem_set hlt e', ho'⟩)
      · exact .inl ha
      · exact .inr (.inl ha)
    · exact .inr (.inr ⟨d, hd', ho⟩)

theorem Inv.update (hio : r.state ≠ .ioWait)
    (hruns : r.holder ≠ .running → pc = .top) (ha : s.queue ≠ [] → s.Answered i →
      (r.Alert ∧ pc ≠ .empty) ∨ r.Pending ∨ ∃ e ∈ s.enqueues, Owes e i) :
    Inv { s with
      routines := Function.update s.routines i r
      pcs := Function.update s.pcs i pc } := by
  refine ⟨fun j => ?_, fun j => ?_, fun hq j => ?_⟩
  · by_cases hj : j = i
    · grind
    · simp only [Function.update_of_ne hj]
      exact h.noIo j
  · by_cases hj : j = i
    · grind
    · simp only [Function.update_of_ne hj]
      exact h.runs j
  · by_cases hj : j = i
    · subst hj
      simp only [Answered, Function.update_self]
      exact ha hq (h.answered hq j)
    · simp only [Answered, Function.update_of_ne hj]
      exact h.answered hq j

theorem Inv.updateRoutine (hio : r.state ≠ .ioWait)
    (hruns : r.holder ≠ .running → s.pcs i = .top) (ha : s.queue ≠ [] → s.Answered i →
      (r.Alert ∧ s.pcs i ≠ .empty) ∨ r.Pending ∨ ∃ e ∈ s.enqueues, Owes e i) :
    Inv { s with routines := Function.update s.routines i r } := by
  have hinv := h.update hio hruns ha
  rwa [Function.update_eq_self] at hinv

theorem Inv.updatePc (hruns : (s.routines i).holder ≠ .running → pc = .top)
    (ha : s.queue ≠ [] → s.Answered i →
      ((s.routines i).Alert ∧ pc ≠ .empty) ∨ (s.routines i).Pending ∨ ∃ e ∈ s.enqueues, Owes e i) :
    Inv { s with pcs := Function.update s.pcs i pc } := by
  have hinv := h.update (h.noIo i) hruns ha
  rwa [Function.update_eq_self] at hinv

theorem Inv.enqueue (k : Nat) (hok : s.LooksInTime (.enqueue k)) : Inv (s.enqueue k) := by
  unfold TaskSys.enqueue
  cases hk : s.enqueues[k]? with
  | none => exact h
  | some e =>
    dsimp only
    split
    case isFalse => exact h
    rename_i hlt
    have hio := h.noIo ⟨e.next, hlt⟩
    obtain ⟨next, pc⟩ := e
    cases pc with
    | readDataWait =>
      have hpc := hok _ hk rfl hlt
      by_cases hw : (s.routines ⟨next, hlt⟩).state = .dataWait
      · simp only [notifyProcessor, if_pos hw, Function.update_eq_self]
        refine h.goOn hk fun i ho => .inl (ho.imp_right fun hi => ?_)
        exact ⟨hi.1, .inr rfl⟩
      · -- the routine does not wait, so it is to look into the queue again
        simp only [notifyProcessor, if_neg hw, Function.update_eq_self]
        refine h.goOn hk fun i ho => ho.imp (fun hi => .inl hi) fun hi => .inl ?_
        obtain rfl : ⟨next, hlt⟩ = i := Fin.ext hi.1
        exact ⟨.inl (RoutineState.waits_eq_false hw hio), hpc⟩
    | readIoWait =>
      simp only [notifyProcessor, if_neg hio, Function.update_eq_self]
      refine h.goOn hk fun i ho => .inl (owes_next ?_)
      simpa [Owes] using ho
    | setFlag =>
      have hset := h.updateRoutine (i := ⟨next, hlt⟩) (r := (s.routines ⟨next, hlt⟩).setUpdateFlag)
        hio (h.runs ⟨next, hlt⟩) fun _ _ => .inr (.inl (CRoutine.pending_setUpdateFlag _))
      refine hset.goOn hk fun i ho => ?_
      by_cases hi : i = ⟨next, hlt⟩
      · subst hi
        simp only [Function.update_self]
        exact .inr (.inr (CRoutine.pending_setUpdateFlag _))
      · refine .inl (owes_next (ho.resolve_right fun hn => hi ?_))
        exact Fin.ext hn.1.symm
    | done =>
      simp only [notifyProcessor, Function.update_eq_self]
      refine h.goOn hk fun i ho => .inl (owes_next ?_)
      simpa [Owes] using ho

theorem Inv.processor (i : Fin n) : Inv (s.step (.processor i)) := by
  refine h.updateRoutine ?_ (fun hp => ?_) fun _ ha => ?_
  · exact CRoutine.processor_state_ne (by decide) (h.noIo i)
  · refine h.runs i fun hr => hp ?_
    rwa [CRoutine.processor_running hr]
  · by_cases hr : (s.routines i).holder = .running
    · rw [CRoutine.processor_running hr]
      exact ha
    · -- a parked routine is at the head of its loop
      have hpc : s.pcs i ≠ .empty := by simp [h.runs i hr]
      rcases ha with ha | ha | ha
      · exact .inl ⟨ha.1.processor, hpc⟩
      · exact .inl ⟨CRoutine.Alert.processor (.inr ha), hpc⟩
      · exact .inr (.inr ha)

theorem Inv.runRoutine (i : Fin n) : Inv (s.runRoutine i) := by
  unfold TaskSys.runRoutine
  split
  · exact h
  rename_i hr
  have hr : (s.routines i).holder = .running := by simpa using hr
  cases hpc : s.pcs i with
  | top =>
    cases hq : s.queue with
    | nil =>
      -- the queue is empty, so there is nothing to answer for
      refine ⟨h.noIo, fun j hp => ?_, fun hne => absurd rfl hne⟩
      have hj : j ≠ i := by
        rintro rfl
        exact hp hr
      simp only [Function.update_of_ne hj]
      exact h.runs j hp
    | cons task queue =>
      have hne : s.queue ≠ [] := by simp [hq]
      have hinv : Inv { s with pcs := Function.update s.pcs i (.working task) } :=
        h.updatePc (fun hp => absurd hr hp) fun _ ha => ha.imp_left fun ha => ⟨ha.1, by simp⟩
      exact ⟨hinv.noIo, hinv.runs, fun _ => hinv.answered hne⟩
  | working task =>
    exact h.updatePc (fun hp => absurd hr hp) fun _ ha => ha.imp_left fun ha => ⟨ha.1, by simp⟩
  | empty =>
    refine h.update (by simp [CRoutine.setState]) (fun hp => absurd hr hp) fun _ ha => .inr ?_
    rcases ha with ha | ha | ha
    · exact absurd hpc ha.2
    · exact .inl ha
    · exact .inr ha
  | hung =>
    refine h.update (h.noIo i) (fun _ => rfl) fun _ ha => ?_
    rcases ha with ha | ha | ha
    · exact .inl ⟨ha.1.swapOut hr, by simp⟩
    · exact .inl ⟨CRoutine.Alert.swapOut (.inr ha) hr, by simp⟩
    · exact .inr (.inr ha)

theorem Inv.step (a : TaskStep n T) (hok : s.LooksInTime a) : Inv (s.step a) := by
  cases a with
  | push task => exact h.push task
  | enqueue k => exact h.enqueue k hok
  | processor i => exact h.processor i
  | routine i => exact h.runRoutine i

theorem Inv.not_stuck (hn : 0 < n) : ¬ s.Stuck := by
  rintro ⟨hq, hall, henq⟩
  obtain ⟨hp, hw, hnot⟩ := hall ⟨0, hn⟩
  rcases h.answered hq ⟨0, hn⟩ with ⟨ha | ha, -⟩ | ha | ⟨e, he, ho⟩
  · rw [hw] at ha
    cases ha
  · exact hnot ha
  · exact hnot ha
  · have hle := henq e he
    rcases ho with ho | ⟨ho, -⟩
    · simp at ho
    · omega

end

/-- **A pool of one routine or more is not left asleep** in the runs in which no `Enqueue` looks at
the state of a routine that has found the queue empty and has not set `DATA_WAIT` yet. -/
theorem awake_always (hn : 0 < n) (steps : List (TaskStep n T))
    (h : Along step LooksInTime init steps) :
    Always step (fun s => ¬ s.Stuck) (init : TaskSys n T) steps := by
  have hinv : Always step Inv init steps := h.always inv_init fun s a hs ha => hs.step a ha
  exact hinv.imp fun s hs => hs.not_stuck hn

/-- The routine hangs up, and is woken for a task that is enqueued then. -/
theorem awake_always_one : Always step (fun s => ¬ s.Stuck) (init : TaskSys 1 Nat)
    [.processor 0, .processor 0, .processor 0, .routine 0, .routine 0, .push 7, .enqueue 0,
      .enqueue 0, .routine 0, .processor 0, .processor 0, .processor 0, .processor 0, .routine 0] :=
  awake_always (by decide) _ (by decide +kernel)

/-- The routine finds the queue empty; a task is pushed and its `Enqueue` finds the routine not
waiting; the routine hangs up. -/
theorem not_awake_hangUp : ¬ Always step (fun s => ¬ s.Stuck) (init : TaskSys 1 Nat)
    [.processor 0, .processor 0, .processor 0, .routine 0, .push 7, .enqueue 0, .enqueue 0,
      .routine 0, .routine 0] := by
  decide +kernel

end TaskSys

end Task
