import CyberRT.Lib.Run
import CyberRT.Lib.Locks

/-!
# `BoundedQueue` (`base/bounded_queue.h`)

A ring of `size + 2` slots with three counters: an `Enqueue` reserves the slot at `tail_`, stores
its element there and moves `commit_` past it in the order of the reservations; a `Dequeue` takes
the element behind `head_` if `commit_` is past it.
-/

namespace Base

structure BoundedQueue (T : Type*) where
  head : Nat
  tail : Nat
  commit : Nat
  poolSize : Nat
  pool : Nat → T
  breakAllWait : Bool

/-- Where an `Enqueue` is: not called, with the result of the last call; before its load of `tail_`;
before its load of `head_`; before the compare-exchange of `tail_`; with a slot, before the store;
before the compare-exchange of `commit_`; before `NotifyOne`. -/
inductive EnqueuePc (T : Type*) where
  | idle (result : Option Bool)
  | loadTail (element : T)
  | loadHead (element : T) (oldTail : Nat)
  | casTail (element : T) (oldTail : Nat)
  | store (element : T) (oldTail : Nat)
  | casCommit (oldTail : Nat)
  | notify
  deriving DecidableEq

/-- Where a `Dequeue` is: before its load of `head_`; before its load of `commit_`; before it reads
the slot; before the compare-exchange of `head_`; returned. -/
inductive DequeuePc (T : Type*) where
  | loadHead
  | loadCommit (oldHead : Nat)
  | read (oldHead : Nat)
  | casHead (oldHead : Nat) (element : T)
  | returned (element : Option T)
  deriving DecidableEq

namespace BoundedQueue

variable {T : Type*}

def init [Inhabited T] (size : Nat) : BoundedQueue T := ⟨0, 1, 1, size + 2, fun _ => default, false⟩

variable (q : BoundedQueue T)

def getIndex (num : Nat) : Nat := num - num / q.poolSize * q.poolSize

def enqueueStep (weak : Bool) : EnqueuePc T → EnqueuePc T × BoundedQueue T
  | .idle result => (.idle result, q)
  | .loadTail x => (.loadHead x q.tail, q)
  | .loadHead x oldTail =>
    if q.getIndex (oldTail + 1) = q.getIndex q.head then (.idle (some false), q)
    else (.casTail x oldTail, q)
  | .casTail x oldTail =>
    if q.tail = oldTail ∧ weak = false then (.store x oldTail, { q with tail := oldTail + 1 })
    else (.loadHead x q.tail, q)
  | .store x oldTail =>
    (.casCommit oldTail, { q with pool := Function.update q.pool (q.getIndex oldTail) x })
  | .casCommit oldTail =>
    if q.commit = oldTail ∧ weak = false then (.notify, { q with commit := oldTail + 1 })
    else (.casCommit oldTail, q)
  | .notify => (.idle (some true), q)

def dequeueStep (weak : Bool) : DequeuePc T → DequeuePc T × BoundedQueue T
  | .loadHead => (.loadCommit q.head, q)
  | .loadCommit oldHead =>
    if oldHead + 1 = q.commit then (.returned none, q) else (.read oldHead, q)
  | .read oldHead => (.casHead oldHead (q.pool (q.getIndex (oldHead + 1))), q)
  | .casHead oldHead x =>
    if q.head = oldHead ∧ weak = false then (.returned (some x), { q with head := oldHead + 1 })
    else (.loadCommit q.head, q)
  | .returned x => (.returned x, q)

def Holds : Prop := q.head + 1 ≠ q.commit
deriving Decidable

end BoundedQueue

/-!
## A `BoundedQueue` among threads

Any number of threads enqueue and dequeue, their steps in any order.
-/

open Function

variable {ι κ T : Type*}

structure QueueSystem (ι κ T : Type*) where
  queue : BoundedQueue T
  producers : ι → EnqueuePc T
  consumers : κ → DequeuePc T
  reserved : List T
  dequeued : List T

inductive QueueEvent (ι κ T : Type*) where
  | callEnqueue (i : ι) (element : T)
  | enqueue (i : ι) (weak : Bool)
  | callDequeue (j : κ)
  | dequeue (j : κ) (weak : Bool)

def EnqueuePc.reservation : EnqueuePc T → EnqueuePc T → List T
  | .casTail _ _, .store x _ => [x]
  | _, _ => []

def DequeuePc.result : DequeuePc T → DequeuePc T → List T
  | .casHead _ _, .returned (some x) => [x]
  | _, _ => []

def EnqueuePc.running : EnqueuePc T → Bool
  | .idle _ => false
  | _ => true

/-- An `Enqueue` is about to compare the tail that it read, which `head_` has passed meanwhile, and
the slot behind that tail has the index of `head_`. -/
def EnqueuePc.overtaken (q : BoundedQueue T) : EnqueuePc T → Bool
  | .loadHead _ oldTail => decide (oldTail < q.head ∧ q.getIndex (oldTail + 1) = q.getIndex q.head)
  | _ => false

namespace QueueSystem

def init [Inhabited T] (size : Nat) : QueueSystem ι κ T :=
  ⟨.init size, fun _ => .idle none, fun _ => .returned none, [], []⟩

variable [DecidableEq ι] [DecidableEq κ]

def step (s : QueueSystem ι κ T) : QueueEvent ι κ T → QueueSystem ι κ T
  | .callEnqueue i x =>
    match s.producers i with
    | .idle _ => { s with producers := update s.producers i (.loadTail x) }
    | _ => s
  | .enqueue i weak =>
    let (pc, q) := s.queue.enqueueStep weak (s.producers i)
    { s with
      queue := q
      producers := update s.producers i pc
      reserved := s.reserved ++ (s.producers i).reservation pc }
  | .callDequeue j =>
    match s.consumers j with
    | .returned _ => { s with consumers := update s.consumers j .loadHead }
    | _ => s
  | .dequeue j weak =>
    let (pc, q) := s.queue.dequeueStep weak (s.consumers j)
    { s with
      queue := q
      consumers := update s.consumers j pc
      dequeued := s.dequeued ++ (s.consumers j).result pc }

def Stored (s : QueueSystem ι κ T) (n : Nat) (x : T) : Prop :=
  n + 1 < s.queue.commit ∧ s.queue.pool (s.queue.getIndex (n + 1)) = x

def Storing (s : QueueSystem ι κ T) (i : ι) (n : Nat) (x : T) : Prop :=
  s.producers i = .store x (n + 1) ∨
    s.producers i = .casCommit (n + 1) ∧ s.queue.pool (s.queue.getIndex (n + 1)) = x

/-- **First in, first out, and none lost.** -/
structure InOrder (size : Nat) (s : QueueSystem ι κ T) : Prop where
  order : s.dequeued = s.reserved.take s.dequeued.length
  held : ∀ n x, s.dequeued.length ≤ n → s.reserved[n]? = some x →
    s.Stored n x ∨ ∃! i, s.Storing i n x
  next : s.queue.head = s.dequeued.length
  bound : s.reserved.length ≤ s.dequeued.length + size

def Full (size : Nat) (s : QueueSystem ι κ T) : Prop :=
  s.reserved.length = s.dequeued.length + size
deriving Decidable

/-- **No room.** Whenever a call of `Enqueue` returns false, the queue was full at some moment
since that call began. -/
def FalseOnlyIfFull (size : Nat) (s₀ : QueueSystem ι κ T) (evs : List (QueueEvent ι κ T)) : Prop :=
  ∀ pre ev suf i, evs = pre ++ ev :: suf →
    ((pre.foldl step s₀).producers i).running = true →
    ((pre.foldl step s₀).step ev).producers i = .idle (some false) →
    ∃ before during, pre = before ++ during ∧ (before.foldl step s₀).Full size ∧
      Lib.Always step (fun s => (s.producers i).running = true) (before.foldl step s₀) during

end QueueSystem

/-!
## `ThreadPool` (`base/thread_pool.h`, `base/wait_strategy.h`)

The workers take tasks from a `BoundedQueue` with a `BlockWaitStrategy`: a `WaitDequeue` that finds
the queue empty waits on a condition variable, which an `Enqueue` notifies after its commit, and
`BreakAllWait` after it has set `break_all_wait_`.
-/

open Function Lib

/-- Where a worker is: before it reads `stop_`; in `WaitDequeue`, before it reads `break_all_wait_`;
in its `Dequeue`; before `EmptyWait`, with the queue found empty; in `EmptyWait`; with a task to
run; past its loop. -/
inductive WorkerPc (T : Type*) where
  | top
  | readBreak
  | dequeue (pc : DequeuePc T)
  | enterWait
  | waiting
  | working (task : T)
  | exited
  deriving DecidableEq

def WorkerPc.checked {T : Type*} : WorkerPc T → Bool
  | .dequeue _ | .enterWait => true
  | .top | .readBreak | .waiting | .working _ | .exited => false

/-- Where the destructor is: not called; past `stop_.exchange(true)`; in `BreakAllWait`, before its
`notify_all`; before the join of a worker; returned. -/
inductive DestructorPc where
  | idle
  | stopped
  | breaking
  | joining (next : Nat)
  | done
  deriving DecidableEq

/-- `ThreadPool` with `n` workers and `m` producers; `breakers` is the number of other calls of
`BreakAllWait` before their `notify_all`. -/
structure ThreadPool (n m : Nat) (T : Type*) where
  queue : BoundedQueue T
  cond : CondVar (Fin n)
  stop : Bool
  workers : Fin n → WorkerPc T
  producers : Fin m → EnqueuePc T
  breakers : Nat
  destructor : DestructorPc

inductive PoolStep (n m : Nat) (T : Type*) where
  | enqueue (j : Fin m) (task : T)
  | producer (j : Fin m) (weak : Bool) (woken : Nat)
  | worker (i : Fin n) (weak : Bool)
  | breakAllWait
  | breakNotify
  | destructor

namespace ThreadPool

variable {n m : Nat} {T : Type*}

def init [Inhabited T] (maxTaskNum : Nat) : ThreadPool n m T :=
  ⟨.init maxTaskNum, .empty, false, fun _ => .top, fun _ => .idle none, 0, .idle⟩

variable (s : ThreadPool n m T)

def goto (i : Fin n) (pc : WorkerPc T) : ThreadPool n m T :=
  { s with workers := update s.workers i pc }

def enqueue (j : Fin m) (task : T) : ThreadPool n m T :=
  match s.producers j with
  | .idle _ => { s with producers := update s.producers j (.loadTail task) }
  | _ => s

def produce (j : Fin m) (weak : Bool) (woken : Nat) : ThreadPool n m T :=
  { s with
    queue := (s.queue.enqueueStep weak (s.producers j)).2
    producers := update s.producers j (s.queue.enqueueStep weak (s.producers j)).1
    cond :=
      match s.producers j with
      | .notify => s.cond.notifyOne woken
      | _ => s.cond }

def work (i : Fin n) (weak : Bool) : ThreadPool n m T :=
  match s.workers i with
  | .top => s.goto i (if s.stop then .exited else .readBreak)
  | .readBreak => s.goto i (if s.queue.breakAllWait then .top else .dequeue .loadHead)
  | .dequeue pc =>
    match s.queue.dequeueStep weak pc with
    | (.returned none, queue) => { s with queue }.goto i .enterWait
    | (.returned (some task), queue) => { s with queue }.goto i (.working task)
    | (pc, queue) => { s with queue }.goto i (.dequeue pc)
  | .enterWait => { s with cond := s.cond.wait i }.goto i .waiting
  | .waiting => if i ∈ s.cond.waiting then s else s.goto i .readBreak
  | .working _ => s.goto i .top
  | .exited => s

def setBreak : ThreadPool n m T :=
  { s with queue := { s.queue with breakAllWait := true } }

def destroy : ThreadPool n m T :=
  match s.destructor with
  | .idle => { s with stop := true, destructor := if s.stop then .done else .stopped }
  | .stopped => { s.setBreak with destructor := .breaking }
  | .breaking => { s with cond := s.cond.notifyAll, destructor := .joining 0 }
  | .joining k =>
    if h : k < n then
      match s.workers ⟨k, h⟩ with
      | .exited => { s with destructor := .joining (k + 1) }
      | _ => s
    else { s with destructor := .done }
  | .done => s

def step : PoolStep n m T → ThreadPool n m T
  | .enqueue j task => s.enqueue j task
  | .producer j weak woken => s.produce j weak woken
  | .worker i weak => s.work i weak
  | .breakAllWait => { s.setBreak with breakers := s.breakers + 1 }
  | .breakNotify =>
    if s.breakers = 0 then s
    else { s with cond := s.cond.notifyAll, breakers := s.breakers - 1 }
  | .destructor => s.destroy

/-! ## What is to hold -/

def Breaking : Prop := 0 < s.breakers ∨ s.destructor = .breaking
deriving Decidable

/-- **The lost wakeup**: a consumer is blocked while there is an element or `break_all_wait_` is
set, and no notification is still to be issued. -/
def Lost : Prop :=
  s.cond.waiting ≠ [] ∧ (s.queue.Holds ∨ s.queue.breakAllWait = true) ∧
    (∀ j, s.producers j ≠ .notify) ∧ ¬ s.Breaking

def CanFinish : Prop :=
  ∃ more : List (PoolStep n m T), (more.foldl step s).destructor = .done

/-- The condition on a step for the flag: a `notify_all` finds no consumer between its read of
`break_all_wait_` and its wait. -/
def BreaksInTime : PoolStep n m T → Prop
  | .breakNotify => 0 < s.breakers → ∀ i, (s.workers i).checked = false
  | .destructor => s.destructor = .breaking → ∀ i, (s.workers i).checked = false
  | .enqueue _ _ | .producer _ _ _ | .worker _ _ | .breakAllWait => True

/-- The condition on a step: also, a `notify_one` finds no consumer between its failed `Dequeue` and
its wait, and at most one that waits, unless another notification is to be issued or there is no
element any more. -/
def NotifiesInTime : PoolStep n m T → Prop
  | .producer j _ _ => s.producers j = .notify →
    (∃ j', j' ≠ j ∧ s.producers j' = .notify) ∨ s.Breaking ∨ ¬ s.queue.Holds ∨
      (∀ i, s.workers i ≠ .enterWait) ∧ s.cond.waiting.length ≤ 1
  | a => s.BreaksInTime a

instance [DecidableEq T] (s : ThreadPool n m T) : Decidable s.Lost :=
  inferInstanceAs (Decidable (_ ∧ _ ∧ _ ∧ _))

instance (s : ThreadPool n m T) (a : PoolStep n m T) : Decidable (s.BreaksInTime a) := by
  unfold BreaksInTime
  split <;> infer_instance

instance [DecidableEq T] (s : ThreadPool n m T) (a : PoolStep n m T) :
    Decidable (s.NotifiesInTime a) := by
  unfold NotifiesInTime
  split <;> infer_instance

end ThreadPool

/-! ## The future of an `Enqueue` (`base/thread_pool.h`, `task/task_manager.h`) -/

variable {ι κ T : Type*}

def BoundedQueue.elements (q : BoundedQueue T) : List T :=
  (List.range' (q.head + 1) (q.commit - 1 - q.head)).map fun t => q.pool (q.getIndex t)

inductive Pool where
  | threadPool
  | taskManager
  deriving DecidableEq

/-- What an `Enqueue` returned; `stopped`: the shutdown had begun. -/
structure TaskFuture (ι : Type*) where
  task : ι × Nat
  valid : Bool
  stopped : Bool

/-- The callers of `Enqueue` and the workers, which call `Dequeue`. The task of the call number
`made i` of the caller `i`, its last one, is `(i, made i)`. -/
structure FutureSystem (ι κ : Type*) where
  sys : QueueSystem ι κ (ι × Nat)
  stop : Bool
  made : ι → Nat
  futures : List (TaskFuture ι)

inductive FutureEvent (ι κ : Type*) where
  | enqueue (i : ι)
  | push (i : ι) (weak : Bool)
  | callDequeue (j : κ)
  | dequeue (j : κ) (weak : Bool)
  | shutdown

namespace FutureSystem

def init [Inhabited ι] (size : Nat) : FutureSystem ι κ := ⟨.init size, false, fun _ => 0, []⟩

section
variable [DecidableEq ι] [DecidableEq κ]

def step (pool : Pool) (s : FutureSystem ι κ) : FutureEvent ι κ → FutureSystem ι κ
  | .enqueue i =>
    if (s.sys.producers i).running then s
    else
      let task := (i, s.made i + 1)
      let s := { s with made := update s.made i (s.made i + 1) }
      if s.stop then
        -- a `TaskManager` returns the future of the task that it drops
        { s with futures := s.futures ++ [⟨task, decide (pool = .taskManager), true⟩] }
      else { s with sys := s.sys.step (.callEnqueue i task) }
  | .push i weak =>
    if (s.sys.producers i).running then
      let sys := s.sys.step (.enqueue i weak)
      if (sys.producers i).running then { s with sys }
      else { s with sys, futures := s.futures ++ [⟨(i, s.made i), true, s.stop⟩] }
    else s
  | .callDequeue j => { s with sys := s.sys.step (.callDequeue j) }
  | .dequeue j weak => { s with sys := s.sys.step (.dequeue j weak) }
  | .shutdown => { s with stop := true }

/-- **No task is dropped** whose valid future was returned before the shutdown. -/
def Kept (s : FutureSystem ι κ) : Prop :=
  ∀ f ∈ s.futures, f.valid = true → f.stopped = false →
    f.task ∈ s.sys.queue.elements ∨ f.task ∈ s.sys.dequeued

/-- The condition on a step: no push that compares its position with the head, before the shutdown,
finds the slot behind it to be the slot of the head. -/
def NotRefused (s : FutureSystem ι κ) : FutureEvent ι κ → Prop
  | .push i _ => s.stop = false → ∀ x t, s.sys.producers i = .loadHead x t →
    s.sys.queue.getIndex (t + 1) ≠ s.sys.queue.getIndex s.sys.queue.head
  | _ => True

instance (s : FutureSystem ι κ) : Decidable s.Kept := inferInstanceAs (Decidable (∀ f ∈ _, _))

end

end FutureSystem

end Base
