import CyberRT.Lib.Run
import CyberRT.Transport.MessageInfo
import CyberRT.Lib.Locks

/-!
# The clients of a service (`service/client.h`, `service/service.h`)

A client numbers its requests and transmits each with its own `writer_id_` as the spare id; under
that number it keeps the promise, the callback and the future of the call in `pending_requests_`.
-/

namespace Service

open Function Lib Transport

def messageInfo (senderId : Identity) (seqNum : UInt64) (spareId : Identity) : MessageInfo :=
  ⟨senderId, 0, seqNum, spareId, 0⟩

structure Ids (ι : Type*) where
  writerId : ι → Identity
  responder : Identity
  distinct : Injective fun i => (writerId i).data

/-- What `pending_requests_` holds: the promise, the callback and the future, each by the number of
the call that made it. -/
structure Pending where
  promise : Nat
  callback : Nat
  future : Nat

structure Client where
  inited : Bool
  sequenceNumber : UInt64
  pending : UInt64 → Option Pending

structure Call (ι Req : Type*) where
  client : ι
  info : MessageInfo
  request : Req

structure Answer (Res : Type*) where
  call : Nat
  info : MessageInfo
  response : Res

/-- The clients, what was transmitted, and what they have done: the promises that were set, with
their values, and the callbacks that were run, with the futures that they got. -/
structure ClientSystem (ι Req Res : Type*) where
  clients : ι → Client
  calls : List (Call ι Req)
  answers : List (Answer Res)
  fulfilled : List (Nat × Res)
  callbacks : List (Nat × Nat)

/-- `handle n res`: the service handles the `n`-th request that was transmitted, and its callback
computes `res`. `receive i n`: client `i` receives the `n`-th response. -/
inductive ClientEvent (ι Req Res : Type*) where
  | init (i : ι)
  | send (i : ι) (request : Req)
  | handle (n : Nat) (response : Res)
  | receive (i : ι) (n : Nat)

namespace ClientSystem

variable {ι Req Res : Type*}

def init : ClientSystem ι Req Res := ⟨fun _ => ⟨false, 0, fun _ => none⟩, [], [], [], []⟩

section
variable [DecidableEq ι]

def asyncSendRequest (ids : Ids ι) (s : ClientSystem ι Req Res) (i : ι) (request : Req) :
    ClientSystem ι Req Res :=
  let c := s.clients i
  if c.inited then
    let seq := c.sequenceNumber + 1
    let info := messageInfo (ids.writerId i) seq (ids.writerId i)
    let n := s.calls.length
    { s with
      calls := s.calls ++ [⟨i, info, request⟩]
      clients := update s.clients i
        { c with
          sequenceNumber := seq
          pending := update c.pending seq (some ⟨n, n, n⟩) } }
  else s

def handleResponse (ids : Ids ι) (s : ClientSystem ι Req Res) (i : ι) (response : Res)
    (info : MessageInfo) : ClientSystem ι Req Res :=
  let c := s.clients i
  if info.spareId.data ≠ (ids.writerId i).data then s
  else
    match c.pending info.seqNum with
    | none => s
    | some p =>
      { s with
        clients := update s.clients i { c with pending := update c.pending info.seqNum none }
        fulfilled := s.fulfilled ++ [(p.promise, response)]
        callbacks := s.callbacks ++ [(p.callback, p.future)] }

def handleRequest (ids : Ids ι) (s : ClientSystem ι Req Res) (n : Nat) (response : Res) :
    ClientSystem ι Req Res :=
  match s.calls[n]? with
  | none => s
  | some call =>
    { s with answers := s.answers ++ [⟨n, { call.info with senderId := ids.responder }, response⟩] }

def step (ids : Ids ι) (s : ClientSystem ι Req Res) : ClientEvent ι Req Res → ClientSystem ι Req Res
  | .init i => { s with clients := update s.clients i { s.clients i with inited := true } }
  | .send i request => s.asyncSendRequest ids i request
  | .handle n response => s.handleRequest ids n response
  | .receive i n =>
    match (s.clients i).inited, s.answers[n]? with
    | true, some a => s.handleResponse ids i a.response a.info
    | _, _ => s

def requestsOf (calls : List (Call ι Req)) (i : ι) : Nat :=
  calls.countP fun call => decide (call.client = i)

end

def FulfilledOnce (s : ClientSystem ι Req Res) : Prop := (s.fulfilled.map Prod.fst).Nodup

def CalledBackOnce (s : ClientSystem ι Req Res) : Prop :=
  (s.callbacks.map Prod.fst).Nodup ∧ ∀ run ∈ s.callbacks, run.2 = run.1

def Matched (s : ClientSystem ι Req Res) : Prop :=
  ∀ f ∈ s.fulfilled, ∃ a ∈ s.answers, a.call = f.1 ∧ a.response = f.2

end ClientSystem

/-!
## The queue of a `Service` (`service/service.h`)

The receiver puts each request into `tasks_` as a task (`Enqueue`); the thread that `Init` starts
runs them one by one (`Process`); `destroy` stops that thread and joins it.
-/

/-- Where a thread of the receiver is: in no `Enqueue`; before the mutex; with it, before
`emplace_back`, before `notify_one`, before the unlock. -/
inductive ReceiverPc (α : Type*) where
  | idle
  | locking (task : α)
  | locked (task : α)
  | pushed
  | notified

def ReceiverPc.hasMutex {α : Type*} : ReceiverPc α → Bool
  | .locked _ | .pushed | .notified => true
  | .idle | .locking _ => false

/-- Where `Process` is: not started; before it reads `IsShutdown`; before the mutex; in `wait`,
before the predicate; with the predicate found false, before it blocks; blocked; behind `wait`; with
a task to run; returned. -/
inductive WorkerPc (α : Type*) where
  | unstarted
  | top
  | locking
  | checking
  | blocking
  | waiting
  | woken
  | running (task : α)
  | exited

namespace WorkerPc

variable {α : Type*}

def hasMutex : WorkerPc α → Bool
  | .checking | .blocking | .woken => true
  | _ => false

def inHand : WorkerPc α → List α
  | .running task => [task]
  | _ => []

end WorkerPc

/-- Where the owner of the service is: in no call; in `Init`, before it sets `inited_`, before it
starts the thread; in `destroy`, before the mutex, with it, before `notify_all`, before the join has
returned. -/
inductive OwnerPc where
  | quiet
  | initing
  | starting
  | clearing
  | locked
  | notifying
  | joining
  deriving DecidableEq

def OwnerPc.willNotify : OwnerPc → Bool
  | .clearing | .locked | .notifying => true
  | .quiet | .initing | .starting | .joining => false

def OwnerPc.destroying : OwnerPc → Bool
  | .clearing | .locked | .notifying | .joining => true
  | .quiet | .initing | .starting => false

inductive Role (ι : Type*) where
  | receiver (i : ι)
  | worker
  | owner
  deriving DecidableEq

def hasMutex {ι α : Type*} (receivers : ι → ReceiverPc α) (worker : WorkerPc α) (owner : OwnerPc) :
    Role ι → Bool
  | .receiver i => (receivers i).hasMutex
  | .worker => worker.hasMutex
  | .owner => decide (owner = .locked)

/-- `receiving`: there is a `request_receiver_`; `joinable`: `thread_.joinable()`. `arrived` are the
tasks in the order in which they were put into the queue, `handled` those that were run. -/
structure ServiceTasks (ι α : Type*) where
  receiving : Bool
  inited : Bool
  joinable : Bool
  shutdown : Bool
  tasks : List α
  mutex : Option (Role ι)
  cond : CondVar Unit
  receivers : ι → ReceiverPc α
  worker : WorkerPc α
  owner : OwnerPc
  arrived : List α
  handled : List α

/-- `init made`: a call of `Init` that makes the receiver, or fails to. `wake`: the worker wakes
without a notification. -/
inductive TasksEvent (ι α : Type*) where
  | init (made : Bool)
  | destroy
  | owner
  | enqueue (i : ι) (task : α)
  | receiver (i : ι)
  | worker
  | wake
  | shutdown

namespace ServiceTasks

variable {ι α : Type*}

def init : ServiceTasks ι α :=
  ⟨false, false, false, false, [], none, .empty, fun _ => .idle, .unstarted, .quiet, [], []⟩

def receiverStep [DecidableEq ι] (s : ServiceTasks ι α) (i : ι) : ServiceTasks ι α :=
  let goto := update s.receivers i
  match s.receivers i with
  | .idle => s
  | .locking task =>
    if s.mutex.isNone then { s with mutex := some (.receiver i), receivers := goto (.locked task) }
    else s
  | .locked task =>
    { s with
      tasks := s.tasks ++ [task], arrived := s.arrived ++ [task], receivers := goto .pushed }
  | .pushed => { s with cond := s.cond.notifyOne 0, receivers := goto .notified }
  | .notified => { s with mutex := none, receivers := goto .idle }

def workerStep (s : ServiceTasks ι α) : ServiceTasks ι α :=
  match s.worker with
  | .unstarted => s
  | .top => { s with worker := if s.shutdown then .exited else .locking }
  | .locking =>
    if s.mutex.isNone then { s with mutex := some .worker, worker := .checking } else s
  | .checking =>
    { s with worker := if !s.inited || !s.tasks.isEmpty then .woken else .blocking }
  | .blocking => { s with cond := s.cond.wait (), mutex := none, worker := .waiting }
  | .waiting =>
    if () ∉ s.cond.waiting ∧ s.mutex.isNone then
      { s with mutex := some .worker, worker := .checking }
    else s
  | .woken =>
    if !s.inited then { s with mutex := none, worker := .exited }
    else
      match s.tasks with
      | [] => { s with mutex := none, worker := .top }
      | task :: tasks => { s with tasks := tasks, mutex := none, worker := .running task }
  | .running task => { s with handled := s.handled ++ [task], worker := .top }
  | .exited => s

/-- The next step of `Init` or `destroy`. -/
def ownerStep (s : ServiceTasks ι α) : ServiceTasks ι α :=
  match s.owner with
  | .quiet => s
  | .initing => { s with inited := true, owner := .starting }
  | .starting =>
    if s.joinable then s else { s with worker := .top, joinable := true, owner := .quiet }
  | .clearing =>
    if s.mutex.isNone then { s with mutex := some .owner, owner := .locked } else s
  | .locked => { s with tasks := [], mutex := none, owner := .notifying }
  | .notifying => { s with cond := s.cond.notifyAll, owner := .joining }
  | .joining =>
    if s.joinable then
      if s.worker matches .exited then { s with joinable := false, owner := .quiet } else s
    else { s with owner := .quiet }

def step [DecidableEq ι] (s : ServiceTasks ι α) : TasksEvent ι α → ServiceTasks ι α
  | .init made =>
    if s.owner = .quiet ∧ s.receiving = false then { s with receiving := made, owner := .initing }
    else s
  | .destroy => if s.owner = .quiet then { s with inited := false, owner := .clearing } else s
  | .owner => s.ownerStep
  | .enqueue i task =>
    match s.receivers i with
    | .idle =>
      if s.receiving then { s with receivers := update s.receivers i (.locking task) }
      else s
    | _ => s
  | .receiver i => s.receiverStep i
  | .worker => s.workerStep
  | .wake => { s with cond := s.cond.notifyAll }
  | .shutdown => { s with shutdown := true }

/-! ## What is to hold -/

def Blocked (s : ServiceTasks ι α) : Prop := s.worker = .waiting ∧ () ∈ s.cond.waiting

def NotificationComing (s : ServiceTasks ι α) : Prop :=
  (∃ i, s.receivers i = .pushed) ∨ s.owner.willNotify = true

/-- **The lost wakeup**: the worker waits with a task in the queue. -/
def Stranded (s : ServiceTasks ι α) : Prop :=
  s.Blocked ∧ s.tasks ≠ [] ∧ ¬ s.NotificationComing

def LeftInJoin (s : ServiceTasks ι α) : Prop := s.owner = .joining ∧ s.Blocked

def Returns [DecidableEq ι] (s : ServiceTasks ι α) : Prop :=
  ∃ more : List (TasksEvent ι α),
    (∀ ev ∈ more, ev = .owner ∨ ev = .worker ∨ ∃ i, ev = .receiver i) ∧
      (more.foldl step s).owner = .quiet

def CanReturn [DecidableEq ι] (s : ServiceTasks ι α) : Prop := s.owner = .joining → s.Returns

end ServiceTasks

/-!
## What stays pending

`SendRequest` waits for the future of its request and returns, with the response or without one. An
entry of `pending_requests_` goes only with a response.
-/

/-- `givenUp`: the calls of those `SendRequest`s that have returned without a response. -/
structure WaitSystem (ι Req Res : Type*) where
  sys : ClientSystem ι Req Res
  givenUp : List Nat

/-- `wait n`: the `SendRequest` that made the `n`-th call comes back from `wait_for`. -/
inductive WaitEvent (ι Req Res : Type*) where
  | client (ev : ClientEvent ι Req Res)
  | wait (n : Nat)

namespace WaitSystem

variable {ι Req Res : Type*} [DecidableEq ι]

def init : WaitSystem ι Req Res := ⟨ClientSystem.init, []⟩

def ready (s : WaitSystem ι Req Res) (n : Nat) : Prop := n ∈ s.sys.fulfilled.map Prod.fst
deriving Decidable

def step (ids : Ids ι) (s : WaitSystem ι Req Res) : WaitEvent ι Req Res → WaitSystem ι Req Res
  | .client ev => { s with sys := s.sys.step ids ev }
  | .wait n =>
    if n < s.sys.calls.length ∧ ¬ s.ready n then { s with givenUp := n :: s.givenUp } else s

end WaitSystem

end Service
