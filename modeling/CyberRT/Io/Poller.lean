import CyberRT.Croutine.CRoutine

/-!
# `Poller` (`io/poller.{h,cc}`, `io/poll_data.h`)

`Register` and `Unregister` change the map of requests at once and leave a control operation for the
poller thread, at most one for each file descriptor; `HandleChanges` hands these to `epoll_ctl`.
-/

namespace Io

open Function

def epollIn : UInt32 := 0x1
def epollOut : UInt32 := 0x4
def epollOneShot : UInt32 := 0x40000000
def epollEt : UInt32 := 0x80000000

structure PollRequest where
  fd : Int
  events : UInt32
  timeoutMs : Int
  hasCallback : Bool

inductive CtlOp where
  | add
  | mod
  | del
  deriving DecidableEq

structure PollCtrlParam where
  operation : CtlOp
  fd : Int
  events : UInt32

structure Interest where
  events : UInt32
  armed : Bool

def epollCtl (entry : Option Interest) (param : PollCtrlParam) : Option Interest :=
  match param.operation, entry with
  | .add, none => some ⟨param.events, true⟩
  | .add, some i => some i
  | .mod, none => none
  | .mod, some _ => some ⟨param.events, true⟩
  | .del, _ => none

structure Poller where
  isShutdown : Bool
  requests : Int → Option PollRequest
  ctrlParams : Int → Option PollCtrlParam
  interest : Int → Option Interest

namespace Poller

def init (pipeFd : Int) : Poller where
  isShutdown := false
  requests := update (fun _ => none) pipeFd (some ⟨pipeFd, epollIn, -1, true⟩)
  ctrlParams := update (fun _ => none) pipeFd (some ⟨.add, pipeFd, epollIn⟩)
  interest _ := none

def register (p : Poller) (req : PollRequest) : Bool × Poller :=
  if p.isShutdown then (false, p)
  else if req.fd < 0 || !req.hasCallback then (false, p)
  else
    let operation := if (p.requests req.fd).isNone then CtlOp.add else .mod
    (true, { p with
      requests := update p.requests req.fd (some req)
      ctrlParams := update p.ctrlParams req.fd (some ⟨operation, req.fd, req.events⟩) })

def unregister (p : Poller) (req : PollRequest) : Bool × Poller :=
  if p.isShutdown then (false, p)
  else if req.fd < 0 || !req.hasCallback then (false, p)
  else if (p.requests req.fd).isNone then (false, p)
  else
    (true, { p with
      requests := update p.requests req.fd none
      ctrlParams := update p.ctrlParams req.fd (some ⟨.del, req.fd, 0⟩) })

def handleChanges (p : Poller) : Poller :=
  { p with
    ctrlParams := fun _ => none
    interest := fun fd =>
      match p.ctrlParams fd with
      | none => p.interest fd
      | some param => epollCtl (p.interest fd) param }

end Poller

inductive PollerOp where
  | register (req : PollRequest)
  | unregister (req : PollRequest)
  | handleChanges

namespace Poller

variable (p : Poller)

def step : PollerOp → Poller
  | .register req => (p.register req).2
  | .unregister req => (p.unregister req).2
  | .handleChanges => p.handleChanges

def InSync : Prop :=
  ∀ fd, (p.interest fd).map (·.events) = (p.requests fd).map (·.events)

/-- **What a `HandleChanges` is to do.** -/
def Syncs : PollerOp → Prop
  | .handleChanges => p.handleChanges.InSync
  | _ => True

/-- The condition on a `HandleChanges`: a descriptor whose last change is an ADD is not in the
interest set, or is there with the events of the ADD; one whose last change is a MOD is in the
interest set. -/
def Composes : PollerOp → Prop
  | .handleChanges => ∀ fd param, p.ctrlParams fd = some param →
    (param.operation = .add → ∀ i, p.interest fd = some i → i.events = param.events) ∧
      (param.operation = .mod → (p.interest fd).isSome)
  | _ => True

end Poller

/-!
## `PollHandler` and the poller thread (`io/poll_handler.{h,cc}`, `io/poller.cc`)

A routine that calls `Block` registers a request for the handler's descriptor and yields in
`IO_WAIT`.
-/

open Croutine

/-! ## The handler -/

structure PollHandler where
  fd : Int
  isRead : Bool
  isBlocking : Bool
  request : PollRequest
  response : UInt32

namespace PollHandler

def new (fd : Int) : PollHandler := ⟨fd, false, false, ⟨-1, 0, -1, false⟩, 0⟩

def check (h : PollHandler) (timeoutMs : Int) : Bool := timeoutMs ≠ 0 && 0 ≤ h.fd

def fill (h : PollHandler) (timeoutMs : Int) (isRead : Bool) : PollHandler :=
  let events := epollEt ||| epollOneShot ||| (if isRead then epollIn else epollOut)
  { h with isRead, request := ⟨h.fd, events, timeoutMs, true⟩ }

def result (h : PollHandler) : Bool :=
  h.response &&& (if h.isRead then epollIn else epollOut) ≠ 0

end PollHandler

/-! ## The threads -/

/-- Where the routine is with `Block`: not in it, with the result of the last; past `Fill`, before
`Register`; before `set_state(IO_WAIT)` of `Yield`; before the swap; swapped out, or resumed after
that. -/
inductive BlockPc where
  | outside (result : Option Bool)
  | registering
  | registered
  | waiting
  | swapped
  deriving DecidableEq

/-- Where the poller thread is: before `HandleChanges`; before `epoll_wait`; past that, before it
counts timeouts down, with the event that was reported for the descriptor; with a response, before
its callback; in the callback, before `response_` is set, before it reads the routine's state, and
in `NotifyTask`. -/
inductive PollPc where
  | changes
  | waiting
  | timeouts (event : Option UInt32) (intervalMs : Int)
  | responding (events : UInt32)
  | filling (events : UInt32)
  | checking
  | notifying (pc : NotifyPc)
  deriving DecidableEq

namespace PollPc

def inCallback : PollPc → Bool
  | .filling _ | .checking | .notifying _ => true
  | .changes | .waiting | .timeouts _ _ | .responding _ => false

def delivers : PollPc → Bool
  | .timeouts (some _) _ | .responding _ | .filling _ | .checking => true
  | .notifying pc => pc ≠ .done
  | .changes | .waiting | .timeouts none _ => false

end PollPc

structure PollSys where
  handler : PollHandler
  routine : CRoutine
  pc : BlockPc
  poller : Poller
  pollPc : PollPc

inductive PollStep where
  | block (timeoutMs : Int) (isRead : Bool)
  | routine
  | processor
  | poll (event : Option UInt32) (intervalMs : Int)

def PollRequest.tick (req : PollRequest) (intervalMs : Int) : PollRequest × Bool :=
  let timeoutMs := if 0 < req.timeoutMs then max (req.timeoutMs - intervalMs) 0 else req.timeoutMs
  if timeoutMs = 0 then ({ req with timeoutMs := -1 }, true) else ({ req with timeoutMs }, false)

namespace Poller

def setRequest (p : Poller) (fd : Int) (req : PollRequest) : Poller :=
  { p with requests := update p.requests fd (some req) }

def disarm (p : Poller) (fd : Int) (events : UInt32) : Poller :=
  { p with interest := update p.interest fd (some ⟨events, false⟩) }

end Poller

namespace PollSys

def init (fd pipeFd : Int) : PollSys :=
  ⟨.new fd, .new, .outside none, .init pipeFd, .changes⟩

variable (s : PollSys)

def block (timeoutMs : Int) (isRead : Bool) : PollSys :=
  match s.pc with
  | .outside _ =>
    if s.routine.holder ≠ .running then s
    else if !s.handler.check timeoutMs then { s with pc := .outside (some false) }
    else if s.handler.isBlocking then { s with pc := .outside (some false) }
    else
      { s with
        handler := { s.handler with isBlocking := true }.fill timeoutMs isRead
        pc := .registering }
  | .registering | .registered | .waiting | .swapped => s

def runRoutine : PollSys :=
  if s.routine.holder ≠ .running then s
  else
    match s.pc with
    | .outside _ => s
    | .registering =>
      if s.pollPc.inCallback then s
      else
        match s.poller.register s.handler.request with
        | (true, poller) => { s with poller, pc := .registered }
        | (false, poller) =>
          { s with
            handler := { s.handler with isBlocking := false }
            poller
            pc := .outside (some false) }
    | .registered => { s with routine := s.routine.setState .ioWait, pc := .waiting }
    | .waiting => { s with routine := s.routine.swapOut, pc := .swapped }
    | .swapped =>
      { s with
        handler := { s.handler with isBlocking := false }
        pc := .outside (some s.handler.result) }

variable (event : Option UInt32)

def wait (intervalMs : Int) : PollSys :=
  let intervalMs := if intervalMs = 0 then 1 else intervalMs
  match s.poller.interest s.handler.fd, event with
  | some ⟨events, true⟩, some e =>
    { s with
      poller := s.poller.disarm s.handler.fd events
      pollPc := .timeouts (some e) intervalMs }
  | _, _ => { s with pollPc := .timeouts none intervalMs }

/-- The pass of `Poll` over the timeouts: a request with a change to be handled is left out, and an
event takes the place of a timeout. -/
def countDown (intervalMs : Int) : PollSys :=
  match s.poller.requests s.handler.fd, s.poller.ctrlParams s.handler.fd with
  | some req, none =>
    { s with
      poller := s.poller.setRequest s.handler.fd (req.tick intervalMs).1
      pollPc :=
        match event with
        | some e => .responding e
        | none => if (req.tick intervalMs).2 then .responding 0 else .changes }
  | _, _ =>
    { s with
      pollPc :=
        match event with
        | some e => .responding e
        | none => .changes }

/-- A response: the request's timeout is taken back and its callback is called, which returns if the
handler does not block. -/
def respond (events : UInt32) : PollSys :=
  match s.poller.requests s.handler.fd with
  | none => { s with pollPc := .changes }
  | some req =>
    { s with
      poller := s.poller.setRequest s.handler.fd { req with timeoutMs := -1 }
      pollPc := if s.handler.isBlocking then .filling events else .changes }

def poll (intervalMs : Int) : PollSys :=
  match s.pollPc with
  | .changes => { s with poller := s.poller.handleChanges, pollPc := .waiting }
  | .waiting => s.wait event intervalMs
  | .timeouts event intervalMs => s.countDown event intervalMs
  | .responding events => s.respond events
  | .filling events =>
    { s with handler := { s.handler with response := events }, pollPc := .checking }
  | .checking =>
    { s with pollPc := if s.routine.state = .ioWait then .notifying .readDataWait else .changes }
  | .notifying .done => { s with pollPc := .changes }
  | .notifying pc =>
    { s with
      routine := (notifyProcessor pc s.routine).2
      pollPc := .notifying (notifyProcessor pc s.routine).1 }

def step : PollStep → PollSys
  | .block timeoutMs isRead => s.block timeoutMs isRead
  | .routine => s.runRoutine
  | .processor => { s with routine := s.routine.processor }
  | .poll event intervalMs => s.poll event intervalMs

/-! ## What is to hold -/

def Registered : Prop :=
  s.poller.ctrlParams s.handler.fd ≠ none ∨
    (s.poller.interest s.handler.fd).any (·.armed) = true ∨
      (s.poller.requests s.handler.fd).any (0 ≤ ·.timeoutMs) = true
deriving Decidable

/-- **The lost wakeup**: the routine is parked in `IO_WAIT`, no update is pending, nothing is
registered for its request, and no response is being delivered. -/
def Stuck : Prop :=
  s.routine.Parked ∧ s.routine.state = .ioWait ∧ ¬ s.routine.Pending ∧ ¬ s.Registered ∧
    s.pollPc.delivers = false
deriving Decidable

/-- The condition on a step: the callback does not read the routine's state between the `Register`
of a `Block` and its `set_state(IO_WAIT)`. -/
def ChecksInTime : PollStep → Prop
  | .poll _ _ => s.pollPc = .checking → s.pc ≠ .registered
  | .block _ _ | .routine | .processor => True

instance (s : PollSys) : ∀ a : PollStep, Decidable (s.ChecksInTime a)
  | .poll _ _ => inferInstanceAs (Decidable (_ → _))
  | .block _ _ | .routine | .processor => isTrue trivial

end PollSys

end Io
