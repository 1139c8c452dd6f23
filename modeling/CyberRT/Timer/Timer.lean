import Mathlib.Algebra.Order.Ring.Int
import Mathlib.Data.List.Basic
import Mathlib.Data.List.Count

/-!
# The timing wheel

`cyber/timer/timing_wheel.{h,cc}`: a work wheel of 512 buckets, one per tick, and an assistant wheel
of 64 buckets, one per turn of the work wheel.
-/

namespace Timer

open Function

def workWheelSize : Nat := 512
def assistantWheelSize : Nat := 64
def timerResolutionMs : Nat := 2
def timerMaxIntervalMs : Nat := workWheelSize * assistantWheelSize * timerResolutionMs

def getWorkWheelIndex (index : Nat) : Nat := index &&& (workWheelSize - 1)
def getAssistantWheelIndex (index : Nat) : Nat := index &&& (assistantWheelSize - 1)

def ceilTicks (ms : Nat) : Nat := (ms + timerResolutionMs - 1) / timerResolutionMs

structure TimerTask where
  nextFireDurationMs : Nat
  remainderIntervalMs : Nat
  alive : Bool

structure TimingWheel (ι : Type) where
  running : Bool
  workWheel : Nat → List ι
  assistantWheel : Nat → List ι
  currentWorkWheelIndex : Nat
  currentAssistantWheelIndex : Nat
  task : ι → TimerTask

namespace TimingWheel

variable {ι : Type} (w : TimingWheel ι)

def addToWork (index : Nat) (i : ι) : TimingWheel ι :=
  { w with workWheel := update w.workWheel index (w.workWheel index ++ [i]) }

def addToAssistant (index : Nat) (i : ι) : TimingWheel ι :=
  { w with assistantWheel := update w.assistantWheel index (w.assistantWheel index ++ [i]) }

def tick : List ι × TimingWheel ι :=
  let bucket := w.workWheel w.currentWorkWheelIndex
  (bucket.filter fun i => (w.task i).alive,
    { w with workWheel := update w.workWheel w.currentWorkWheelIndex [] })

def advance : TimingWheel ι :=
  { w with currentWorkWheelIndex := getWorkWheelIndex (w.currentWorkWheelIndex + 1) }

def advanceAssistant : TimingWheel ι :=
  { w with currentAssistantWheelIndex := getAssistantWheelIndex (w.currentAssistantWheelIndex + 1) }

def cascadeTask (i : ι) : TimingWheel ι :=
  if (w.task i).alive then w.addToWork (w.task i).remainderIntervalMs i else w

def cascade (assistantWheelIndex : Nat) : TimingWheel ι :=
  let w' := (w.assistantWheel assistantWheelIndex).foldl cascadeTask w
  { w' with assistantWheel := update w'.assistantWheel assistantWheelIndex [] }

end TimingWheel

inductive CallPc where
  | idle
  | given (currentWorkWheelIndex : Nat)
  | work (index : Nat)
  | assistant (assistantTicks : Nat)
  deriving DecidableEq

namespace TimingWheel

variable {ι : Type} [DecidableEq ι]

/-- `AddTask` from its entry to the insertion: it starts the wheel if need be, notes the place in
the work wheel in the task, and chooses a wheel, with a look at the index as it is now. -/
def choose (w : TimingWheel ι) (i : ι) (currentWorkWheelIndex : Nat) : CallPc × TimingWheel ι :=
  let w := { w with running := true }
  let workWheelIndex := currentWorkWheelIndex + ceilTicks (w.task i).nextFireDurationMs
  if workWheelIndex ≥ workWheelSize then
    let realWorkWheelIndex := getWorkWheelIndex workWheelIndex
    let w := { w with
      task := update w.task i { w.task i with remainderIntervalMs := realWorkWheelIndex } }
    let assistantTicks := workWheelIndex / workWheelSize
    if assistantTicks = 1 ∧ realWorkWheelIndex < w.currentWorkWheelIndex then
      (.work realWorkWheelIndex, w)
    else (.assistant assistantTicks, w)
  else (.work workWheelIndex, w)

def insert (w : TimingWheel ι) (i : ι) : CallPc → TimingWheel ι
  | .work index => w.addToWork index i
  | .assistant ticks =>
    w.addToAssistant (getAssistantWheelIndex (w.currentAssistantWheelIndex + ticks)) i
  | _ => w

end TimingWheel

inductive LoopPc where
  | tick
  | advance
  | assistant
  | cascade
  deriving DecidableEq

structure WheelSys (ι : Type) where
  wheel : TimingWheel ι
  loop : LoopPc
  call : ι → CallPc
  fired : List (List ι)

inductive WheelOp (ι : Type) where
  | loop
  | call (i : ι) (ms : Nat)
  | choose (i : ι)
  | insert (i : ι)
  | drop (i : ι)
  deriving DecidableEq

namespace WheelSys

variable {ι : Type} [DecidableEq ι]

def init : WheelSys ι where
  wheel :=
    { running := false, workWheel := fun _ => [], assistantWheel := fun _ => [],
      currentWorkWheelIndex := 0, currentAssistantWheelIndex := 0,
      task := fun _ => { nextFireDurationMs := 0, remainderIntervalMs := 0, alive := true } }
  loop := .tick
  call := fun _ => .idle
  fired := []

def loopStep (s : WheelSys ι) : WheelSys ι :=
  if s.wheel.running then
    match s.loop with
    | .tick =>
      { s with wheel := s.wheel.tick.2, fired := s.fired ++ [s.wheel.tick.1], loop := .advance }
    | .advance =>
      { s with
        wheel := s.wheel.advance
        loop := if s.wheel.advance.currentWorkWheelIndex = 0 then .assistant else .tick }
    | .assistant => { s with wheel := s.wheel.advanceAssistant, loop := .cascade }
    | .cascade =>
      { s with wheel := s.wheel.cascade s.wheel.currentAssistantWheelIndex, loop := .tick }
  else s

def callStep (s : WheelSys ι) (i : ι) (ms : Nat) : WheelSys ι :=
  if s.call i = .idle then
    { s with
      wheel := { s.wheel with
        task := update s.wheel.task i { s.wheel.task i with nextFireDurationMs := ms } }
      call := update s.call i (.given s.wheel.currentWorkWheelIndex) }
  else s

def chooseStep (s : WheelSys ι) (i : ι) : WheelSys ι :=
  match s.call i with
  | .given index =>
    { s with
      wheel := (s.wheel.choose i index).2
      call := update s.call i (s.wheel.choose i index).1 }
  | _ => s

def insertStep (s : WheelSys ι) (i : ι) : WheelSys ι :=
  match s.call i with
  | .idle => s
  | .given _ => s
  | pc =>
    { s with wheel := s.wheel.insert i pc, call := update s.call i .idle }

def dropStep (s : WheelSys ι) (i : ι) : WheelSys ι :=
  { s with
    wheel := { s.wheel with
      task := update s.wheel.task i { s.wheel.task i with alive := false } } }

def step (s : WheelSys ι) : WheelOp ι → WheelSys ι
  | .loop => s.loopStep
  | .call i ms => s.callStep i ms
  | .choose i => s.chooseStep i
  | .insert i => s.insertStep i
  | .drop i => s.dropStep i

def addTask (s : WheelSys ι) (i : ι) (ms : Nat) : WheelSys ι :=
  [.call i ms, .choose i, .insert i].foldl step s

end WheelSys

/-!
## What a timing wheel is for

A task that is added fires once, at the `Tick` that its duration says (`FiresAt`), and it makes no
difference of more than a tick whether the loop goes on during the call of `AddTask`
(`FiresNearby`).
-/

variable {ι : Type}

def WheelOp.task? : WheelOp ι → Option ι
  | .loop => none
  | .call i _ | .choose i | .insert i | .drop i => some i

namespace WheelSys

def position (s : WheelSys ι) : Nat :=
  if s.loop = .advance then s.fired.length - 1 else s.fired.length

def nthTick (s : WheelSys ι) (k : Nat) : Nat := s.fired.length + (k - 1)

structure Ready (s : WheelSys ι) (i : ι) : Prop where
  idle : s.call i = .idle
  alive : (s.wheel.task i).alive = true
  work : ∀ b, i ∉ s.wheel.workWheel b
  assistant : ∀ b, i ∉ s.wheel.assistantWheel b

def settle (s : WheelSys ι) : WheelSys ι :=
  match s.loop with
  | .assistant => s.loopStep.loopStep
  | .cascade => s.loopStep
  | _ => s

variable [DecidableEq ι]

def Apart (i : ι) (ops : List (WheelOp ι)) : Prop := ∀ op ∈ ops, op.task? ≠ some i

instance (i : ι) (ops : List (WheelOp ι)) : Decidable (Apart i ops) :=
  inferInstanceAs (Decidable (∀ op ∈ ops, _))

/-- **Task `i` fires at `Tick` number `n`**: however the run goes on, with calls for other tasks
at any point, `Tick` number `n` hands its callback to `Async` once, and no other `Tick` does; and
`Tick` number `n` comes after at most four steps of the loop for each `Tick` up to it. -/
structure FiresAt (s : WheelSys ι) (i : ι) (n : Nat) : Prop where
  once : ∀ later, Apart i later → ∀ k, s.fired.length ≤ k →
    ∀ tasks, (later.foldl step s).fired[k]? = some tasks → tasks.count i = if k = n then 1 else 0
  comes : ∀ later : List (WheelOp ι), n < s.fired.length + later.count .loop / 4 →
    n < (later.foldl step s).fired.length

/-- A call of `AddTask` for task `i`, to fire in `ms`: it is given the current index in `s₀`, looks
at the index again in `s₁` and inserts the task in `s₂`, and the loop has come at most one position
on by then. -/
structure Interleaving (s₀ s₁ s₂ : WheelSys ι) (i : ι) (ms : Nat) : Prop where
  reached : ∃ ops : List (WheelOp ι), s₀ = ops.foldl step init
  ready : s₀.Ready i
  pos : 0 < ms
  admitted : ms < timerMaxIntervalMs
  given : ∃ mid, Apart i mid ∧ s₁ = mid.foldl step (s₀.step (.call i ms))
  chosen : ∃ mid, Apart i mid ∧ s₂ = mid.foldl step (s₁.step (.choose i))
  one : s₂.position ≤ s₀.position + 1

/-- The task fires within a tick of the time at which it fires if `AddTask` is not interrupted and
does not interrupt the end of a turn. -/
def FiresNearby (s₀ s₂ : WheelSys ι) (i : ι) (ms : Nat) : Prop :=
  ∃ n₀ n, (s₀.settle.addTask i ms).FiresAt i n₀ ∧ (s₂.step (.insert i)).FiresAt i n ∧
    n ≤ n₀ + 1 ∧ n₀ ≤ n + 1

/-- `AddTask` puts the task into the assistant wheel: it was given `index`, the task is to fire in
`ticks`, and the index is `current` when it looks again. -/
def ToAssistant (index ticks current : Nat) : Prop :=
  512 ≤ index + ticks ∧ ¬ ((index + ticks) / 512 = 1 ∧ (index + ticks) % 512 < current)
deriving Decidable

/-- **When a call of `AddTask` comes in time.** In the work wheel, the `Tick` that the task is to be
fired by has not been run yet. -/
def InTime (s₀ s₁ s₂ : WheelSys ι) (ticks : Nat) : Prop :=
  if ToAssistant s₀.wheel.currentWorkWheelIndex ticks s₁.wheel.currentWorkWheelIndex then
    s₂.wheel.currentAssistantWheelIndex = s₀.position / 512 % 64 ∧
      ¬ (s₂.loop = .cascade ∧ ticks = 512 * 64)
  else s₂.fired.length ≤ s₀.position + ticks

end WheelSys

/-!
## A timer, its tasks and its callbacks

`cyber/timer/timer.{h,cc}` over the timing wheel.
-/

inductive OwnerPc where
  | idle
  | adding (task : Nat)
  | stopping (task : Nat)
  | reset (task : Nat)
  deriving DecidableEq

def OwnerPc.resets : OwnerPc → Option Nat
  | .reset task => some task
  | _ => none

inductive TickPc where
  | idle
  | locked (task : Nat)
  | handed (task : Nat)
  deriving DecidableEq

inductive JobPc where
  | scheduled
  | entered
  | locked
  | inside
  | finished
  | unlocked
  | done
  deriving DecidableEq

structure Job where
  task : Nat
  pc : JobPc

namespace JobPc

def executing : JobPc → Bool
  | .scheduled | .done => false
  | _ => true

def owns : JobPc → Bool
  | .locked | .inside | .finished | .unlocked => true
  | _ => false

def hasMutex : JobPc → Bool
  | .inside | .finished => true
  | _ => false

end JobPc

structure TimerSys where
  started : Bool
  task : Option Nat
  oneshot : List Bool
  owner : OwnerPc
  wheel : List Nat
  tick : TickPc
  jobs : List Job
  stopped : List Nat
  late : Bool

inductive TimerOp where
  | start (period : Nat) (oneshot : Bool)
  | add
  | stop
  | reset
  | ret
  | tickLock (task : Nat)
  | tickAsync
  | tickRelease
  | job (n : Nat)

namespace TimerSys

def init : TimerSys :=
  { started := false, task := none, oneshot := [], owner := .idle, wheel := [], tick := .idle,
    jobs := [], stopped := [], late := false }

variable (s : TimerSys)

def alive (g : Nat) : Bool :=
  s.task == some g || s.owner == .stopping g || s.owner == .reset g || s.tick == .locked g ||
    s.tick == .handed g || s.jobs.any fun j => j.task == g && j.pc.owns

def mutexHeld (g : Nat) : Bool :=
  s.jobs.any fun j => j.task == g && j.pc.hasMutex

def initTimerTask (period : Nat) (oneshot : Bool) : TimerSys :=
  if period = 0 ∨ period ≥ timerMaxIntervalMs then s
  else
    { s with
      task := some s.oneshot.length
      oneshot := s.oneshot ++ [oneshot]
      owner := .adding s.oneshot.length }

def startStep (period : Nat) (oneshot : Bool) : TimerSys :=
  match s.owner with
  | .idle =>
    if s.started then s else { s with started := true }.initTimerTask period oneshot
  | _ => s

def addStep : TimerSys :=
  match s.owner with
  | .adding g => { s with owner := .idle, wheel := s.wheel ++ [g] }
  | _ => s

def stopStep : TimerSys :=
  match s.owner with
  | .idle =>
    match s.started, s.task with
    | true, some g => { s with started := false, owner := .stopping g }
    | _, _ => { s with started := false }
  | _ => s

def resetStep : TimerSys :=
  match s.owner with
  | .stopping g => if s.mutexHeld g then s else { s with task := none, owner := .reset g }
  | _ => s

def retStep : TimerSys :=
  match s.owner with
  | .reset g => { s with owner := .idle, stopped := s.stopped ++ [g] }
  | _ => s

def tickLockStep (g : Nat) : TimerSys :=
  match s.tick with
  | .idle =>
    if g ∈ s.wheel then
      { s with wheel := s.wheel.erase g, tick := if s.alive g then .locked g else .idle }
    else s
  | _ => s

def tickAsyncStep : TimerSys :=
  match s.tick with
  | .locked g => { s with tick := .handed g, jobs := s.jobs ++ [⟨g, .scheduled⟩] }
  | _ => s

def tickReleaseStep : TimerSys :=
  match s.tick with
  | .handed _ => { s with tick := .idle }
  | _ => s

def setJob (n : Nat) (g : Nat) (pc : JobPc) : TimerSys :=
  { s with jobs := s.jobs.set n ⟨g, pc⟩ }

def jobStep (n : Nat) : TimerSys :=
  match s.jobs[n]? with
  | none => s
  | some ⟨g, pc⟩ =>
    match pc with
    -- `(*callback)()`
    | .scheduled => s.setJob n g .entered
    -- `task_weak_ptr.lock()`
    | .entered => s.setJob n g (if s.alive g then .locked else .done)
    -- `std::lock_guard<std::mutex> lg(task->mutex); callback();`
    | .locked =>
      if s.mutexHeld g then s
      else { s.setJob n g .inside with late := s.late || s.stopped.contains g }
    -- `AddTask(task)` if the timer is periodic
    | .inside =>
      { s.setJob n g .finished with
        wheel := if s.oneshot.getD g true then s.wheel else s.wheel ++ [g] }
    | .finished => s.setJob n g .unlocked
    | .unlocked => s.setJob n g .done
    | .done => s

def step : TimerOp → TimerSys
  | .start period oneshot => s.startStep period oneshot
  | .add => s.addStep
  | .stop => s.stopStep
  | .reset => s.resetStep
  | .ret => s.retStep
  | .tickLock g => s.tickLockStep g
  | .tickAsync => s.tickAsyncStep
  | .tickRelease => s.tickReleaseStep
  | .job n => s.jobStep n

/-- **A callback is executed only while its task is alive, and none is started for a task that was
stopped.** -/
structure Safe (s : TimerSys) : Prop where
  alive : ∀ j ∈ s.jobs, j.pc.executing = true → s.alive j.task = true
  onTime : s.late = false

instance (s : TimerSys) : Decidable s.Safe :=
  decidable_of_iff ((∀ j ∈ s.jobs, j.pc.executing = true → s.alive j.task = true) ∧ s.late = false)
    ⟨fun h => ⟨h.1, h.2⟩, fun h => ⟨h.1, h.2⟩⟩

def Quiet (g : Nat) : Prop :=
  (∀ j ∈ s.jobs, j.task = g → j.pc = .done) ∧ s.tick ≠ .locked g ∧ s.tick ≠ .handed g
deriving Decidable

def StopsQuiet : TimerOp → Prop
  | .ret => ∀ g ∈ s.owner.resets, s.Quiet g
  | _ => True

instance (s : TimerSys) (op : TimerOp) : Decidable (s.StopsQuiet op) := by
  unfold StopsQuiet
  split <;> infer_instance

end TimerSys

/-! ## Periodic timers -/

/-- A period that `InitTimerTask` accepts. -/
structure Period where
  ms : Nat
  pos : 0 < ms
  lt : ms < timerMaxIntervalMs

/-- The arithmetic is that of `uint64_t`; only the comparison is made on `int64_t`. -/
def nextFireDurationMs (intervalMs executeTimeMs : Nat) (accumulatedErrorMs : Int) : Nat :=
  if executeTimeMs ≥ intervalMs then timerResolutionMs
  else if accumulatedErrorMs ≤ Int.bmod (intervalMs - executeTimeMs - timerResolutionMs) (2 ^ 64)
    then
    ((intervalMs - executeTimeMs - accumulatedErrorMs : Int) % 2 ^ 64).toNat
  else timerResolutionMs

/-- What comes next: the callback takes `executeTimeMs`, and the next one begins `lateMs` after the
earliest moment, one tick before it is due. -/
structure Firing where
  executeTimeMs : Nat
  lateMs : Nat

namespace Period

variable (p : Period)

/-- The accumulated error at the next callback: what lies between the two beginnings, without the
interval. -/
def step (error : Int) (f : Firing) : Int :=
  error + (f.executeTimeMs + nextFireDurationMs p.ms f.executeTimeMs error +
    (f.lateMs - timerResolutionMs : Int) - p.ms)

/-- **A duration for the wheel.** -/
def Representable (error : Int) (f : Firing) : Prop :=
  timerResolutionMs ≤ nextFireDurationMs p.ms f.executeTimeMs error ∧
    nextFireDurationMs p.ms f.executeTimeMs error < timerMaxIntervalMs

def NotTooLong (error : Int) (f : Firing) : Prop :=
  f.executeTimeMs < p.ms → (p.ms - f.executeTimeMs - error : Int) < timerMaxIntervalMs

end Period

end Timer
