import CyberRT.Common.GlobalData
import CyberRT.Croutine.CRoutine

/-!
# Creating and removing tasks (`scheduler/scheduler.cc`, `scheduler/policy`)

`CreateTask(name)` makes a routine with the id that `RegisterTaskName` gives to the name and
dispatches it: the routine is entered in `id_cr_` and in a queue, that of a group and a priority or
that of a processor's context.
-/

namespace Scheduler

open Common Function Lib

structure CRoutine where
  id : UInt64
  name : String
  priority : UInt32
  processorId : Int32
  groupName : String
  forceStop : Bool
  deriving DecidableEq, Inhabited

def maxPrio : UInt32 := 20

def defaultGroupName : String := "default_grp"

/-- A queue: of a group and a priority (`ClassicContext::cr_group_`), or of a processor's context
(`ChoreographyContext::cr_queue_`). -/
inductive Queue where
  | group (name : String) (prio : UInt32)
  | context (pid : UInt32)
  deriving DecidableEq

structure ClassicTask where
  prio : UInt32
  groupName : String

structure ChoreographyTask where
  processor : Option Int32
  prio : UInt32

/-- The configuration of a policy: `cr_confs_`, with the name of the first group (classic) or
`proc_num_` (choreography). -/
inductive Policy where
  | classic (crConfs : String → Option ClassicTask) (firstGroup : String)
  | choreography (crConfs : String → Option ChoreographyTask) (procNum : UInt32)

namespace CRoutine

def capPriority (cr : CRoutine) : CRoutine :=
  if cr.priority ≥ maxPrio then { cr with priority := maxPrio - 1 } else cr

def assignClassic (crConfs : String → Option ClassicTask) (firstGroup : String) (cr : CRoutine) :
    CRoutine :=
  let cr :=
    match crConfs cr.name with
    | some task => { cr with priority := task.prio, groupName := task.groupName }
    | none => { cr with groupName := firstGroup }
  cr.capPriority

def pid (cr : CRoutine) : UInt32 := cr.processorId.toUInt32

def assignChoreography (crConfs : String → Option ChoreographyTask) (procNum : UInt32)
    (cr : CRoutine) : CRoutine :=
  let cr :=
    match crConfs cr.name with
    | some task =>
      { cr with priority := task.prio, processorId := task.processor.getD cr.processorId }
    | none => cr
  if cr.pid < procNum then cr else { cr.capPriority with groupName := defaultGroupName }

end CRoutine

namespace Policy

def assign : Policy → CRoutine → CRoutine
  | .classic crConfs firstGroup => CRoutine.assignClassic crConfs firstGroup
  | .choreography crConfs procNum => CRoutine.assignChoreography crConfs procNum

def queueOf : Policy → CRoutine → Queue
  | .classic _ _, cr => .group cr.groupName cr.priority
  | .choreography _ procNum, cr =>
    if cr.pid < procNum then .context cr.pid else .group cr.groupName cr.priority

end Policy

structure State where
  global : GlobalData
  created : Nat
  routines : Nat → CRoutine
  idCr : UInt64 → Option Nat
  queues : Queue → List Nat

inductive Event where
  | createTask (name : String)
  | removeTask (name : String)

namespace State

variable (hash : String → UInt64) (policy : Policy)

def init : State := ⟨.init, 0, fun _ => default, fun _ => none, fun _ => []⟩

variable (s : State) (cr : Nat)

def stop : State :=
  { s with routines := update s.routines cr { s.routines cr with forceStop := true } }

def enqueue : Queue → List Nat → List Nat
  | .group _ _, crs => crs ++ [cr]
  | .context _, crs =>
    let before := fun i => (s.routines cr).priority ≤ (s.routines i).priority
    crs.takeWhile before ++ cr :: crs.dropWhile before

def dispatchTask : State :=
  let assigned := policy.assign (s.routines cr)
  let s := { s with routines := update s.routines cr assigned }
  match s.idCr assigned.id with
  | some _ => s
  | none =>
    let q := policy.queueOf assigned
    { s with
      idCr := update s.idCr assigned.id (some cr)
      queues := update s.queues q (s.enqueue cr q (s.queues q)) }

def createTask (name : String) : State :=
  match s.global.registerTaskName hash name with
  | none => s
  | some (g, taskId) =>
    let cr := s.created
    let s := { s with
      global := g
      created := cr + 1
      routines := update s.routines cr ⟨taskId, name, 0, -1, "", false⟩ }
    s.dispatchTask policy cr

def removeFromQueue (q : Queue) (crid : UInt64) : State :=
  match (s.queues q).find? fun i => (s.routines i).id = crid with
  | some cr =>
    let s := s.stop cr
    { s with queues := update s.queues q ((s.queues q).erase cr) }
  | none => s

def removeCRoutine (crid : UInt64) : State :=
  match s.idCr crid with
  | some cr =>
    let s := s.stop cr
    let s := { s with idCr := update s.idCr crid none }
    s.removeFromQueue (policy.queueOf (s.routines cr)) crid
  | none => s

def removeTask (name : String) : State :=
  s.removeCRoutine policy (GlobalData.generateHashId hash name)

def step : Event → State
  | .createTask name => s.createTask hash policy name
  | .removeTask name => s.removeTask hash policy name

structure Active (s : State) (cr : Nat) : Prop where
  byId : s.idCr (s.routines cr).id = some cr
  queued : cr ∈ s.queues (policy.queueOf (s.routines cr))
  running : (s.routines cr).forceStop = false

def Removed : Prop :=
  (∀ id, s.idCr id ≠ some cr) ∧ ∀ q, cr ∉ s.queues q

/-- **`RemoveTask` removes the routine of its name and no other.** -/
def RemovesOwn : Event → Prop
  | .createTask _ => True
  | .removeTask name => ∀ cr, s.Active policy cr →
      if (s.routines cr).name = name then (s.removeTask hash policy name).Removed cr
      else (s.removeTask hash policy name).Active policy cr

end State

/-! ## The next routine (`scheduler/policy/*_context.cc`) -/

structure Routine where
  state : Croutine.RoutineState
  wakeTime : Nat
  updated : Bool
  lock : Bool

def Routine.updateState (now : Nat) (r : Routine) : Routine :=
  if r.state = .sleep ∧ r.wakeTime < now then { r with state := .ready }
  else
    { r with
      updated := true
      state := if !r.updated && r.state.waits then .ready else r.state }

inductive Context where
  | classic (group : String)
  | choreography (pid : UInt32)

namespace State

/-- `now cr`: the time at which the routine `cr` is looked at. -/
def scan (now : Nat → Nat) (rs : Nat → Routine) : List Nat → Option Nat × (Nat → Routine)
  | [] => (none, rs)
  | cr :: crs =>
    if (rs cr).lock then scan now rs crs
    else
      let r := { rs cr with lock := true }.updateState (now cr)
      if r.state = .ready then (some cr, update rs cr r)
      else scan now (update rs cr { r with lock := false }) crs

def queued (s : State) : Context → List Nat
  | .classic group =>
    (List.range maxPrio.toNat).reverse.flatMap fun i => s.queues (.group group (.ofNat i))
  | .choreography pid => s.queues (.context pid)

def nextRoutine (s : State) (c : Context) (stop : Bool) (now : Nat → Nat) (rs : Nat → Routine) :
    Option Nat × (Nat → Routine) :=
  if stop then (none, rs) else scan now rs (s.queued c)

end State

end Scheduler
