import Mathlib.Data.List.DropRight
import CyberRT.Transport.Hybrid
import CyberRT.Transport.MessageInfo

/-!
# The history of a `HybridTransmitter` (`transport/message/history.h`)

A writer with durability `TRANSIENT_LOCAL` keeps its last messages, and `Enable(peer)` hands a copy
of them to a task that sends them to the peer one by one, on a channel of their own.
-/

namespace Transport

inductive QosHistoryPolicy where
  | systemDefault | keepLast | keepAll
  deriving DecidableEq

inductive QosDurabilityPolicy where
  | systemDefault | transientLocal | volatile
  deriving DecidableEq

structure HistoryAttributes where
  historyPolicy : QosHistoryPolicy
  depth : Nat

structure CachedMessage (M I : Type*) where
  msg : M
  msgInfo : I
  deriving DecidableEq

abbrev CopiedMessage (M : Type*) := CachedMessage M CopiedInfo

structure History (α : Type*) where
  enabled : Bool
  depth : Nat
  maxDepth : Nat
  msgs : List α

variable {α M : Type*}

namespace History

/-- `History(attr)`, not yet enabled; `maxHistoryDepth`: what the configuration's resource limit
says, if it has one. -/
def init (maxHistoryDepth : Option Nat) (attr : HistoryAttributes) : History α :=
  let maxDepth := maxHistoryDepth.getD 1000
  let depth :=
    if attr.historyPolicy = .keepAll then maxDepth
    else if attr.depth > maxDepth then maxDepth
    else attr.depth
  ⟨false, depth, maxDepth, []⟩

def popFront (depth : Nat) : List α → List α
  | [] => []
  | m :: msgs => if (m :: msgs).length > depth then popFront depth msgs else m :: msgs

def add (h : History α) (m : α) : History α :=
  if !h.enabled then h else { h with msgs := popFront h.depth (h.msgs ++ [m]) }

end History

/-! ## The copies -/

namespace CachedMessage

def copy (stale : UInt64) (another : CachedMessage M MessageInfo) : CachedMessage M MessageInfo :=
  { another with msgInfo := another.msgInfo.copy stale }

def copied (m : CachedMessage M MessageInfo) : CopiedMessage M := ⟨m.msg, m.msgInfo.copied⟩

end CachedMessage

namespace History

def addCopy (h : History (CachedMessage M MessageInfo)) (stale : UInt64)
    (m : CachedMessage M MessageInfo) : History (CachedMessage M MessageInfo) :=
  h.add (m.copy stale)

/-- `GetCachedMessage(msgs)` into an empty vector: `insert` copies each message, the `i`-th to where
the memory of its send time holds `stale i`. -/
def getCachedMessage (stale : Nat → UInt64) (h : History (CachedMessage M MessageInfo)) :
    List (CachedMessage M MessageInfo) :=
  h.msgs.mapIdx fun i m => m.copy (stale i)

end History

structure HistoryTransmitter (M : Type*) where
  base : HybridTransmitter
  durability : QosDurabilityPolicy
  history : History (CopiedMessage M)

namespace HistoryTransmitter

def init (base : HybridTransmitter) (durability : QosDurabilityPolicy)
    (maxHistoryDepth : Option Nat) (attr : HistoryAttributes) : HistoryTransmitter M :=
  ⟨base, durability,
    { History.init maxHistoryDepth attr with enabled := durability = .transientLocal }⟩

variable (t : HistoryTransmitter M)

def transmitHistoryMsg : Option (List (CopiedMessage M)) :=
  if t.durability ≠ .transientLocal then none
  else if t.history.msgs.isEmpty then none
  else some t.history.msgs

def enable (t : HistoryTransmitter M) (opposite : RoleAttributes) (created : Bool) :
    HistoryTransmitter M × Option (List (CopiedMessage M)) :=
  if t.base.getRelation opposite = .noRelation then (t, none)
  else
    let t := { t with base := t.base.enable opposite created }
    (t, t.transmitHistoryMsg)

def disable (t : HistoryTransmitter M) (opposite : RoleAttributes) : HistoryTransmitter M :=
  { t with base := t.base.disable opposite }

def transmit (m : CopiedMessage M) : HistoryTransmitter M × (OptionalMode → Bool) :=
  ({ t with history := t.history.add m }, fun mode => (t.base.transmitters mode).enabled)

def modeOf (opposite : RoleAttributes) : OptionalMode :=
  t.base.mappingTable (t.base.getRelation opposite)

end HistoryTransmitter

/-! ## What the peers are sent -/

structure Join (M : Type*) where
  mode : OptionalMode
  id : UInt64
  since : Nat
  gone : Option Nat
  tasks : List (List (CopiedMessage M))
  replayed : List (CopiedMessage M)
  live : List (CopiedMessage M)

namespace Join

variable (mode : OptionalMode)

def Current (id : UInt64) (j : Join M) : Prop :=
  j.gone = none ∧ j.mode = mode ∧ j.id = id
deriving Decidable

def start (id : UInt64) (task : List (CopiedMessage M)) (j : Join M) : Join M :=
  if j.Current mode id then { j with tasks := j.tasks ++ [task] } else j

def leave (id : UInt64) (n : Nat) (j : Join M) : Join M :=
  if j.Current mode id then { j with gone := some n } else j

def receive (modes : OptionalMode → Bool) (m : CopiedMessage M) (j : Join M) : Join M :=
  if j.gone = none ∧ modes j.mode = true then { j with live := j.live ++ [m] } else j

def send (task : Nat) (j : Join M) : Join M :=
  match j.tasks[task]? with
  | some (m :: rest) => { j with tasks := j.tasks.set task rest, replayed := j.replayed ++ [m] }
  | _ => j

/-- What the join is to be sent: by the tasks the last `depth` of the messages from before it, once
and in order; by the live path the messages from then on, and nothing else by either. -/
def SentRight (depth : Nat) (transmitted : List (CopiedMessage M)) (j : Join M) : Prop :=
  j.replayed ++ j.tasks.flatten = (transmitted.take j.since).rtake depth ∧
    j.live = (transmitted.take (j.gone.getD transmitted.length)).drop j.since

instance [DecidableEq M] (depth : Nat) (transmitted : List (CopiedMessage M)) (j : Join M) :
    Decidable (j.SentRight depth transmitted) :=
  inferInstanceAs (Decidable (_ ∧ _))

end Join

structure ReplaySystem (M : Type*) where
  transmitter : HistoryTransmitter M
  transmitted : List (CopiedMessage M)
  joins : List (Join M)

/-- The calls, and the rounds of the tasks. `created` is the environment's answer to the mode's
transmitter; `served`: `Async` takes the task on, and the task's own transmitter is enabled. -/
inductive ReplayEvent (M : Type*) where
  | enable (opposite : RoleAttributes) (created served : Bool)
  | disable (opposite : RoleAttributes)
  | transmit (m : CopiedMessage M)
  | send (join task : Nat)

namespace ReplaySystem

def init (t : HistoryTransmitter M) : ReplaySystem M := ⟨t, [], []⟩

variable (s : ReplaySystem M)

def joined (mode : OptionalMode) (id : UInt64) : List (Join M) :=
  if id ∈ s.transmitter.base.receivers mode then s.joins
  else s.joins ++ [⟨mode, id, s.transmitted.length, none, [], [], []⟩]

def enable (s : ReplaySystem M) (opposite : RoleAttributes) (created served : Bool) :
    ReplaySystem M :=
  if s.transmitter.base.getRelation opposite = .noRelation then s
  else
    let mode := s.transmitter.modeOf opposite
    let result := s.transmitter.enable opposite created
    let joins := s.joined mode opposite.id
    { s with
      transmitter := result.1
      joins :=
        match result.2 with
        | some task => if served then joins.map (Join.start mode opposite.id task) else joins
        | none => joins }

def disable (s : ReplaySystem M) (opposite : RoleAttributes) : ReplaySystem M :=
  if s.transmitter.base.getRelation opposite = .noRelation then s
  else
    { s with
      transmitter := s.transmitter.disable opposite
      joins := s.joins.map
        (Join.leave (s.transmitter.modeOf opposite) opposite.id s.transmitted.length) }

def transmit (s : ReplaySystem M) (m : CopiedMessage M) : ReplaySystem M :=
  let result := s.transmitter.transmit m
  { s with
    transmitter := result.1
    transmitted := s.transmitted ++ [m]
    joins := s.joins.map (Join.receive result.2 m) }

def step : ReplayEvent M → ReplaySystem M
  | .enable opposite created served => s.enable opposite created served
  | .disable opposite => s.disable opposite
  | .transmit m => s.transmit m
  | .send join task => { s with joins := s.joins.modify join (Join.send task) }

/-- **Every join is sent what it is to be sent.** -/
def SentRight (s : ReplaySystem M) : Prop :=
  ∀ j ∈ s.joins, j.SentRight s.transmitter.history.depth s.transmitted

instance [DecidableEq M] (s : ReplaySystem M) : Decidable s.SentRight :=
  inferInstanceAs (Decidable (∀ j ∈ s.joins, j.SentRight _ _))

def Idle : Prop := ∀ j ∈ s.joins, j.tasks.flatten = []

end ReplaySystem

end Transport
