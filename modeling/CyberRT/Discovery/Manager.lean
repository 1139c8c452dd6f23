import Mathlib.Data.List.AList
import CyberRT.Lib.Run

/-!
# Roles (`service_discovery/role/role.cc`, `proto/role_attributes.proto`)

Nodes, writers, readers, servers and clients are roles: attributes, and the time at which they
joined.
-/

namespace Discovery

structure RoleAttributes where
  hostName : Option String := none
  processId : Option Int32 := none
  nodeName : Option String := none
  nodeId : Option UInt64 := none
  channelName : Option String := none
  channelId : Option UInt64 := none
  messageType : Option String := none
  protoDesc : Option String := none
  id : Option UInt64 := none
  serviceName : Option String := none
  serviceId : Option UInt64 := none
  deriving DecidableEq

namespace RoleAttributes

variable (attr : RoleAttributes)

def getHostName : String := attr.hostName.getD ""

def getProcessId : Int32 := attr.processId.getD 0

def getNodeName : String := attr.nodeName.getD ""

def getNodeId : UInt64 := attr.nodeId.getD 0

def getChannelName : String := attr.channelName.getD ""

def getChannelId : UInt64 := attr.channelId.getD 0

def getMessageType : String := attr.messageType.getD ""

def getProtoDesc : String := attr.protoDesc.getD ""

def getId : UInt64 := attr.id.getD 0

def getServiceId : UInt64 := attr.serviceId.getD 0

end RoleAttributes

inductive RoleType
  | node
  | writer
  | reader
  | server
  | client
  | participant
  deriving DecidableEq

inductive OperateType
  | join
  | leave
  deriving DecidableEq

structure ChangeMsg where
  timestamp : UInt64
  operateType : OperateType
  roleType : RoleType
  roleAttr : RoleAttributes

/-- The classes of roles. A `RoleNode` is a `RoleBase`, a `RoleReader` a `RoleWriter`, and a
`RoleClient` a `RoleServer`. -/
inductive RoleClass
  | base
  | writer
  | server
  deriving DecidableEq

structure Role where
  cls : RoleClass
  attributes : RoleAttributes
  timestampNs : UInt64 := 0
  deriving DecidableEq

namespace Role

def agrees {α : Type} [DecidableEq α] (target : Option α) (own : α) : Bool :=
  target.all fun x => x = own

theorem agrees_getD {α : Type} [DecidableEq α] (x : Option α) (d : α) :
    agrees x (x.getD d) = true := by
  cases x <;> simp [agrees]

def matchBase (r : Role) (target : RoleAttributes) : Bool :=
  agrees target.nodeId r.attributes.getNodeId &&
    agrees target.processId r.attributes.getProcessId &&
    agrees target.hostName r.attributes.getHostName

def isMatch (r : Role) (target : RoleAttributes) : Bool :=
  match r.cls with
  | .base => r.matchBase target
  | .writer =>
    agrees target.channelId r.attributes.getChannelId && agrees target.id r.attributes.getId &&
      r.matchBase target
  | .server => agrees target.serviceId r.attributes.getServiceId && r.matchBase target

def isEarlierThan (r other : Role) : Bool := r.timestampNs < other.timestampNs

end Role

/-!
## Warehouses (`service_discovery/container/*_value_warehouse.cc`)

A `SingleValueWarehouse` has one role under a key, a `MultiValueWarehouse` any number. Each
operation holds the warehouse's lock.
-/

abbrev SingleValueWarehouse := AList fun _ : UInt64 => Role

namespace SingleValueWarehouse

variable (w : SingleValueWarehouse)

def add (key : UInt64) (role : Role) (ignoreIfExist : Bool) : Bool × SingleValueWarehouse :=
  if !ignoreIfExist ∧ key ∈ w then (false, w) else (true, w.insert key role)

def remove (key : UInt64) : SingleValueWarehouse := w.erase key

def search (key : UInt64) : Option Role := w.lookup key

def searchAttr (target : RoleAttributes) : List Role :=
  (w.entries.map Sigma.snd).filter fun r => r.isMatch target

end SingleValueWarehouse

abbrev MultiValueWarehouse := List (UInt64 × Role)

namespace MultiValueWarehouse

def add (w : MultiValueWarehouse) (key : UInt64) (role : Role) : MultiValueWarehouse :=
  w ++ [(key, role)]

def removeRole (w : MultiValueWarehouse) (key : UInt64) (role : Role) : MultiValueWarehouse :=
  w.filter fun item => !(item.1 = key && item.2.isMatch role.attributes)

def searchAttr (w : MultiValueWarehouse) (target : RoleAttributes) : List Role :=
  (w.map Prod.snd).filter fun r => r.isMatch target

end MultiValueWarehouse

/-!
## `Manager` (`service_discovery/specific_manager/manager.cc`)

A manager takes join and leave requests of its own process, the messages of other processes, and
word that a process has gone.
-/

open Lib

structure Process where
  hostName : String
  processId : Int32
  deriving DecidableEq

def RoleAttributes.process (attr : RoleAttributes) : Process :=
  ⟨attr.getHostName, attr.getProcessId⟩

inductive Action
  | change (msg : ChangeMsg)
  | moduleLeave (hostName : String) (processId : Int32)

structure Specific (σ : Type) where
  allowedRole : RoleType → Bool
  check : RoleAttributes → Bool
  dispose : Process → σ → ChangeMsg → σ
  onTopoModuleLeave : Process → σ → String → Int32 → σ

def Specific.act {σ : Type} (S : Specific σ) (self : Process) (s : σ) : Action → σ
  | .change msg => S.dispose self s msg
  | .moduleLeave hostName processId => S.onTopoModuleLeave self s hostName processId

structure Manager (σ : Type) where
  self : Process
  isShutdown : Bool
  isDiscoveryStarted : Bool
  own : σ

inductive Event
  | startDiscovery
  | shutdown
  | join (attr : RoleAttributes) (role : RoleType) (now : UInt64)
  | leave (attr : RoleAttributes) (role : RoleType) (now : UInt64)
  | remoteChange (msg : ChangeMsg)
  | topoModuleLeave (hostName : String) (processId : Int32)

def convert (self : Process) (attr : RoleAttributes) (role : RoleType) (opt : OperateType)
    (now : UInt64) : ChangeMsg where
  timestamp := now
  operateType := opt
  roleType := role
  roleAttr := { attr with
    hostName := some (attr.hostName.getD self.hostName)
    processId := some (attr.processId.getD self.processId) }

namespace Manager

variable {σ : Type} (S : Specific σ)

def fresh (self : Process) (own : σ) : Manager σ := ⟨self, false, false, own⟩

def isFromSameProcess (m : Manager σ) (msg : ChangeMsg) : Bool := msg.roleAttr.process = m.self

def dispose (m : Manager σ) (msg : ChangeMsg) : Manager σ :=
  { m with own := S.dispose m.self m.own msg }

def request (m : Manager σ) (attr : RoleAttributes) (role : RoleType) (opt : OperateType)
    (now : UInt64) : Manager σ :=
  if m.isShutdown then m
  else if !S.allowedRole role then m
  else if !S.check attr then m
  else m.dispose S (convert m.self attr role opt now)

def onRemoteChange (m : Manager σ) (msg : ChangeMsg) : Manager σ :=
  if m.isShutdown then m
  else if m.isFromSameProcess msg then m
  else if !S.check msg.roleAttr then m
  else m.dispose S msg

def onTopoModuleLeave (m : Manager σ) (hostName : String) (processId : Int32) : Manager σ :=
  if !m.isDiscoveryStarted then m
  else { m with own := S.onTopoModuleLeave m.self m.own hostName processId }

def step (m : Manager σ) : Event → Manager σ
  | .startDiscovery => { m with isDiscoveryStarted := true }
  | .shutdown =>
    if m.isShutdown then m else { m with isShutdown := true, isDiscoveryStarted := false }
  | .join attr role now => m.request S attr role .join now
  | .leave attr role now => m.request S attr role .leave now
  | .remoteChange msg => m.onRemoteChange S msg
  | .topoModuleLeave hostName processId => m.onTopoModuleLeave S hostName processId

def requested (m : Manager σ) (attr : RoleAttributes) (role : RoleType) (opt : OperateType)
    (now : UInt64) : Option Action :=
  if !m.isShutdown && S.allowedRole role && S.check attr then
    some (.change (convert m.self attr role opt now))
  else none

def handled (m : Manager σ) : Event → Option Action
  | .startDiscovery => none
  | .shutdown => none
  | .join attr role now => m.requested S attr role .join now
  | .leave attr role now => m.requested S attr role .leave now
  | .remoteChange msg =>
    if !m.isShutdown && !m.isFromSameProcess msg && S.check msg.roleAttr then some (.change msg)
    else none
  | .topoModuleLeave hostName processId =>
    if m.isDiscoveryStarted then some (.moduleLeave hostName processId) else none

def handledAll : Manager σ → List Event → List Action
  | _, [] => []
  | m, ev :: evs => (m.handled S ev).toList ++ handledAll (m.step S ev) evs

variable {S} {m : Manager σ}

theorem request_own (attr : RoleAttributes) (role : RoleType) (opt : OperateType) (now : UInt64) :
    (m.request S attr role opt now).own =
      (m.requested S attr role opt now).toList.foldl (S.act m.self) m.own := by
  unfold request requested
  cases m.isShutdown <;> cases S.allowedRole role <;> cases S.check attr <;> rfl

@[simp] theorem step_self (ev : Event) : (m.step S ev).self = m.self := by
  cases ev <;> simp only [step, request, onRemoteChange, onTopoModuleLeave, dispose] <;>
    repeat' split
  all_goals rfl

theorem step_own (ev : Event) :
    (m.step S ev).own = (m.handled S ev).toList.foldl (S.act m.self) m.own := by
  cases ev with
  | startDiscovery => rfl
  | shutdown => cases hd : m.isShutdown <;> simp [step, handled, hd]
  | join attr role now => exact request_own attr role .join now
  | leave attr role now => exact request_own attr role .leave now
  | remoteChange msg =>
    simp only [step, onRemoteChange, handled]
    cases m.isShutdown <;> cases m.isFromSameProcess msg <;> cases S.check msg.roleAttr <;> rfl
  | topoModuleLeave hostName processId =>
    simp only [step, onTopoModuleLeave, handled]
    cases m.isDiscoveryStarted <;> rfl

/-- **A run of events is a run of what is handled.** -/
theorem run_own (evs : List Event) :
    (evs.foldl (step S) m).own = (m.handledAll S evs).foldl (S.act m.self) m.own := by
  induction evs generalizing m with
  | nil => rfl
  | cons ev evs ih => rw [List.foldl_cons, ih, handledAll, List.foldl_append, step_own, step_self]

theorem along_handled (ok : σ → Action → Prop) (evs : List Event) :
    Along (step S) (fun m ev => ∀ a ∈ m.handled S ev, ok m.own a) m evs ↔
      Along (S.act m.self) ok m.own (m.handledAll S evs) := by
  induction evs generalizing m with
  | nil => exact Iff.rfl
  | cons ev evs ih =>
    rw [Along, ih, handledAll, along_append, step_own, step_self]
    cases m.handled S ev <;> simp [Along]

end Manager

/-!
## `NodeManager` (`service_discovery/specific_manager/node_manager.cc`)

A node is registered under the hash of its name.
-/

structure NodeManager where
  nodes : SingleValueWarehouse
  shutdownRequested : Bool

namespace NodeManager

def init : NodeManager := ⟨∅, false⟩

def check (attr : RoleAttributes) : Bool := attr.nodeName.isSome && attr.nodeId.isSome

def nodeOf (msg : ChangeMsg) : Role :=
  { cls := .base, attributes := msg.roleAttr, timestampNs := msg.timestamp }

def disposeJoin (self : Process) (s : NodeManager) (msg : ChangeMsg) : NodeManager :=
  let node := nodeOf msg
  let key := node.attributes.getNodeId
  let (added, nodes) := s.nodes.add key node false
  if added then { s with nodes := nodes }
  else
    match nodes.search key with
    | none => { s with nodes := (nodes.add key node true).2 }
    | some existing =>
      let (newer, nodes) :=
        if node.isEarlierThan existing then (existing, (nodes.add key node true).2)
        else (node, nodes)
      { nodes := nodes
        shutdownRequested := s.shutdownRequested || newer.attributes.process = self }

def disposeLeave (s : NodeManager) (msg : ChangeMsg) : NodeManager :=
  { s with nodes := s.nodes.remove (nodeOf msg).attributes.getNodeId }

def dispose (self : Process) (s : NodeManager) (msg : ChangeMsg) : NodeManager :=
  match msg.operateType with
  | .join => s.disposeJoin self msg
  | .leave => s.disposeLeave msg

def onTopoModuleLeave (_ : Process) (s : NodeManager) (hostName : String) (processId : Int32) :
    NodeManager :=
  let attr : RoleAttributes := { hostName := some hostName, processId := some processId }
  let nodesToRemove := s.nodes.searchAttr attr
  { s with nodes :=
      nodesToRemove.foldl (fun nodes node => nodes.remove node.attributes.getNodeId) s.nodes }

def specific : Specific NodeManager where
  allowedRole role := role = .node
  check := check
  dispose := dispose
  onTopoModuleLeave := onTopoModuleLeave

structure Joining where
  process : Process
  nodeName : String
  time : UInt64
  deriving DecidableEq

namespace Joining

def attr (id : UInt64) (j : Joining) : RoleAttributes where
  hostName := some j.process.hostName
  processId := some j.process.processId
  nodeName := some j.nodeName
  nodeId := some id

def msg (id : UInt64) (j : Joining) : ChangeMsg := convert j.process (j.attr id) .node .join j.time

def node (id : UInt64) (j : Joining) : Role where
  cls := .base
  attributes := j.attr id
  timestampNs := j.time

def receivedBy (self : Process) (id : UInt64) (j : Joining) : Event :=
  if j.process = self then .join (j.attr id) .node j.time else .remoteChange (j.msg id)

end Joining

def after (self : Process) (id : UInt64) (order : List Joining) : Manager NodeManager :=
  (order.map (Joining.receivedBy self id)).foldl (Manager.step specific) (.fresh self init)

end NodeManager

/-!
## `ServiceManager` (`service_discovery/specific_manager/service_manager.cc`)

A service has one server, the one that joined last, and any number of clients.
-/

structure ServiceManager where
  servers : SingleValueWarehouse
  clients : MultiValueWarehouse

namespace ServiceManager

def init : ServiceManager := ⟨∅, []⟩

def check (attr : RoleAttributes) : Bool := attr.serviceName.isSome && attr.serviceId.isSome

def roleOf (msg : ChangeMsg) : Role := { cls := .server, attributes := msg.roleAttr }

def disposeJoin (s : ServiceManager) (msg : ChangeMsg) : ServiceManager :=
  let role := roleOf msg
  if msg.roleType = .server then
    { s with servers := (s.servers.add role.attributes.getServiceId role true).2 }
  else { s with clients := s.clients.add role.attributes.getServiceId role }

def disposeLeave (s : ServiceManager) (msg : ChangeMsg) : ServiceManager :=
  let role := roleOf msg
  if msg.roleType = .server then
    { s with servers := s.servers.remove role.attributes.getServiceId }
  else { s with clients := s.clients.removeRole role.attributes.getServiceId role }

def dispose (_ : Process) (s : ServiceManager) (msg : ChangeMsg) : ServiceManager :=
  match msg.operateType with
  | .join => s.disposeJoin msg
  | .leave => s.disposeLeave msg

def onTopoModuleLeave (_ : Process) (s : ServiceManager) (hostName : String) (processId : Int32) :
    ServiceManager :=
  let attr : RoleAttributes := { hostName := some hostName, processId := some processId }
  let serversToRemove := s.servers.searchAttr attr
  let clientsToRemove := s.clients.searchAttr attr
  { servers := serversToRemove.foldl
      (fun servers server => servers.remove server.attributes.getServiceId) s.servers
    clients := clientsToRemove.foldl
      (fun clients client => clients.removeRole client.attributes.getServiceId client) s.clients }

def specific : Specific ServiceManager where
  allowedRole role := role = .server || role = .client
  check := check
  dispose := dispose
  onTopoModuleLeave := onTopoModuleLeave

end ServiceManager

/-!
## Who holds an id

Who is registered under an id is said by the messages about it: of nodes it is the one that joined
earliest since the last leave, of servers the one that joined last.
-/

def goneWith (hostName : String) (processId : Int32) (holder : Option Role) : Option Role :=
  holder.filter fun r => r.attributes.process ≠ ⟨hostName, processId⟩

def nodeHolder (id : UInt64) (holder : Option Role) : Action → Option Role
  | .change msg =>
    if msg.roleAttr.getNodeId = id then
      match msg.operateType with
      | .leave => none
      | .join => some (holder.elim (NodeManager.nodeOf msg) fun r =>
          if msg.timestamp < r.timestampNs then NodeManager.nodeOf msg else r)
    else holder
  | .moduleLeave hostName processId => goneWith hostName processId holder

def serverHolder (id : UInt64) (holder : Option Role) : Action → Option Role
  | .change msg =>
    if msg.roleType = .server ∧ msg.roleAttr.getServiceId = id then
      match msg.operateType with
      | .leave => none
      | .join => some (ServiceManager.roleOf msg)
    else holder
  | .moduleLeave hostName processId => goneWith hostName processId holder

def Action.leaver : Action → Option Process
  | .change msg => if msg.operateType = .leave then some msg.roleAttr.process else none
  | .moduleLeave hostName processId => some ⟨hostName, processId⟩

section
variable {σ : Type}

/-- **An event takes away no registration of a process but the one that leaves.** -/
def KeepsOthers (S : Specific σ) (registered : σ → SingleValueWarehouse) (m : Manager σ)
    (ev : Event) : Prop :=
  ∀ a ∈ m.handled S ev, ∀ p ∈ a.leaver, ∀ id r, (registered m.own).lookup id = some r →
    r.attributes.process ≠ p → (registered (m.step S ev).own).lookup id = some r

end

/-- The condition on the messages: whoever holds the id that a message leaves is of the process
that leaves. -/
def HolderLeaves (holder : UInt64 → Option Role → Action → Option Role)
    (idOf : RoleAttributes → UInt64) (leaves : ChangeMsg → Prop) (acts : List Action) : Prop :=
  ∀ pre msg suf, acts = pre ++ .change msg :: suf → leaves msg →
    ∀ r ∈ pre.foldl (holder (idOf msg.roleAttr)) none, r.attributes.process = msg.roleAttr.process

def NodeManager.Leaves (msg : ChangeMsg) : Prop := msg.operateType = .leave

def ServiceManager.Leaves (msg : ChangeMsg) : Prop :=
  msg.operateType = .leave ∧ msg.roleType = .server

end Discovery
