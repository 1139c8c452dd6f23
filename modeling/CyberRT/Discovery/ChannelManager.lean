import CyberRT.Lib.Search
import CyberRT.Discovery.Manager

/-!
# `Graph` (`service_discovery/container/graph.cc`)

`edges_` has the sources and the destinations of each channel (`value`), `list_` the complete edges:
from a source, under the key `value + "_" + dst`, to the destination.
-/

namespace Discovery

open Lib Relation

inductive FlowDirection
  | unreachable
  | upstream
  | downstream

abbrev VerticeSet := AList fun _ : String => String

def isDummy (v : String) : Bool := v.isEmpty

structure Edge where
  src : String
  dst : String
  value : String

namespace Edge

def isValid (e : Edge) : Bool :=
  if e.value.isEmpty then false else !(isDummy e.src && isDummy e.dst)

def getKey (e : Edge) : String := e.value ++ "_" ++ e.dst

end Edge

structure RelatedVertices where
  src : VerticeSet
  dst : VerticeSet

structure Graph where
  edges : AList fun _ : String => RelatedVertices
  list : AList fun _ : String => VerticeSet

namespace Graph

def empty : Graph := ⟨∅, ∅⟩

variable (g : Graph)

def related (value : String) : RelatedVertices := (g.edges.lookup value).getD ⟨∅, ∅⟩

def vertices (key : String) : VerticeSet := (g.list.lookup key).getD ∅

def insertCompleteEdge (e : Edge) : Graph :=
  let g := if e.src ∈ g.list then g else { g with list := g.list.insert e.src ∅ }
  let g := if e.dst ∈ g.list then g else { g with list := g.list.insert e.dst ∅ }
  { g with list := g.list.insert e.src ((g.vertices e.src).insert e.getKey e.dst) }

def insertOutgoingEdge (e : Edge) : Graph :=
  let r := g.related e.value
  if e.src ∈ r.src then g
  else
    let g := { g with edges := g.edges.insert e.value { r with src := r.src.insert e.src e.src } }
    r.dst.entries.foldl (fun g item => g.insertCompleteEdge ⟨e.src, item.2, e.value⟩) g

def insertIncomingEdge (e : Edge) : Graph :=
  let r := g.related e.value
  if e.dst ∈ r.dst then g
  else
    let g := { g with edges := g.edges.insert e.value { r with dst := r.dst.insert e.dst e.dst } }
    r.src.entries.foldl (fun g item => g.insertCompleteEdge ⟨item.2, e.dst, e.value⟩) g

def insert (g : Graph) (e : Edge) : Graph :=
  if !e.isValid then g
  else
    let g := if e.value ∈ g.edges then g else { g with edges := g.edges.insert e.value ⟨∅, ∅⟩ }
    let g := if isDummy e.src then g else g.insertOutgoingEdge e
    if isDummy e.dst then g else g.insertIncomingEdge e

def deleteCompleteEdge (e : Edge) : Graph :=
  { g with list := g.list.insert e.src ((g.vertices e.src).erase e.getKey) }

def deleteOutgoingEdge (e : Edge) : Graph :=
  let r := g.related e.value
  if e.src ∉ r.src then g
  else
    let g := { g with edges := g.edges.insert e.value { r with src := r.src.erase e.src } }
    r.dst.entries.foldl (fun g item => g.deleteCompleteEdge ⟨e.src, item.2, e.value⟩) g

def deleteIncomingEdge (e : Edge) : Graph :=
  let r := g.related e.value
  if e.dst ∉ r.dst then g
  else
    let g := { g with edges := g.edges.insert e.value { r with dst := r.dst.erase e.dst } }
    r.src.entries.foldl (fun g item => g.deleteCompleteEdge ⟨item.2, e.dst, e.value⟩) g

def delete (e : Edge) : Graph :=
  if !e.isValid then g
  else if e.value ∉ g.edges then g
  else
    let g := if isDummy e.src then g else g.deleteOutgoingEdge e
    if isDummy e.dst then g else g.deleteIncomingEdge e

def next (v : String) : List String := (g.vertices v).entries.map Sigma.snd

def levelTraverse (fuel : Nat) (g : Graph) (start goal : String) : Option Bool :=
  search g.next goal fuel [] [start]

def getDirectionOf (fuel : Nat) (g : Graph) (lhs rhs : String) : Option FlowDirection :=
  if isDummy lhs || isDummy rhs then some .unreachable
  else if lhs ∉ g.list ∨ rhs ∉ g.list then some .unreachable
  else do
    if ← g.levelTraverse fuel lhs rhs then return .upstream
    if ← g.levelTraverse fuel rhs lhs then return .downstream
    return .unreachable

inductive GraphOp
  | insert (e : Edge)
  | delete (e : Edge)

def step : GraphOp → Graph
  | .insert e => g.insert e
  | .delete e => g.delete e

def IsSrc (v s : String) : Prop := s ∈ (g.related v).src
deriving Decidable

def IsDst (v d : String) : Prop := d ∈ (g.related v).dst
deriving Decidable

def HasEdge (s d v : String) : Prop :=
  (g.vertices s).lookup (Edge.getKey ⟨s, d, v⟩) = some d
deriving Decidable

def Flows (a b : String) : Prop := ∃ v, g.IsSrc v a ∧ g.IsDst v b

/-- **The direction between two vertices** is said by the paths between them. -/
def Directs (a b : String) : Prop :=
  ∃ fuel dir, (∀ n, fuel ≤ n → g.getDirectionOf n a b = some dir) ∧
    (dir = .upstream ↔ ReflTransGen g.Flows a b) ∧
    (dir = .downstream ↔ ¬ ReflTransGen g.Flows a b ∧ ReflTransGen g.Flows b a)

/-- **The graph agrees with what is recorded.** -/
structure Agrees (g : Graph) : Prop where
  edges : ∀ s d v, g.HasEdge s d v ↔ g.IsSrc v s ∧ g.IsDst v d
  directions : ∀ a b, a ≠ b → g.Directs a b

def NoClash : Prop :=
  ∀ s v d v' d', g.IsSrc v s → g.IsDst v d → g.IsSrc v' s → g.IsDst v' d' →
    Edge.getKey ⟨s, d, v⟩ = Edge.getKey ⟨s, d', v'⟩ → v = v' ∧ d = d'

end Graph

/-!
## `ChannelManager` (`service_discovery/specific_manager/channel_manager.cc`)

Writers and readers are registered under their node and under their channel.
-/

structure ChannelManager where
  nodeGraph : Graph
  nodeWriters : MultiValueWarehouse
  nodeReaders : MultiValueWarehouse
  channelWriters : MultiValueWarehouse
  channelReaders : MultiValueWarehouse

namespace ChannelManager

def init : ChannelManager := ⟨.empty, [], [], [], []⟩

def check (attr : RoleAttributes) : Bool :=
  attr.channelName.isSome && attr.channelId.isSome && attr.id.isSome

def disposeJoin (s : ChannelManager) (msg : ChangeMsg) : ChannelManager :=
  let attr := msg.roleAttr
  let role : Role := { cls := .writer, attributes := attr, timestampNs := msg.timestamp }
  if msg.roleType = .writer then
    { s with
      nodeWriters := s.nodeWriters.add attr.getNodeId role
      channelWriters := s.channelWriters.add attr.getChannelId role
      nodeGraph := s.nodeGraph.insert ⟨attr.getNodeName, "", attr.getChannelName⟩ }
  else
    { s with
      nodeReaders := s.nodeReaders.add attr.getNodeId role
      channelReaders := s.channelReaders.add attr.getChannelId role
      nodeGraph := s.nodeGraph.insert ⟨"", attr.getNodeName, attr.getChannelName⟩ }

def disposeLeave (s : ChannelManager) (msg : ChangeMsg) : ChannelManager :=
  let attr := msg.roleAttr
  let role : Role := { cls := .writer, attributes := attr }
  if msg.roleType = .writer then
    { s with
      nodeWriters := s.nodeWriters.removeRole attr.getNodeId role
      channelWriters := s.channelWriters.removeRole attr.getChannelId role
      nodeGraph := s.nodeGraph.delete ⟨attr.getNodeName, "", attr.getChannelName⟩ }
  else
    { s with
      nodeReaders := s.nodeReaders.removeRole attr.getNodeId role
      channelReaders := s.channelReaders.removeRole attr.getChannelId role
      nodeGraph := s.nodeGraph.delete ⟨"", attr.getNodeName, attr.getChannelName⟩ }

def dispose (_ : Process) (s : ChannelManager) (msg : ChangeMsg) : ChannelManager :=
  match msg.operateType with
  | .join => s.disposeJoin msg
  | .leave => s.disposeLeave msg

variable (self : Process)

def leaveOf (roleType : RoleType) (role : Role) : ChangeMsg :=
  convert self role.attributes roleType .leave 0

def onTopoModuleLeave (s : ChannelManager) (hostName : String) (processId : Int32) : ChannelManager :=
  let attr : RoleAttributes := { hostName := some hostName, processId := some processId }
  let writersToRemove := s.channelWriters.searchAttr attr
  let readersToRemove := s.channelReaders.searchAttr attr
  let s := writersToRemove.foldl (fun s writer => s.disposeLeave (leaveOf self .writer writer)) s
  readersToRemove.foldl (fun s reader => s.disposeLeave (leaveOf self .reader reader)) s

def specific : Specific ChannelManager where
  allowedRole role := role = .writer || role = .reader
  check := check
  dispose := dispose
  onTopoModuleLeave := onTopoModuleLeave

def ends (attr : RoleAttributes) : String × String := (attr.getNodeName, attr.getChannelName)

def Registered (w : MultiValueWarehouse) (node channel : String) : Prop :=
  ∃ item ∈ w, ends item.2.attributes = (node, channel)

/-- **The graph records the registered roles.** -/
structure Recorded (s : ChannelManager) : Prop where
  writers : ∀ node channel,
    s.nodeGraph.IsSrc channel node ↔ Registered s.channelWriters node channel
  readers : ∀ node channel,
    s.nodeGraph.IsDst channel node ↔ Registered s.channelReaders node channel

def RemovedBy (leaving : List RoleAttributes) (item : UInt64 × Role) : Prop :=
  ∃ attr ∈ leaving, item.1 = attr.getChannelId ∧ item.2.isMatch attr

/-- The leaving roles leave nothing of theirs behind, and take nothing else away: no role that stays
has the node and the channel of one that leaves, and of each role that is removed the node and the
channel are those of one that leaves, or of one that stays. -/
structure Clears (w : MultiValueWarehouse) (leaving : List RoleAttributes) : Prop where
  stays : ∀ item ∈ w, ¬ RemovedBy leaving item →
    ∀ attr ∈ leaving, ends item.2.attributes ≠ ends attr
  removed : ∀ item ∈ w, RemovedBy leaving item →
    (∃ attr ∈ leaving, ends item.2.attributes = ends attr) ∨
      ∃ item' ∈ w, ¬ RemovedBy leaving item' ∧ ends item'.2.attributes = ends item.2.attributes

def leavingWith (roleType : RoleType) (w : MultiValueWarehouse) (hostName : String)
    (processId : Int32) : List RoleAttributes :=
  (w.searchAttr { hostName := some hostName, processId := some processId }).map fun role =>
    (leaveOf self roleType role).roleAttr

/-- The condition on what is handled: a role that joins has a node and a channel, and roles that
leave clear their node and channel. -/
def Clean (s : ChannelManager) : Action → Prop
  | .change msg =>
    match msg.operateType with
    | .join => msg.roleAttr.getNodeName ≠ "" ∧ msg.roleAttr.getChannelName ≠ ""
    | .leave =>
      Clears (if msg.roleType = .writer then s.channelWriters else s.channelReaders) [msg.roleAttr]
  | .moduleLeave hostName processId =>
    Clears s.channelWriters (leavingWith self .writer s.channelWriters hostName processId) ∧
      Clears s.channelReaders (leavingWith self .reader s.channelReaders hostName processId)

end ChannelManager

/-!
## What a `ChannelManager` keeps

The writers and the readers of all processes, in the order in which they joined: `Roles`.
-/

def RoleAttributes.OfProcess (attr : RoleAttributes) (hostName : String) (processId : Int32) :
    Prop :=
  attr.hostName = some hostName ∧ attr.processId = some processId
deriving Decidable

structure Roles where
  writers : List Role
  readers : List Role

namespace Roles

def empty : Roles := ⟨[], []⟩

def ofKind (rs : Roles) (writer : Bool) : List Role := if writer then rs.writers else rs.readers

def change (rs : Roles) (writer : Bool) (f : List Role → List Role) : Roles :=
  if writer then { rs with writers := f rs.writers } else { rs with readers := f rs.readers }

end Roles

def indexed (key : RoleAttributes → UInt64) (l : List Role) : MultiValueWarehouse :=
  l.map fun r => (key r.attributes, r)

namespace ChannelManager

/-- **The warehouses hold the roles.** -/
structure Holds (s : ChannelManager) (rs : Roles) : Prop where
  nodeWriters : s.nodeWriters = indexed RoleAttributes.getNodeId rs.writers
  channelWriters : s.channelWriters = indexed RoleAttributes.getChannelId rs.writers
  nodeReaders : s.nodeReaders = indexed RoleAttributes.getNodeId rs.readers
  channelReaders : s.channelReaders = indexed RoleAttributes.getChannelId rs.readers

structure InStep (s : ChannelManager) : Prop where
  writers : s.nodeWriters.map Prod.snd = s.channelWriters.map Prod.snd
  readers : s.nodeReaders.map Prod.snd = s.channelReaders.map Prod.snd

structure RemovesProcess (s s' : ChannelManager) (hostName : String) (processId : Int32) :
    Prop where
  nodeWriters : s'.nodeWriters =
    s.nodeWriters.filter fun item => ¬ item.2.attributes.OfProcess hostName processId
  channelWriters : s'.channelWriters =
    s.channelWriters.filter fun item => ¬ item.2.attributes.OfProcess hostName processId
  nodeReaders : s'.nodeReaders =
    s.nodeReaders.filter fun item => ¬ item.2.attributes.OfProcess hostName processId
  channelReaders : s'.channelReaders =
    s.channelReaders.filter fun item => ¬ item.2.attributes.OfProcess hostName processId

end ChannelManager

variable (acts : List Action)

def messages : List ChangeMsg :=
  acts.filterMap fun
    | .change msg => some msg
    | .moduleLeave _ _ => none

def SameRole (msg msg' : ChangeMsg) : Prop :=
  (msg.roleType = .writer ↔ msg'.roleType = .writer) ∧ msg.roleAttr.id = msg'.roleAttr.id ∧
    msg.roleAttr.channelId = msg'.roleAttr.channelId ∧
    msg.roleAttr.nodeId = msg'.roleAttr.nodeId ∧
    msg.roleAttr.hostName = msg'.roleAttr.hostName ∧
    msg.roleAttr.processId = msg'.roleAttr.processId
deriving Decidable

/-- **Join and leave of a role carry the same attributes.** Two readers of a channel in one process
have one id: the node tells them apart. -/
def SameAttributes : Prop :=
  ∀ msg ∈ messages acts, ∀ msg' ∈ messages acts, SameRole msg msg' → msg.roleAttr = msg'.roleAttr
deriving Decidable

/-- The condition: a message names its node, or no role of its kind with its id and channel is of a
node with another id than 0. -/
def NamesNode : Prop :=
  ∀ msg ∈ messages acts, ∀ msg' ∈ messages acts, msg.roleAttr.nodeId = none →
    (msg.roleType = .writer ↔ msg'.roleType = .writer) → msg'.roleAttr.id = msg.roleAttr.id →
    msg'.roleAttr.channelId = msg.roleAttr.channelId → msg'.roleAttr.getNodeId = 0
deriving Decidable

end Discovery
