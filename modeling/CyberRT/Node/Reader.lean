import Mathlib.Data.Fintype.Basic
import CyberRT.Discovery.ChannelManager
import CyberRT.Transport.Hybrid

/-!
# `Reader` in the topology (`node/reader.h`)

`JoinTheTopology` adds a listener for the changes of the channel manager, reads the writers of the
channel from it, and enables the receiver for each of them.
-/

namespace Node

open Discovery Lib

/-- A reader, and the changes of writers and readers of all channels that a channel manager handles.
`hostIp` gives the `host_ip` of a role's attributes, which only the transport reads. -/
structure ReaderNet (ι : Type*) where
  attr : RoleAttributes
  hostIp : RoleAttributes → String
  mappingTable : Transport.Relation → Transport.OptionalMode
  self : Process
  msgs : ι → ChangeMsg
  checked : ∀ i, ChannelManager.check (msgs i).roleAttr = true
  channels : ∀ i, (msgs i).roleAttr.getChannelId = attr.getChannelId ↔
    (msgs i).roleAttr.getChannelName = attr.getChannelName
  writers : ∀ i j, (msgs i).roleType = .writer → (msgs j).roleType = .writer →
    (msgs i).roleAttr.getChannelName = attr.getChannelName →
    (msgs j).roleAttr.getChannelName = attr.getChannelName →
    (msgs i).roleAttr.getId = (msgs j).roleAttr.getId → (msgs i).roleAttr = (msgs j).roleAttr

namespace ReaderNet

variable {ι : Type*} (net : ReaderNet ι)

def endpoint (attr : RoleAttributes) : Transport.RoleAttributes :=
  ⟨net.hostIp attr, attr.getProcessId.toInt, attr.getChannelName, attr.getMessageType, attr.getId⟩

def onChannelChange (r : Transport.HybridReceiver) (msg : ChangeMsg) : Transport.HybridReceiver :=
  if msg.roleType ≠ .writer then r
  else if msg.roleAttr.getChannelName ≠ net.attr.getChannelName then r
  else
    match msg.operateType with
    | .join => r.enable (net.endpoint msg.roleAttr)
    | .leave => r.disable (net.endpoint msg.roleAttr)

def getWritersOfChannel (manager : ChannelManager) : List RoleAttributes :=
  (manager.channelWriters.filter fun item => item.1 = net.attr.getChannelId).map fun item =>
    item.2.attributes

end ReaderNet

/-- Where the thread of a change is: before it disposes of it; before it copies the slots; before it
calls that of the reader; done. -/
inductive ChangePc
  | waiting
  | disposed
  | calling
  | done
  deriving DecidableEq

/-- Where `JoinTheTopology` is: before `AddChangeListener`; before `GetWritersOfChannel`; with
writers still to enable; before the reader's own `Join`; returned. -/
inductive ReaderPc
  | connect
  | getWriters
  | enable (rest : List RoleAttributes)
  | join
  | done
  deriving DecidableEq

structure ReaderSystem (ι : Type*) where
  manager : ChannelManager
  connected : Bool
  changes : ι → ChangePc
  reader : ReaderPc
  receiver : Transport.HybridReceiver

inductive ReaderEvent (ι : Type*)
  | change (i : ι)
  | reader (now : UInt64)

namespace ReaderSystem

variable {ι : Type*} (net : ReaderNet ι)

def init : ReaderSystem ι :=
  ⟨.init, false, fun _ => .waiting, .connect, .init (net.endpoint net.attr) net.mappingTable⟩

def changeStep [DecidableEq ι] (s : ReaderSystem ι) (i : ι) : ReaderSystem ι :=
  let goto := Function.update s.changes i
  match s.changes i with
  | .waiting =>
    { s with
      manager := ChannelManager.dispose net.self s.manager (net.msgs i)
      changes := goto .disposed }
  | .disposed => { s with changes := goto (if s.connected then .calling else .done) }
  | .calling =>
    { s with receiver := net.onChannelChange s.receiver (net.msgs i), changes := goto .done }
  | .done => s

def readerStep (s : ReaderSystem ι) (now : UInt64) : ReaderSystem ι :=
  match s.reader with
  | .connect => { s with connected := true, reader := .getWriters }
  | .getWriters => { s with reader := .enable (net.getWritersOfChannel s.manager) }
  | .enable (writer :: rest) =>
    { s with receiver := s.receiver.enable (net.endpoint writer), reader := .enable rest }
  | .enable [] => { s with reader := .join }
  | .join =>
    let msg := convert net.self net.attr .reader .join now
    if ChannelManager.check net.attr then
      { s with
        manager := ChannelManager.dispose net.self s.manager msg
        receiver := net.onChannelChange s.receiver msg
        reader := .done }
    else { s with reader := .done }
  | .done => s

def step [DecidableEq ι] (s : ReaderSystem ι) : ReaderEvent ι → ReaderSystem ι
  | .change i => s.changeStep net i
  | .reader now => s.readerStep net now

/-! ## What is to hold -/

def Quiescent (s : ReaderSystem ι) : Prop :=
  s.reader = .done ∧ ∀ i, s.changes i = .waiting ∨ s.changes i = .done

def Registered (s : ReaderSystem ι) (id : UInt64) : Prop :=
  id ∈ (net.getWritersOfChannel s.manager).map RoleAttributes.getId
deriving Decidable

/-- **The receiver is enabled for the writers that are registered.** -/
def InSync (s : ReaderSystem ι) : Prop := ∀ id, s.receiver.Enabled id ↔ s.Registered net id

def OfChannel (i : ι) : Prop :=
  (net.msgs i).roleType = .writer ∧ (net.msgs i).roleAttr.getChannelName = net.attr.getChannelName
deriving Decidable

def Coming (s : ReaderSystem ι) (i : ι) (id : UInt64) : Prop :=
  OfChannel net i ∧ (net.msgs i).roleAttr.getId = id ∧
    (s.changes i = .disposed ∨ s.changes i = .calling)
deriving Decidable

def InRest (s : ReaderSystem ι) (id : UInt64) : Prop :=
  match s.reader with
  | .enable rest => id ∈ rest.map RoleAttributes.getId
  | _ => False

/-- The condition on a step that tells the receiver of a writer, be it of a change or in
`JoinTheTopology`: what it tells is so at that moment, or there is more to come about the writer. -/
def WordCurrent (s : ReaderSystem ι) : ReaderEvent ι → Prop
  | .change i =>
    let id := (net.msgs i).roleAttr.getId
    s.changes i = .calling → OfChannel net i →
      ((net.msgs i).operateType = .join ↔ s.Registered net id) ∨ s.InRest id ∨
        ∃ j, j ≠ i ∧ s.Coming net j id
  | .reader _ =>
    match s.reader with
    | .enable (writer :: rest) =>
      s.Registered net writer.getId ∨ writer.getId ∈ rest.map RoleAttributes.getId ∨
        ∃ j, s.Coming net j writer.getId
    | _ => True

section
variable (s : ReaderSystem ι) (id : UInt64)

instance : Decidable (s.InRest id) := by
  unfold InRest
  split <;> infer_instance

instance [DecidableEq ι] [Fintype ι] (ev : ReaderEvent ι) : Decidable (s.WordCurrent net ev) := by
  unfold WordCurrent
  split
  · infer_instance
  · split <;> infer_instance

end

end ReaderSystem

end Node
