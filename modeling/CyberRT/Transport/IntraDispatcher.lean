import CyberRT.Base.Signal
import CyberRT.Transport.MessageInfo
import Std.Data.TreeMap.Lemmas

/-!
# `ListenerHandler` (`transport/message/listener_handler.h`)

The handler keeps one signal for the listeners of every sender and one per opposite id, and the
connections by self id in maps beside them.
-/

namespace Transport

open Base Function

/-- `ListenerHandler<MessageT>`. The maps are functions; `nextSlot` is the next address that
`std::make_shared<Slot>` returns. -/
structure ListenerHandler (L : Type*) where
  signal : Signal L
  signalConns : UInt64 → Option Connection
  signals : UInt64 → Option (Signal L)
  signalsConns : UInt64 → Option (UInt64 → Option Connection)
  nextSlot : Nat

namespace ListenerHandler

variable {L M : Type*}

def empty : ListenerHandler L := ⟨.empty, fun _ => none, fun _ => none, fun _ => none, 0⟩

def connect (h : ListenerHandler L) (selfId : UInt64) (listener : L) : ListenerHandler L :=
  let (signal, connection) := h.signal.connect h.nextSlot listener
  let h := { h with signal, nextSlot := h.nextSlot + 1 }
  if !signal.isConnected connection then h
  else { h with signalConns := update h.signalConns selfId (some connection) }

/-- `Connect(self_id, oppo_id, listener)`: the signal and the connection map of `oppo_id` are made
when absent. -/
def connectOppo (h : ListenerHandler L) (selfId oppoId : UInt64) (listener : L) :
    ListenerHandler L :=
  let (signal, connection) := ((h.signals oppoId).getD .empty).connect h.nextSlot listener
  let h := { h with
    signals := update h.signals oppoId (some signal), nextSlot := h.nextSlot + 1 }
  if !signal.isConnected connection then h
  else
    let conns := (h.signalsConns oppoId).getD fun _ => none
    { h with signalsConns :=
        update h.signalsConns oppoId (some (update conns selfId (some connection))) }

def disconnect (h : ListenerHandler L) (selfId : UInt64) : ListenerHandler L :=
  match h.signalConns selfId with
  | none => h
  | some connection =>
    { h with
      signal := h.signal.disconnect connection
      signalConns := update h.signalConns selfId none }

def disconnectOppo (h : ListenerHandler L) (selfId oppoId : UInt64) : ListenerHandler L :=
  match h.signalsConns oppoId with
  | none => h
  | some conns =>
    match conns selfId with
    | none => h
    | some connection =>
      { h with
        signals := update h.signals oppoId
          ((h.signals oppoId).map fun signal => signal.disconnect connection)
        signalsConns := update h.signalsConns oppoId (some (update conns selfId none)) }

def run (h : ListenerHandler L) (msg : M) (info : MessageInfo) :
    List (L × M × MessageInfo) × ListenerHandler L :=
  let (calls, signal) := h.signal.emit (msg, info)
  let h := { h with signal }
  let oppoId := info.senderId.hashValue
  match h.signals oppoId with
  | none => (calls, h)
  | some signal =>
    let (calls', signal') := signal.emit (msg, info)
    (calls ++ calls', { h with signals := update h.signals oppoId (some signal') })

end ListenerHandler

inductive HandlerOp (L M : Type*) where
  | connect (selfId : UInt64) (listener : L)
  | connectOppo (selfId oppoId : UInt64) (listener : L)
  | disconnect (selfId : UInt64)
  | disconnectOppo (selfId oppoId : UInt64)
  | run (msg : M) (info : MessageInfo)

variable {L M : Type*}

def ListenerHandler.step (h : ListenerHandler L) : HandlerOp L M → ListenerHandler L
  | .connect selfId listener => h.connect selfId listener
  | .connectOppo selfId oppoId listener => h.connectOppo selfId oppoId listener
  | .disconnect selfId => h.disconnect selfId
  | .disconnectOppo selfId oppoId => h.disconnectOppo selfId oppoId
  | .run msg info => (h.run msg info).2

structure Subs (L : Type*) where
  own : List (UInt64 × L)
  oppo : UInt64 → List (UInt64 × L)

namespace Subs

def empty : Subs L := ⟨[], fun _ => []⟩

def step (s : Subs L) : HandlerOp L M → Subs L
  | .connect selfId listener => { s with own := s.own ++ [(selfId, listener)] }
  | .connectOppo selfId oppoId listener =>
    { s with oppo := update s.oppo oppoId (s.oppo oppoId ++ [(selfId, listener)]) }
  | .disconnect selfId => { s with own := s.own.filter fun p => p.1 != selfId }
  | .disconnectOppo selfId oppoId =>
    { s with oppo := update s.oppo oppoId ((s.oppo oppoId).filter fun p => p.1 != selfId) }
  | .run _ _ => s

def calls (s : Subs L) (msg : M) (info : MessageInfo) : List (L × M × MessageInfo) :=
  (s.own ++ s.oppo info.senderId.hashValue).map fun p => (p.2, msg, info)

/-- A call is `Disconnect`-once: a `Disconnect` comes when at most one subscription of its id is
left, that is, when the id has not been connected a second time before it. -/
def DisconnectOnce (s : Subs L) : HandlerOp L M → Prop
  | .disconnect selfId => s.own.countP (fun p => p.1 == selfId) ≤ 1
  | .disconnectOppo selfId oppoId => (s.oppo oppoId).countP (fun p => p.1 == selfId) ≤ 1
  | _ => True

instance (s : Subs L) (op : HandlerOp L M) : Decidable (s.DisconnectOnce op) := by
  unfold DisconnectOnce
  split <;> infer_instance

end Subs

/-!
## `IntraDispatcher` (`transport/dispatcher/intra_dispatcher.h`)

Listeners of one channel may have different message types, and may ask for the messages of one
sender only.
-/

/-- `FullByteSize` with `SerializeToHC`, and `ParseFromHC`, by message type. A string shorter than a
`MessageHeader` does not parse. -/
structure Codec (M : Type*) where
  serialize : String → M → Option (List UInt8)
  parse : String → List UInt8 → Option M
  parse_nil : ∀ ty, parse ty [] = none

structure Place where
  channelId : UInt64
  oppo : Option UInt64
  deriving DecidableEq

structure Wrapper where
  selfId : UInt64
  place : Place
  messageType : String

variable {L M : Type*}

namespace ListenerHandler

def connectIn (h : ListenerHandler L) (oppo : Option UInt64) (selfId : UInt64) (listener : L) :
    ListenerHandler L :=
  match oppo with
  | none => h.connect selfId listener
  | some oppoId => h.connectOppo selfId oppoId listener

def disconnectIn (h : ListenerHandler L) (oppo : Option UInt64) (selfId : UInt64) :
    ListenerHandler L :=
  match oppo with
  | none => h.disconnect selfId
  | some oppoId => h.disconnectOppo selfId oppoId

def runFromString (h : ListenerHandler L) (codec : Codec M) (ty : String) (str : List UInt8)
    (info : MessageInfo) : List (L × M × MessageInfo) × ListenerHandler L :=
  match codec.parse ty str with
  | some msg => h.run msg info
  | none => ([], h)

end ListenerHandler

/-! ## The chain -/

abbrev TypeHandlers (L : Type*) := Std.TreeMap String (ListenerHandler L)

/-- `ChannelChain`: `handlers_` at the places without a sender, `oppo_handlers_` at the others. The
maps that the code erases when they get empty are empty maps here. -/
structure ChannelChain (L : Type*) where
  handlers : Place → TypeHandlers L

namespace ChannelChain

variable (chain : ChannelChain L)

def getHandler (place : Place) (ty : String) : ListenerHandler L × Bool :=
  match (chain.handlers place)[ty]? with
  | some handler => (handler, false)
  | none => (.empty, true)

def addListener (selfId : UInt64) (place : Place) (ty : String) (listener : L) : ChannelChain L × Bool :=
  let (handler, created) := chain.getHandler place ty
  let handler := handler.connectIn place.oppo selfId listener
  (⟨update chain.handlers place ((chain.handlers place).insert ty handler)⟩, created)

/-- `RemoveListener`: `RemoveHandler` takes the handler of the type out of the map, and the
`Disconnect` that follows is on the handler taken out. -/
def removeListener (place : Place) (ty : String) : ChannelChain L :=
  ⟨update chain.handlers place ((chain.handlers place).erase ty)⟩

/-- One pass of the loop of `Run`: the handler of type `ty` gets the message directly, or from its
string. -/
def runHandler (codec : Codec M) (messageType : String) (msg : M) (info : MessageInfo)
    (ty : String) (handler : ListenerHandler L) : List (L × M × MessageInfo) × ListenerHandler L :=
  if messageType = ty then handler.run msg info
  else
    match codec.serialize messageType msg with
    | none => ([], handler)
    | some str => if str.isEmpty then ([], handler) else handler.runFromString codec ty str info

def run (codec : Codec M) (place : Place) (messageType : String) (msg : M) (info : MessageInfo) : List (L × M × MessageInfo) × ChannelChain L :=
  let handlers := chain.handlers place
  let pass := runHandler codec messageType msg info
  (handlers.toList.flatMap fun p => (pass p.1 p.2).1,
    ⟨update chain.handlers place (handlers.map fun ty handler => (pass ty handler).2)⟩)

end ChannelChain

/-! ## The dispatcher -/

structure IntraDispatcher (L : Type*) where
  chain : ChannelChain L
  msgListeners : UInt64 → Option (String × ListenerHandler Wrapper)

namespace IntraDispatcher

def new : IntraDispatcher L := ⟨⟨fun _ => ∅⟩, fun _ => none⟩

/-- `GetHandler<MessageT>(channel_id)`: the handler of the channel if it has the type `ty`, made
when the channel has none. -/
def getHandler (d : IntraDispatcher L) (channelId : UInt64) (ty : String) :
    Option (ListenerHandler Wrapper) × IntraDispatcher L :=
  match d.msgListeners channelId with
  | some (ty', handler) => (if ty' = ty then some handler else none, d)
  | none =>
    (some .empty, { d with msgListeners := update d.msgListeners channelId (some (ty, .empty)) })

def addListener (d : IntraDispatcher L) (selfId : UInt64) (place : Place) (ty : String)
    (listener : L) : IntraDispatcher L :=
  let (chain, created) := d.chain.addListener selfId place ty listener
  match getHandler { d with chain } place.channelId ty with
  | (some handler, d) =>
    if created then
      let handler := handler.connectIn place.oppo selfId ⟨selfId, place, ty⟩
      { d with msgListeners := update d.msgListeners place.channelId (some (ty, handler)) }
    else d
  | (none, d) => d

def removeListener (d : IntraDispatcher L) (selfId : UInt64) (place : Place) (ty : String) :
    IntraDispatcher L where
  chain := d.chain.removeListener place ty
  msgListeners := update d.msgListeners place.channelId
    ((d.msgListeners place.channelId).map fun p => (p.1, p.2.disconnectIn place.oppo selfId))

def runWrappers (codec : Codec M) (chain : ChannelChain L) :
    List (Wrapper × M × MessageInfo) → List (L × M × MessageInfo) × ChannelChain L
  | [] => ([], chain)
  | (w, msg, info) :: ws =>
    let (calls, chain) := chain.run codec w.place w.messageType msg info
    let (calls', chain) := runWrappers codec chain ws
    (calls ++ calls', chain)

def runChannel (codec : Codec M) (ty : String) (handler : ListenerHandler Wrapper)
    (messageType : String) (msg : M) (info : MessageInfo) :
    List (Wrapper × M × MessageInfo) × ListenerHandler Wrapper :=
  if ty = messageType then handler.run msg info
  else
    match codec.serialize messageType msg with
    | some str => handler.runFromString codec ty str info
    | none => ([], handler)

def onMessage (d : IntraDispatcher L) (codec : Codec M) (channelId : UInt64) (messageType : String)
    (msg : M) (info : MessageInfo) : List (L × M × MessageInfo) × IntraDispatcher L :=
  match d.msgListeners channelId with
  | none => ([], d)
  | some (ty, handler) =>
    let (wrapped, handler) := runChannel codec ty handler messageType msg info
    let (calls, chain) := runWrappers codec d.chain wrapped
    (calls, ⟨chain, update d.msgListeners channelId (some (ty, handler))⟩)

end IntraDispatcher

inductive IntraOp (L M : Type*) where
  | add (selfId : UInt64) (place : Place) (ty : String) (listener : L)
  | remove (selfId : UInt64) (place : Place) (ty : String)
  | message (channelId : UInt64) (ty : String) (msg : M) (info : MessageInfo)

def IntraDispatcher.step (codec : Codec M) (d : IntraDispatcher L) :
    IntraOp L M → IntraDispatcher L
  | .add selfId place ty listener => d.addListener selfId place ty listener
  | .remove selfId place ty => d.removeListener selfId place ty
  | .message channelId ty msg info => (d.onMessage codec channelId ty msg info).2

/-! ## The listeners a dispatcher is to serve -/

structure Entry (L : Type*) where
  selfId : UInt64
  ty : String
  listener : L

/-- The registered listeners of each place, and the type a channel's messages go through: the one
that was added to it first. -/
structure Registry (L : Type*) where
  entries : Place → List (Entry L)
  chanType : UInt64 → Option String

def Codec.recast (codec : Codec M) (src dst : String) (msg : M) : Option M :=
  if src = dst then some msg else (codec.serialize src msg).bind (codec.parse dst)

namespace Registry

def empty : Registry L := ⟨fun _ => [], fun _ => none⟩

variable (r : Registry L)

/-- A listener is added by its `AddListener` and dropped by the `RemoveListener` of its id and type
at its place; nothing else changes which listeners are registered. -/
def step : IntraOp L M → Registry L
  | .add selfId place ty listener =>
    { entries := update r.entries place (r.entries place ++ [⟨selfId, ty, listener⟩])
      chanType := update r.chanType place.channelId (some ((r.chanType place.channelId).getD ty)) }
  | .remove selfId place ty =>
    { r with
      entries := update r.entries place
        ((r.entries place).filter fun e => !(e.selfId == selfId && e.ty == ty)) }
  | .message .. => r

def matching (channelId : UInt64) (info : MessageInfo) : List (Entry L) :=
  r.entries ⟨channelId, none⟩ ++ r.entries ⟨channelId, some info.senderId.hashValue⟩

variable (codec : Codec M)

/-- The calls a message is to make: one for each listener it matches, if it reads as one of the
listener's type. -/
def calls (channelId : UInt64) (messageType : String) (msg : M) (info : MessageInfo) : List (L × M × MessageInfo) :=
  (r.matching channelId info).filterMap fun e =>
    (codec.recast messageType e.ty msg).map fun msg => (e.listener, msg, info)

/-- How a message reads when it goes through the type of its channel. -/
def viaChannel (channelId : UInt64) (messageType : String) (msg : M) (ty : String) : Option M :=
  (r.chanType channelId).bind fun chanType =>
    (codec.recast messageType chanType msg).bind (codec.recast chanType ty)

/-- The condition on a call. A message reads the same to each listener it matches when it goes
through the type of its channel. -/
def StepOk (r : Registry L) : IntraOp L M → Prop
  | .add _ place ty _ =>
    (r.chanType place.channelId).getD ty = ty ∨
      ∃ e ∈ r.entries place, r.chanType place.channelId = some e.ty
  | .remove selfId place ty =>
    ∀ e ∈ r.entries place, ¬ (e.selfId = selfId ∧ e.ty = ty) →
      e.ty ≠ ty ∧ r.chanType place.channelId ≠ some ty ∧
        (r.chanType place.channelId = some e.ty → e.selfId ≠ selfId)
  | .message channelId ty msg info =>
    ∀ e ∈ r.matching channelId info,
      r.viaChannel codec channelId ty msg e.ty = codec.recast ty e.ty msg

instance [DecidableEq M] (codec : Codec M) (r : Registry L) :
    ∀ op : IntraOp L M, Decidable (r.StepOk codec op)
  | .add .. => inferInstanceAs (Decidable (_ ∨ _))
  | .remove .. | .message .. => inferInstanceAs (Decidable (∀ e ∈ _, _))

end Registry

end Transport
