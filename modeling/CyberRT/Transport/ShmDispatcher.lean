import CyberRT.Lib.Run
import CyberRT.Transport.IntraDispatcher

/-!
# `ShmDispatcher` and `ShmReceiver` (`transport/dispatcher/shm_dispatcher.{h,cc}`,
`transport/dispatcher/dispatcher.h`, `transport/receiver/shm_receiver.h`)

The dispatcher keeps two maps from channel ids to handlers: `msg_listeners_` of the base class, and
`arena_msg_listeners_`. `AddListener` puts the listeners of an arena channel, those for raw and
Python messages apart, into the second; `RemoveListener` is the base class's and knows the first
only. All the handlers are for `ReadableBlock`s, so the casts of the handlers do not fail.
-/

namespace Transport

inductive MessageType where
  | rawMessage
  | pyMessageWrap
  | proto (name : String)
  deriving DecidableEq

structure ShmReceiver where
  id : UInt64
  channelId : UInt64
  messageType : MessageType
  deriving DecidableEq

structure ShmDispatcher where
  isShutdown : Bool
  msgListeners : UInt64 → Option (ListenerHandler ShmReceiver)
  arenaMsgListeners : UInt64 → Option (ListenerHandler ShmReceiver)
  segments : UInt64 → Bool

namespace ShmDispatcher

variable {M : Type*}

def empty : ShmDispatcher := ⟨false, fun _ => none, fun _ => none, fun _ => false⟩

variable (d : ShmDispatcher) (self : ShmReceiver)

def addSegment : ShmDispatcher :=
  { d with segments := Function.update d.segments self.channelId true }

def usesArena (conf : UInt64 → Bool) (self : ShmReceiver) : Bool :=
  conf self.channelId && self.messageType != .rawMessage && self.messageType != .pyMessageWrap

def addArenaListener (_opposite : UInt64) : ShmDispatcher :=
  if d.isShutdown then d
  else
    let handler := (d.arenaMsgListeners self.channelId).getD .empty
    { d with arenaMsgListeners :=
        Function.update d.arenaMsgListeners self.channelId (some (handler.connect self.id self)) }

def addBaseListener (opposite : UInt64) : ShmDispatcher :=
  if d.isShutdown then d
  else
    let handler := (d.msgListeners self.channelId).getD .empty
    { d with
      msgListeners := Function.update d.msgListeners self.channelId
        (some (handler.connectOppo self.id opposite self)) }

def addListener (conf : UInt64 → Bool) (d : ShmDispatcher) (self : ShmReceiver)
    (opposite : UInt64) : ShmDispatcher :=
  let d := if usesArena conf self then d.addArenaListener self opposite
    else d.addBaseListener self opposite
  d.addSegment self

def removeListener (opposite : UInt64) : ShmDispatcher :=
  if d.isShutdown then d
  else
    match d.msgListeners self.channelId with
    | none => d
    | some handler =>
      { d with
        msgListeners := Function.update d.msgListeners self.channelId
          (some (handler.disconnectOppo self.id opposite)) }

def onArenaMessage (channelId : UInt64) (msg : M) (info : MessageInfo) (locked : Bool) : List ShmReceiver × ShmDispatcher :=
  if d.isShutdown then ([], d)
  else
    match d.arenaMsgListeners channelId with
    | none => ([], d)
    | some handler =>
      let (calls, handler) := handler.run msg info
      -- an adapter that misses a read lock returns without a call
      (if locked then calls.map (·.1) else [],
        { d with arenaMsgListeners := Function.update d.arenaMsgListeners channelId (some handler) })

end ShmDispatcher

/-- `ShmReceiver::Enable(opposite_attr)`; `arenaEnabled` says whether the arena manager and the
channel's segment could be enabled. -/
def ShmReceiver.enable (conf : UInt64 → Bool) (self : ShmReceiver) (d : ShmDispatcher)
    (opposite : UInt64) (arenaEnabled : Bool) : ShmDispatcher :=
  if conf self.channelId && self.messageType != .rawMessage && !arenaEnabled then d
  else d.addListener conf self opposite

def ShmReceiver.disable (self : ShmReceiver) (d : ShmDispatcher) (opposite : UInt64) :
    ShmDispatcher :=
  d.removeListener self opposite

/-! ## The receivers' calls and the arena messages -/

inductive ArenaOp (M : Type*) where
  | enable (reader : ShmReceiver) (writer : UInt64) (arenaEnabled : Bool)
  | disable (reader : ShmReceiver) (writer : UInt64)
  | message (channelId : UInt64) (msg : M) (info : MessageInfo) (locked : Bool)

/-- The dispatcher, the writers each receiver has enabled, and the receivers of the `Enable(writer)`
calls that were not given up, latest first. -/
structure ArenaReaders where
  dispatcher : ShmDispatcher
  enabled : ShmReceiver → UInt64 → Bool
  enables : List ShmReceiver

namespace ArenaReaders

variable {M : Type*}

def init : ArenaReaders := ⟨.empty, fun _ _ => false, []⟩

def givesUp (conf : UInt64 → Bool) (reader : ShmReceiver) (arenaEnabled : Bool) : Bool :=
  conf reader.channelId && reader.messageType != .rawMessage && !arenaEnabled

def setEnabled (s : ArenaReaders) (reader : ShmReceiver) (writer : UInt64) (on : Bool) :
    ShmReceiver → UInt64 → Bool :=
  Function.update s.enabled reader (Function.update (s.enabled reader) writer on)

def step (conf : UInt64 → Bool) (s : ArenaReaders) : ArenaOp M → ArenaReaders
  | .enable reader writer arenaEnabled =>
    let dispatcher := reader.enable conf s.dispatcher writer arenaEnabled
    if givesUp conf reader arenaEnabled then { s with dispatcher }
    else ⟨dispatcher, s.setEnabled reader writer true, reader :: s.enables⟩
  | .disable reader writer =>
    { s with
      dispatcher := reader.disable s.dispatcher writer
      enabled := s.setEnabled reader writer false }
  | .message channelId msg info locked =>
    { s with dispatcher := (s.dispatcher.onArenaMessage channelId msg info locked).2 }

/-- **What a message is to do**: on an arena channel each receiver that has enabled its writer gets
it once, and no other gets it. -/
def DeliversOnce (conf : UInt64 → Bool) (s : ArenaReaders) : ArenaOp M → Prop
  | .message channelId msg info locked => conf channelId = true →
    ∀ reader : ShmReceiver, reader.channelId = channelId →
      (s.dispatcher.onArenaMessage channelId msg info locked).1.count reader =
        if s.enabled reader info.senderId.hashValue then 1 else 0
  | _ => True

/-- The condition on a message: its blocks can be locked and each receiver of arena messages on its
channel has called `Enable(writer)` once so far, for any writer, if it has the message's writer
enabled; and never, if it has not. -/
def EnabledOnce (conf : UInt64 → Bool) (s : ArenaReaders) : ArenaOp M → Prop
  | .message channelId _ info locked => conf channelId = true →
    ∀ reader : ShmReceiver, reader.channelId = channelId →
      (if locked && ShmDispatcher.usesArena conf reader then s.enables.count reader else 0) =
        if s.enabled reader info.senderId.hashValue then 1 else 0
  | _ => True

end ArenaReaders

end Transport
