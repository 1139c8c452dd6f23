import CyberRT.Base.Signal
import CyberRT.Discovery.ChannelManager

/-!
# `Recorder` (`tools/cyber_recorder/recorder.cc`)

A recorder has a reader for each channel that it is to record.
-/

namespace Record

open Base Discovery Function

structure RecorderConfig where
  allChannels : Bool
  whiteChannels : List String
  whiteChannelPatterns : List (String → Bool)
  blackChannels : List String
  blackChannelPatterns : List (String → Bool)

structure Recorder where
  channelReaderMap : List String
  sections : List (String × String × String)

namespace Recorder

def channelMatch (channels : List String) (patterns : List (String → Bool)) (name : String) :
    Bool :=
  channels.contains name || patterns.any fun pattern => pattern name

def writeChannel (r : Recorder) (name messageType protoDesc : String) : Recorder :=
  if r.sections.any fun sec => sec.1 = name then r
  else { r with sections := r.sections ++ [(name, messageType, protoDesc)] }

def initReaderImpl (r : Recorder) (name : String) : Recorder :=
  { r with channelReaderMap := r.channelReaderMap ++ [name] }

def findNewChannel (cfg : RecorderConfig) (r : Recorder) (attr : RoleAttributes) : Recorder :=
  let name := attr.getChannelName
  if name = "" then r
  else if attr.getMessageType = "" then r
  else if attr.getProtoDesc = "" then r
  else if name ∈ r.channelReaderMap then r
  else if !cfg.allChannels && !channelMatch cfg.whiteChannels cfg.whiteChannelPatterns name then r
  else if channelMatch cfg.blackChannels cfg.blackChannelPatterns name then r
  else (r.writeChannel name attr.getMessageType attr.getProtoDesc).initReaderImpl name

def topologyCallback (cfg : RecorderConfig) (r : Recorder) (msg : ChangeMsg) : Recorder :=
  if msg.roleType ≠ .writer then r else r.findNewChannel cfg msg.roleAttr

structure WantedAttr (cfg : RecorderConfig) (attr : RoleAttributes) : Prop where
  name : attr.getChannelName ≠ ""
  messageType : attr.getMessageType ≠ ""
  protoDesc : attr.getProtoDesc ≠ ""
  white : cfg.allChannels = true ∨
    channelMatch cfg.whiteChannels cfg.whiteChannelPatterns attr.getChannelName = true
  black : channelMatch cfg.blackChannels cfg.blackChannelPatterns attr.getChannelName = false

end Recorder

inductive JoinPc
  | waiting
  | added
  | notified

/-- Where `Start` is: before it compares its lists; before `GetWriters`; with writers still to look
at; before `AddChangeListener`; returned. -/
inductive StartPc
  | checkLists
  | getWriters
  | find (rest : List RoleAttributes)
  | connect
  | returned (ok : Bool)
  deriving DecidableEq

structure RecorderSystem (ι : Type*) where
  manager : ChannelManager
  signal : Signal Unit
  joins : ι → JoinPc
  start : StartPc
  pending : List ChangeMsg
  recorder : Recorder

inductive RecorderEvent (ι : Type*)
  | join (i : ι)
  | start
  | callback (n : Nat)

namespace RecorderSystem

variable {ι : Type*} [DecidableEq ι] (cfg : RecorderConfig) (msgs : ι → ChangeMsg)

def init : RecorderSystem ι :=
  ⟨.init, .empty, fun _ => .waiting, .checkLists, [], ⟨[], []⟩⟩

variable (s : RecorderSystem ι)

def joinStep (i : ι) : RecorderSystem ι :=
  match s.joins i with
  | .waiting =>
    { s with
      manager := s.manager.disposeJoin (msgs i)
      joins := update s.joins i .added }
  | .added =>
    let (calls, signal) := s.signal.emit (msgs i)
    { s with
      signal := signal
      pending := s.pending ++ calls.map Prod.snd
      joins := update s.joins i .notified }
  | .notified => s

def startStep : RecorderSystem ι :=
  match s.start with
  | .checkLists =>
    if cfg.whiteChannels.any fun name => cfg.blackChannels.contains name then
      { s with start := .returned false }
    else { s with start := .getWriters }
  | .getWriters =>
    { s with start := .find (s.manager.channelWriters.map fun item => item.2.attributes) }
  | .find (attr :: rest) =>
    { s with recorder := s.recorder.findNewChannel cfg attr, start := .find rest }
  | .find [] => { s with start := .connect }
  | .connect =>
    let (signal, conn) := s.signal.connect 0 ()
    { s with signal := signal, start := .returned (signal.isConnected conn) }
  | .returned _ => s

def step : RecorderEvent ι → RecorderSystem ι
  | .join i => s.joinStep msgs i
  | .start => s.startStep cfg
  | .callback n =>
    match s.pending[n]? with
    | none => s
    | some msg =>
      { s with
        recorder := s.recorder.topologyCallback cfg msg
        pending := s.pending.eraseIdx n }

def run (evs : List (RecorderEvent ι)) : RecorderSystem ι := evs.foldl (step cfg msgs) init

def Wanted (msg : ChangeMsg) : Prop := msg.roleType = .writer ∧ Recorder.WantedAttr cfg msg.roleAttr

def Quiescent : Prop := s.start = .returned true ∧ s.pending = []

/-- **All wanted channels of joined writers are recorded.** -/
def Complete : Prop :=
  ∀ i, s.joins i = .notified → Wanted cfg (msgs i) →
    (msgs i).roleAttr.getChannelName ∈ s.recorder.channelReaderMap ∧
      ∃ sec ∈ s.recorder.sections, sec.1 = (msgs i).roleAttr.getChannelName

def BeforeSnapshot (pc : StartPc) : Prop := pc = .checkLists ∨ pc = .getWriters

/-- The next step of a join is one by which the recorder learns of it: the role is registered before
`Start` looks at the writers, or the listeners are notified when the recorder is one of them. -/
def Learns (i : ι) : Prop :=
  s.joins i = .waiting ∧ BeforeSnapshot s.start ∨ s.joins i = .added ∧ s.start = .returned true

def Covered (evs : List (RecorderEvent ι)) (i : ι) : Prop :=
  ∃ pre suf, evs = pre ++ .join i :: suf ∧ (run cfg msgs pre).Learns i

def ChannelsCovered (evs : List (RecorderEvent ι)) : Prop :=
  ∀ i, (run cfg msgs evs).joins i = .notified → Wanted cfg (msgs i) →
    ∃ k, Covered cfg msgs evs k ∧ Wanted cfg (msgs k) ∧
      (msgs k).roleAttr.getChannelName = (msgs i).roleAttr.getChannelName

end RecorderSystem

end Record
