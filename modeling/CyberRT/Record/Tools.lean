import CyberRT.Record.FileWriter
import CyberRT.Record.RecordWriter

/-!
# `Recoverer` (`tools/cyber_recorder/recoverer.cc`)

`Proc` copies what can still be read of a damaged file.
-/

namespace Record

open Lib

/-- A payload that can be read, or one that cannot; `all`: the parser fails, having consumed all of
it. A payload that is cut off cannot be read. -/
inductive PayloadState
  | intact
  | broken (all : Bool)
  deriving DecidableEq

/-- What stands in a damaged file: a section, or the rest of the head of a section where the file
was cut off. -/
inductive InputItem
  | stored (s : Section) (state : PayloadState)
  | cutHead
  deriving DecidableEq

structure RecordInput where
  header : Header
  index : List SingleIndex
  items : List InputItem

def RecordInput.readIndex (input : RecordInput) : Option (List SingleIndex) :=
  if !input.header.isComplete then none
  else if .stored .index .intact ∈ input.items then some input.index
  else none

def indexChannels (index : List SingleIndex) : List Channel :=
  index.filterMap fun
    | ⟨.channel, _, .channel _ name messageType protoDesc⟩ => some ⟨name, messageType, protoDesc⟩
    | _ => none

structure Recoverer where
  items : List InputItem
  endOfFile : Bool
  channelVec : List String
  calls : List WriterCall

namespace Recoverer

def addChannel (s : Recoverer) (c : Channel) : Recoverer :=
  if c.name ∈ s.channelVec then s
  else { s with channelVec := s.channelVec ++ [c.name], calls := s.calls ++ [.channel c] }

def notAtEnd (s : Recoverer) : Bool := !s.endOfFile

def nextSection (s : Recoverer) : Pass Recoverer :=
  match s.items with
  | [] => .next { s with endOfFile := true }
  | .cutHead :: rest => .next { s with items := rest }
  | .stored .index _ :: rest => .brk { s with items := rest }
  | .stored _ (.broken all) :: rest => .next { s with items := rest, endOfFile := all }
  | .stored (.channel c) .intact :: rest => .next (addChannel { s with items := rest } c)
  | .stored (.chunkHeader _) .intact :: rest => .next { s with items := rest }
  | .stored (.chunkBody ms) .intact :: rest =>
    .next { s with items := rest, calls := s.calls ++ ms.map .message }

def start (input : RecordInput) : Recoverer :=
  match input.readIndex with
  | some index => (indexChannels index).foldl addChannel ⟨input.items, false, [], []⟩
  | none => ⟨input.items, false, [], []⟩

def proc (fuel : Nat) (input : RecordInput) : Option (Bool × List WriterCall) :=
  (loop notAtEnd nextSection fuel (start input)).map fun s => (true, s.calls)

end Recoverer

namespace InputItem

def messages : InputItem → List SingleMessage
  | .stored (.chunkBody ms) .intact => ms
  | _ => []

def channels : InputItem → List Channel
  | .stored (.channel c) .intact => [c]
  | _ => []

def isConsumed : InputItem → Bool
  | .stored _ (.broken true) => true
  | _ => false

end InputItem

def addDistinct (cs : List Channel) (c : Channel) : List Channel :=
  if c.name ∈ cs.map Channel.name then cs else cs ++ [c]

def RecordFile.EndsWithIndex (f : RecordFile) : Prop :=
  ∃ l, f.sections = l ++ [.index] ∧ .index ∉ l

namespace RecordInput

variable (input : RecordInput)

def intactMessages : List SingleMessage :=
  input.items.flatMap InputItem.messages

def intactChannels : List Channel := input.items.flatMap InputItem.channels

def indexedChannels : List Channel :=
  (input.readIndex.map indexChannels).getD []

def knownChannels : List Channel :=
  (input.indexedChannels ++ input.intactChannels).foldl addDistinct []

/-- An input that comes from a file: its first sections with their payloads intact or not, and
perhaps a part of the head of the next one. -/
structure Damaged (f : RecordFile) (input : RecordInput) : Prop where
  header : input.header = f.header
  index : indexChannels input.index = f.channels
  items : ∃ l : List (Section × PayloadState), l.map Prod.fst <+: f.sections ∧
    (input.items = l.map (fun x => .stored x.1 x.2) ∨
      input.items = l.map (fun x => .stored x.1 x.2) ++ [.cutHead] ∧ l.map Prod.fst ≠ f.sections)

/-- **The input is recovered**, with some channels: `Proc` ends and returns true, and it writes the
messages of the chunk bodies that are complete and parse, in their order. -/
def Recovers (channels : List Channel) : Prop :=
  ∃ fuel calls, (∀ n, fuel ≤ n → Recoverer.proc n input = some (true, calls)) ∧
    messagesIn calls = input.intactMessages ∧
    ∀ ops, callsOf ops = calls →
      (Recording.file ⟨HeaderBuilder.getHeader, ops⟩).messages.Perm input.intactMessages ∧
      (Recording.AllInTurn ⟨HeaderBuilder.getHeader, ops⟩ →
        (Recording.file ⟨HeaderBuilder.getHeader, ops⟩).messages = input.intactMessages) ∧
      (Recording.file ⟨HeaderBuilder.getHeader, ops⟩).channels = channels

def before : List InputItem := input.items.takeWhile (!·.isConsumed)

def behind : List InputItem := input.items.dropWhile (!·.isConsumed)

/-- The condition on the input: no message comes behind a payload that cannot be parsed and is
consumed, and no channel that is not known already. -/
def LosesNothing : Prop :=
  input.behind.flatMap InputItem.messages = [] ∧
    ∀ c ∈ input.behind.flatMap InputItem.channels,
      c.name ∈ (input.indexedChannels ++ input.before.flatMap InputItem.channels).map Channel.name

instance (input : RecordInput) : Decidable input.LosesNothing :=
  inferInstanceAs (Decidable (_ ∧ ∀ c ∈ _, _))

end RecordInput

/-!
## `Spliter` (`tools/cyber_recorder/spliter.cc`)

`Proc` copies the messages of an interval of times and of some channels to another file.
-/

structure Spliter where
  whiteChannels : List String
  blackChannels : List String
  beginTime : UInt64
  endTime : UInt64

namespace Spliter

variable (s : Spliter)

def takes (name : String) : Bool :=
  (s.whiteChannels.isEmpty || s.whiteChannels.contains name) && !s.blackChannels.contains name

def passesOver (m : SingleMessage) : Bool :=
  !s.whiteChannels.isEmpty && !s.whiteChannels.contains m.channelName ||
    s.blackChannels.contains m.channelName ||
    (m.time < s.beginTime || m.time > s.endTime)

def skips (h : ChunkHeader) : Bool :=
  s.beginTime > h.endTime || s.endTime < h.beginTime

/-- The loop over the sections with its `skip_next_chunk_body`: whether it comes to the index, and
the calls of the writer. -/
def readThrough (s : Spliter) : Bool → List Section → Bool × List WriterCall
  | _, [] => (false, [])
  | _, .index :: _ => (true, [])
  | skip, .channel c :: rest =>
    let (ok, calls) := readThrough s skip rest
    (ok, if s.takes c.name then .channel c :: calls else calls)
  | skip, .chunkHeader h :: rest => readThrough s (skip || s.skips h) rest
  | true, .chunkBody _ :: rest => readThrough s false rest
  | false, .chunkBody ms :: rest =>
    let (ok, calls) := readThrough s false rest
    (ok, (ms.filter fun m => !s.passesOver m).map .message ++ calls)

variable (f : RecordFile)

def proc : Bool × Option (List WriterCall) :=
  if s.beginTime ≥ s.endTime then (false, none)
  else if s.whiteChannels.any fun name => s.blackChannels.contains name then (false, none)
  else if s.beginTime > f.header.endTime || s.endTime < f.header.beginTime then (false, none)
  else
    let (ok, calls) := s.readThrough false f.sections
    (ok, some calls)

def Selects (name : String) : Prop :=
  (s.whiteChannels = [] ∨ name ∈ s.whiteChannels) ∧ name ∉ s.blackChannels
deriving Decidable

def Wants (m : SingleMessage) : Prop :=
  (s.beginTime ≤ m.time ∧ m.time ≤ s.endTime) ∧ s.Selects m.channelName
deriving Decidable

/-- **The input is split**: `Proc` succeeds, and the output has the messages that qualify and the
channels that are selected. -/
def Splits : Prop :=
  ∃ calls, s.proc f = (true, some calls) ∧ ∀ g, Output calls g →
    g.messages.Perm (f.messages.filter s.Wants) ∧
      g.channels = f.channels.filter fun c => s.Selects c.name

/-- The times in the headers do not hide a message that qualifies: the header of the file has times
in the interval, and no chunk with such a message begins behind the interval by its header. -/
def HeadersMeet : Prop :=
  (s.beginTime ≤ f.header.endTime ∧ f.header.beginTime ≤ s.endTime) ∧
    ∀ c ∈ f.chunks, (∃ m ∈ c.2, s.Wants m) → c.1.beginTime ≤ s.endTime

end Spliter

end Record
