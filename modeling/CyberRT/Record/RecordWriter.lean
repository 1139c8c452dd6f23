import CyberRT.Lib.Run
import CyberRT.Record.Reader
import CyberRT.Lib.Locks
import Mathlib.Order.Bounds.Basic

/-!
# The order of the messages in a file

A file is read by a loop over `ReadMessage` with the largest interval of times (`Returns`).
-/

namespace Record

def RecordFileWriter.needFlush (w : RecordFileWriter) (m : SingleMessage) (inWriting : Bool) :
    Bool :=
  (w.header.chunkInterval > 0 &&
    m.time - (w.chunkActive.add m).header.beginTime > w.header.chunkInterval) ||
  (!inWriting && w.header.chunkRawSize > 0 &&
    (w.chunkActive.add m).header.rawSize > w.header.chunkRawSize)

theorem RecordFileWriter.writeMessage_eq (w : RecordFileWriter) (m : SingleMessage)
    (inWriting : Bool) :
    w.writeMessage m inWriting =
      if w.needFlush m inWriting then
        { w with chunkActive := w.chunkFlush, chunkFlush := w.chunkActive.add m }
      else { w with chunkActive := w.chunkActive.add m } := rfl

def RecordFileWriter.InTurn (w : RecordFileWriter) : WriterOp → Prop
  | .message m inWriting => w.needFlush m inWriting → w.chunkFlush.body = []
  | .channel _ => True
  | .flush => True

instance (w : RecordFileWriter) (op : WriterOp) : Decidable (w.InTurn op) := by
  unfold RecordFileWriter.InTurn
  split <;> infer_instance

def Recording.AllInTurn (r : Recording) : Prop :=
  Lib.Along RecordFileWriter.step RecordFileWriter.InTurn (.openFile r.header) r.ops

def maxTime : UInt64 := -1

def RecordReader.readAll (beginTime endTime : UInt64) :
    Nat → RecordReader → Option (List SingleMessage)
  | 0, _ => none
  | fuel + 1, r =>
    match r.readMessage beginTime endTime with
    | (none, _) => some []
    | (some m, r) => (readAll beginTime endTime fuel r).map (m :: ·)

def Returns (f : RecordFile) (ms : List SingleMessage) : Prop :=
  ∃ fuel, ∀ n, fuel ≤ n → (RecordReader.openReader f).readAll 0 maxTime n = some ms

/-!
## The writer and its flush thread (`record/file/record_file_writer.cc`)

One thread calls the writer and closes it, another one runs `Flush`.
-/

open Lib

inductive WriterCall
  | channel (c : Channel)
  | message (m : SingleMessage)
  deriving DecidableEq

def callsOf (ops : List WriterOp) : List WriterCall :=
  ops.filterMap fun
    | .channel c => some (.channel c)
    | .message m _ => some (.message m)
    | .flush => none

/-- Where `Flush` is: before it reads `is_writing_`; before it takes the mutex; in `wait`, before
the predicate; with the predicate found false, before it blocks; blocked; behind `wait`, before it
reads `is_writing_` again; with `in_writing_` set, before `WriteChunk`; returned. -/
inductive FlushPc
  | top
  | locking
  | checking
  | blocking
  | waiting
  | woken
  | writing
  | exited
  deriving DecidableEq

def FlushPc.locked : FlushPc → Bool
  | .checking | .blocking | .woken | .writing => true
  | .top | .locking | .waiting | .exited => false

/-- Where the caller is: in no call; in `WriteMessage`, before its swap; in `Close`, before it finds
the chunk for flushing empty, before its swap, before it finds that chunk empty, before it clears
`is_writing_`, before `notify_all`, before the join has returned; behind `Close`. -/
inductive CallerPc
  | idle
  | swapping
  | waitFlush
  | lastSwap
  | waitLast
  | stopping
  | notifying
  | joining
  | done
  deriving DecidableEq

structure WriterSys where
  writer : RecordFileWriter
  isWriting : Bool
  inWriting : Bool
  cond : CondVar Unit
  caller : CallerPc
  flusher : FlushPc
  calls : List WriterCall
  file : Option RecordFile

inductive WriterSysOp
  | call (call : WriterCall)
  | close
  | caller
  | flusher
  deriving DecidableEq

namespace WriterSys

def init (header : Header) : WriterSys :=
  ⟨.openFile header, true, false, .empty, .idle, .top, [], none⟩

variable (s : WriterSys)

def call : WriterCall → WriterSys
  | .channel c =>
    { s with writer := s.writer.writeChannel c, calls := s.calls ++ [.channel c] }
  | .message m =>
    { s with
      writer := { s.writer with chunkActive := s.writer.chunkActive.add m }
      caller := if s.writer.needFlush m s.inWriting then .swapping else .idle
      calls := s.calls ++ [.message m] }

def swap : WriterSys :=
  { s with
    writer :=
      { s.writer with chunkActive := s.writer.chunkFlush, chunkFlush := s.writer.chunkActive }
    cond := s.cond.notifyOne 0 }

def finish (w : RecordFileWriter) : RecordFile where
  header := { w.header with isComplete := true }
  sections := w.sections ++ [.index]
  wellFormed := w.wellFormed.append (.index .nil)

def callerStep : WriterSys :=
  match s.caller with
  | .idle => s
  | .swapping => if s.flusher.locked then s else { s.swap with caller := .idle }
  | .waitFlush =>
    if s.flusher.locked then s
    else if s.writer.chunkFlush.empty then { s with caller := .lastSwap }
    else s
  | .lastSwap => if s.flusher.locked then s else { s.swap with caller := .waitLast }
  | .waitLast =>
    if s.flusher.locked then s
    else if s.writer.chunkFlush.empty then { s with caller := .stopping }
    else s
  | .stopping => { s with isWriting := false, caller := .notifying }
  | .notifying => { s with cond := s.cond.notifyAll, caller := .joining }
  | .joining =>
    if s.flusher = .exited then { s with caller := .done, file := some (finish s.writer) } else s
  | .done => s

def flusherStep : WriterSys :=
  match s.flusher with
  | .top => { s with flusher := if s.isWriting then .locking else .exited }
  | .locking => { s with flusher := .checking }
  | .checking =>
    { s with flusher := if !s.writer.chunkFlush.empty || !s.isWriting then .woken else .blocking }
  | .blocking => { s with cond := s.cond.wait (), flusher := .waiting }
  | .waiting => if () ∈ s.cond.waiting then s else { s with flusher := .checking }
  | .woken =>
    if !s.isWriting then { s with flusher := .exited }
    else if s.writer.chunkFlush.empty then { s with flusher := .top }
    else { s with inWriting := true, flusher := .writing }
  | .writing => { s with writer := s.writer.flush, inWriting := false, flusher := .top }
  | .exited => s

def step : WriterSysOp → WriterSys
  | .call c => if s.caller = .idle then s.call c else s
  | .close =>
    if s.caller = .idle then { s with caller := if s.isWriting then .waitFlush else .done } else s
  | .caller => s.callerStep
  | .flusher => s.flusherStep

/-- **The lost wakeup**: `Close` waits in `join` for `Flush`, which waits with `is_writing_` false.
-/
def Lost : Prop :=
  s.caller = .joining ∧ s.flusher = .waiting ∧ () ∈ s.cond.waiting ∧ s.isWriting = false
deriving Decidable

def CanClose : Prop :=
  ∃ more : List WriterSysOp, (more.foldl step s).caller = .done

/-- The condition on a step: the `notify_all` of `Close` does not find `Flush` between its test of
the predicate and its wait. -/
def NotifiesInTime (op : WriterSysOp) : Prop :=
  op = .caller → s.caller = .notifying → s.flusher ≠ .blocking
deriving Decidable

end WriterSys

/-!
## What the headers of a file are for

The header of a file says from when to when its messages are and how many there are, that of a chunk
from when to when those in its body are (`Accurate`).
-/

namespace HeaderBuilder

def chunkInterval : UInt64 := 20 * 1000 * 1000 * 1000
def chunkRawSize : UInt64 := 16 * 1024 * 1024

def getHeaderWithChunkParams (chunkInterval chunkRawSize : UInt64) : Header where
  chunkInterval := chunkInterval
  chunkRawSize := chunkRawSize
  chunkNumber := 0
  channelNumber := 0
  beginTime := 0
  endTime := 0
  messageNumber := 0
  isComplete := false

def getHeader : Header := getHeaderWithChunkParams chunkInterval chunkRawSize

end HeaderBuilder

def channelsOf (l : List Section) : List Channel :=
  l.filterMap fun
    | .channel c => some c
    | _ => none

def RecordFile.channels (f : RecordFile) : List Channel := channelsOf f.sections

def Spans (beginTime endTime : UInt64) (ms : List SingleMessage) : Prop :=
  IsLeast {t | t ∈ ms.map time} beginTime.toNat ∧ IsGreatest {t | t ∈ ms.map time} endTime.toNat

/-- **The headers of a file say what is in it.** -/
structure Accurate (f : RecordFile) : Prop where
  times : Spans f.header.beginTime f.header.endTime f.messages
  messageNumber : f.header.messageNumber = UInt64.ofNat f.messages.length
  chunkNumber : f.header.chunkNumber = UInt64.ofNat f.chunks.length
  channelNumber : f.header.channelNumber = UInt64.ofNat f.channels.length
  chunks : ∀ c ∈ f.chunks, Spans c.1.beginTime c.1.endTime c.2

/-- **When the times in the headers are right**, for the bodies of the chunks in the order of the
file. -/
structure TimesKept (bodies : List (List SingleMessage)) : Prop where
  zeroLast : ∀ ms ∈ bodies, 0 ∈ ms.map time → (ms.map time).getLast? = some 0
  zeros : ∀ ms ∈ bodies, 0 ∈ ms.map time → ∀ ms' ∈ bodies, 0 ∈ ms'.map time
  first : (∀ ms ∈ bodies, 0 ∉ ms.map time) → ∀ ms ∈ bodies.head?, ∀ m ∈ bodies.flatten,
    ∃ m' ∈ ms, time m' ≤ time m
  last : ∀ ms ∈ bodies.getLast?, ∀ m ∈ bodies.flatten, ∃ m' ∈ ms, time m ≤ time m'

/-!
## What a tool writes

A tool that writes a record file has a `RecordFileWriter` with the header of `HeaderBuilder`.
-/

variable (calls : List WriterCall)

def messagesIn : List SingleMessage :=
  calls.filterMap fun
    | .message m => some m
    | .channel _ => none

def channelsIn : List Channel :=
  calls.filterMap fun
    | .channel c => some c
    | .message _ => none

def Output (f : RecordFile) : Prop :=
  ∃ ops, callsOf ops = calls ∧ f = Recording.file ⟨HeaderBuilder.getHeader, ops⟩

/-!
## `RecordWriter` (`record/record_writer.cc`)

A record writer gives each message to the file writer that it has; if the segment has become too
long or too large with it, the file is closed, and the next one begins with the channels that there
are so far.
-/

structure SegmentHeader extends Header where
  segmentInterval : UInt64
  segmentRawSize : UInt64

structure MapOrder where
  order : List (String × UInt64) → List (String × UInt64)
  perm : ∀ l, (order l).Perm l

structure RecordWriter where
  header : SegmentHeader
  segmentRawSize : UInt64
  segmentBeginTime : UInt64
  channelMessageNumberMap : List (String × UInt64)
  channelMessageTypeMap : String → Option String
  channelProtoDescMap : String → Option (List UInt8)
  fileWriter : Recording

inductive RecordCall
  | channel (c : Channel)
  | message (channelName : String) (content : Option (List UInt8)) (time : UInt64)
      (inWriting : Bool)
  /-- `WriteMessage` of another type, with `GetMessageName`, the `full_name` of the descriptor, and
  what `SerializeToString` gives, if it succeeds. -/
  | typed (channelName messageName fullName : String) (protoDesc : List UInt8)
      (content : Option (List UInt8)) (time : UInt64) (inWriting : Bool)
  | flush

namespace RecordWriter

def openWriter (header : SegmentHeader) : RecordWriter :=
  ⟨header, 0, 0, [], fun _ => none, fun _ => none, ⟨header.toHeader, []⟩⟩

variable (w : RecordWriter)

def give (op : WriterOp) : RecordWriter :=
  { w with fileWriter := { w.fileWriter with ops := w.fileWriter.ops ++ [op] } }

variable (name : String)

def isNewChannel : Bool :=
  !(w.channelMessageNumberMap.map Prod.fst).contains name

def onNewChannel (c : Channel) : RecordWriter :=
  { w with
    channelMessageNumberMap := w.channelMessageNumberMap ++ [(c.name, 0)]
    channelMessageTypeMap := fun name =>
      if name = c.name then some c.messageType else w.channelMessageTypeMap name
    channelProtoDescMap := fun name =>
      if name = c.name then some c.protoDesc else w.channelProtoDescMap name }

def onNewMessage : RecordWriter :=
  { w with
    channelMessageNumberMap := w.channelMessageNumberMap.map fun e =>
      if e.1 = name then (e.1, e.2 + 1) else e }

def getMessageType : String :=
  (w.channelMessageTypeMap name).getD ""

def channelOf : Channel :=
  ⟨name, w.getMessageType name, (w.channelProtoDescMap name).getD []⟩

def splitOutfile (o : MapOrder) (w : RecordWriter) : RecordWriter :=
  { w with
    segmentRawSize := 0
    segmentBeginTime := 0
    fileWriter :=
      ⟨w.header.toHeader, (o.order w.channelMessageNumberMap).map fun e =>
        .channel (w.channelOf e.1)⟩ }

def writeChannel (c : Channel) : RecordWriter :=
  if w.isNewChannel c.name then (w.onNewChannel c).give (.channel c) else w

def needSplit (m : SingleMessage) : Bool :=
  (w.header.segmentInterval > 0 && m.time - w.segmentBeginTime > w.header.segmentInterval) ||
    (w.header.segmentRawSize > 0 && w.segmentRawSize > w.header.segmentRawSize)

def addMessage (m : SingleMessage) (inWriting : Bool) : RecordWriter :=
  { (w.onNewMessage m.channelName).give (.message m inWriting) with
    segmentRawSize := w.segmentRawSize + UInt64.ofNat m.content.length
    -- as in a chunk, 0 stands for no time
    segmentBeginTime := Chunk.addBegin w.segmentBeginTime m.time }

def writeMessage (o : MapOrder) (w : RecordWriter) (m : SingleMessage) (inWriting : Bool) :
    Option Recording × RecordWriter :=
  let w := w.addMessage m inWriting
  if w.needSplit m then (some w.fileWriter, w.splitOutfile o) else (none, w)

/-- A public call up to its `WriteMessage` of a `SingleMessage`, and that message, if there is one:
the templates of `WriteMessage` return before if there is no content, or a wrong type. -/
def prepare : RecordCall → RecordWriter × Option (SingleMessage × Bool)
  | .channel c => (w.writeChannel c, none)
  | .message name content time inWriting =>
    (w, content.map fun content => (⟨name, time, content⟩, inWriting))
  | .typed name messageName fullName protoDesc content time inWriting =>
    let messageType := w.getMessageType name
    let message := content.map fun content => ((⟨name, time, content⟩ : SingleMessage), inWriting)
    if messageType = "" then (w.writeChannel ⟨name, messageName, protoDesc⟩, message)
    else if fullName ≠ messageType then (w, none)
    else (w, message)
  | .flush => (w.give .flush, none)

def step (o : MapOrder) (w : RecordWriter) (call : RecordCall) : Option Recording × RecordWriter :=
  match w.prepare call with
  | (w, none) => (none, w)
  | (w, some (m, inWriting)) => w.writeMessage o m inWriting

end RecordWriter

/-! ## A run with its segments -/

structure Segment where
  calls : List RecordCall
  recording : Recording

def Segment.written (s : Segment) : List SingleMessage := messagesIn (callsOf s.recording.ops)

structure SegmentRun where
  writer : RecordWriter
  closed : List Segment
  calls : List RecordCall

namespace SegmentRun

def init (header : SegmentHeader) : SegmentRun := ⟨.openWriter header, [], []⟩

def current (s : SegmentRun) : Segment := ⟨s.calls, s.writer.fileWriter⟩

def segments (s : SegmentRun) : List Segment := s.closed ++ [s.current]

def step (o : MapOrder) (s : SegmentRun) (call : RecordCall) : SegmentRun :=
  match s.writer.step o call with
  | (none, w) => ⟨w, s.closed, s.calls ++ [call]⟩
  | (some file, w) => ⟨w, s.closed ++ [⟨s.calls ++ [call], file⟩], []⟩

end SegmentRun

/-! ## What the segments are to be -/

variable (known : List Channel)

def declare (c : Channel) : List Channel :=
  if c.name ∈ known.map Channel.name then known else known ++ [c]

def declaredBy : RecordCall → List Channel
  | .channel c => declare known c
  | .typed name messageName _ protoDesc _ _ _ => declare known ⟨name, messageName, protoDesc⟩
  | .message .. => known
  | .flush => known

def declared (calls : List RecordCall) : List Channel := calls.foldl declaredBy []

def accepted : RecordCall → Option SingleMessage
  | .message name content time _ => content.map fun content => ⟨name, time, content⟩
  | .typed name _ fullName _ content time _ =>
    if ∀ c ∈ known, c.name = name → c.messageType = "" ∨ c.messageType = fullName then
      content.map fun content => ⟨name, time, content⟩
    else none
  | .channel _ => none
  | .flush => none

def acceptedFrom : List Channel → List RecordCall → List SingleMessage
  | _, [] => []
  | known, call :: calls =>
    (accepted known call).toList ++ acceptedFrom (declaredBy known call) calls

structure Within (header : SegmentHeader) (ms : List SingleMessage) : Prop where
  interval : 0 < header.segmentInterval → ∀ a ∈ ms, ∀ b ∈ ms,
    b.time.toNat ≤ a.time.toNat + header.segmentInterval.toNat
  rawSize : 0 < header.segmentRawSize →
    (ms.map fun m => m.content.length).sum ≤ header.segmentRawSize.toNat

/-- **The segments of a recording.** -/
structure SegmentsRight (header : SegmentHeader) (calls : List RecordCall) (segs : List Segment) :
    Prop where
  calls_eq : segs.flatMap Segment.calls = calls
  order : segs.flatMap Segment.written = acceptedFrom [] calls
  stored : ∀ seg ∈ segs, seg.recording.file.messages.Perm seg.written ∧
    (seg.recording.AllInTurn → seg.recording.file.messages = seg.written)
  channels : ∀ pre seg suf, segs = pre ++ seg :: suf →
    (seg.recording.file.channels.map Channel.name).Nodup ∧
      seg.recording.file.channels.Perm (declared ((pre ++ [seg]).flatMap Segment.calls))
  limits : ∀ seg ∈ segs, Within header seg.written.dropLast

/-! ## When they are -/

/-- No message is earlier by more than the interval than one before it, and the size of all fits the
counter. -/
def NoneLate (header : SegmentHeader) (ms : List SingleMessage) : Prop :=
  (0 < header.segmentInterval → ms.Pairwise fun a b =>
    a.time.toNat ≤ b.time.toNat + header.segmentInterval.toNat) ∧
  (0 < header.segmentRawSize → (ms.map fun m => m.content.length).sum < 2 ^ 64)
deriving Decidable

def SegmentRun.InTime (s : SegmentRun) (call : RecordCall) : Prop :=
  (s.writer.prepare call).2.isSome → NoneLate s.writer.header s.current.written
deriving Decidable

def RecordCall.Positive : RecordCall → Prop
  | .message _ _ time _ => 0 < time
  | .typed _ _ _ _ _ time _ => 0 < time
  | .channel _ => True
  | .flush => True

instance : DecidablePred RecordCall.Positive := fun _ => by
  unfold RecordCall.Positive
  split <;> infer_instance

end Record
