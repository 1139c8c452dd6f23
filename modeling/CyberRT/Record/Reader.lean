import CyberRT.Record.File
import Mathlib.Data.List.Sort
import CyberRT.Lib.Loop
import CyberRT.Lib.Windows

/-!
# `RecordReader`

A reader has a position in its file and the messages of the current chunk that it has not read.
-/

namespace Record

structure RecordReader where
  file : RecordFile
  isValid : Bool
  reachEnd : Bool
  chunk : List SingleMessage
  sections : List Section

namespace RecordReader

def openReader (file : RecordFile) : RecordReader := ⟨file, true, false, [], file.sections⟩

def header (r : RecordReader) : Header := r.file.header

variable (r : RecordReader)

def reset : RecordReader :=
  { r with reachEnd := false, chunk := [], sections := r.file.sections }

/-- The loop of `ReadNextChunk` with its `skip_next_chunk_body`: the body it reads, if any, whether
it has met the index, and the sections behind. -/
def nextChunk (beginTime endTime : UInt64) :
    Bool → List Section → Option (List SingleMessage) × Bool × List Section
  | _, [] => (none, false, [])
  | _, .index :: rest => (none, true, rest)
  | skip, .channel _ :: rest => nextChunk beginTime endTime skip rest
  | skip, .chunkHeader h :: rest =>
    if h.beginTime > endTime then (none, false, rest)
    else nextChunk beginTime endTime (skip || h.endTime < beginTime) rest
  | true, .chunkBody _ :: rest => nextChunk beginTime endTime false rest
  | false, .chunkBody ms :: rest => (some ms, false, rest)

def readNextChunk (beginTime endTime : UInt64) : Bool × RecordReader :=
  if r.reachEnd then (false, r)
  else
    match nextChunk beginTime endTime false r.sections with
    | (none, reachEnd, rest) => (false, { r with reachEnd := reachEnd, sections := rest })
    | (some ms, reachEnd, rest) => (true, { r with reachEnd := reachEnd, sections := rest, chunk := ms })

/-- The loop over the current chunk: `none` behind its last message, and `some none` in front of a
message that is too late. -/
def nextInChunk (beginTime endTime : UInt64) :
    List SingleMessage → Option (Option SingleMessage) × List SingleMessage
  | [] => (none, [])
  | m :: ms =>
    if m.time > endTime then (some none, m :: ms)
    else if m.time < beginTime then nextInChunk beginTime endTime ms
    else (some (some m), ms)

def readMessageWithin (beginTime endTime : UInt64) :
    Nat → RecordReader → Option SingleMessage × RecordReader
  | 0, r => (none, r)
  | depth + 1, r =>
    if !r.isValid then (none, r)
    else if beginTime > r.header.endTime || endTime < r.header.beginTime then (none, r)
    else
      match nextInChunk beginTime endTime r.chunk with
      | (some found, ms) => (found, { r with chunk := ms })
      | (none, ms) =>
        match readNextChunk { r with chunk := ms } beginTime endTime with
        | (true, r) => readMessageWithin beginTime endTime depth r
        | (false, r) => (none, r)

def readMessage (beginTime endTime : UInt64) : Option SingleMessage × RecordReader :=
  readMessageWithin beginTime endTime (r.sections.length + 1) r

theorem nextChunk_length (b e : UInt64) (skip : Bool) (l : List Section) :
    (nextChunk b e skip l).2.2.length ≤ l.length ∧
      ((nextChunk b e skip l).1.isSome → (nextChunk b e skip l).2.2.length < l.length) := by
  induction l generalizing skip with
  | nil => exact ⟨Nat.le_refl _, by simp [nextChunk]⟩
  | cons x l ih =>
    cases x with
    | index => exact ⟨Nat.le_succ _, by simp [nextChunk]⟩
    | channel c => exact ⟨Nat.le_succ_of_le (ih _).1, fun h => Nat.lt_succ_of_lt ((ih _).2 h)⟩
    | chunkHeader h =>
      unfold nextChunk
      split
      · exact ⟨Nat.le_succ _, by simp⟩
      · exact ⟨Nat.le_succ_of_le (ih _).1, fun h => Nat.lt_succ_of_lt ((ih _).2 h)⟩
    | chunkBody ms =>
      cases skip with
      | true => exact ⟨Nat.le_succ_of_le (ih _).1, fun h => Nat.lt_succ_of_lt ((ih _).2 h)⟩
      | false => exact ⟨Nat.le_succ _, fun _ => Nat.lt_succ_self _⟩

theorem readNextChunk_length {r r' : RecordReader} {b e : UInt64}
    (h : r.readNextChunk b e = (true, r')) : r'.sections.length < r.sections.length := by
  unfold readNextChunk at h
  split at h
  · cases h
  · split at h
    · cases h
    · rename_i ms reachEnd rest hn
      cases h
      have hlen := (nextChunk_length b e false r.sections).2
      rw [hn] at hlen
      exact hlen rfl

theorem readMessageWithin_succ (b e : UInt64) (depth : Nat) (r : RecordReader)
    (h : r.sections.length < depth) :
    readMessageWithin b e (depth + 1) r = readMessageWithin b e depth r := by
  induction depth generalizing r with
  | zero => cases h
  | succ depth ih =>
    rw [readMessageWithin, readMessageWithin]
    split
    · rfl
    · split
      · rfl
      · split
        · rfl
        · split
          · rename_i r' hr
            exact ih r' (Nat.lt_of_lt_of_le (readNextChunk_length hr) (Nat.lt_succ_iff.1 h))
          · rfl

theorem readMessageWithin_eq (b e : UInt64) {depth : Nat} {r : RecordReader}
    (h : r.sections.length < depth) : readMessageWithin b e depth r = r.readMessage b e := by
  induction depth with
  | zero => cases h
  | succ depth ih =>
    rcases Nat.lt_succ_iff_lt_or_eq.1 h with h | h
    · rw [readMessageWithin_succ b e depth r h, ih h]
    · rw [← h]
      rfl

/-- **`ReadMessage` as it is written**, with no bound. -/
theorem readMessage_eq (b e : UInt64) :
    r.readMessage b e =
      if !r.isValid then (none, r)
      else if b > r.header.endTime || e < r.header.beginTime then (none, r)
      else
        match nextInChunk b e r.chunk with
        | (some found, ms) => (found, { r with chunk := ms })
        | (none, ms) =>
          match readNextChunk { r with chunk := ms } b e with
          | (true, r) => r.readMessage b e
          | (false, r) => (none, r) := by
  rw [readMessage, readMessageWithin]
  split
  · rfl
  · split
    · rfl
    · split
      · rfl
      · split
        · rename_i r' hr
          rw [readMessageWithin_eq b e (readNextChunk_length hr)]
        · rfl

end RecordReader

/-!
## `RecordViewer`

A viewer moves a window of one second from the earliest to the latest time; in each window every
reader is read as far as it goes, into a buffer that is sorted by time.
-/

def RecordReader.unread (r : RecordReader) : Nat :=
  r.chunk.length + (r.sections.map fun
    | .chunkBody ms => ms.length
    | _ => 0).sum

def emplace (m : SingleMessage) : List SingleMessage → List SingleMessage
  | [] => [m]
  | m' :: buffer => if m.time < m'.time then m :: m' :: buffer else m' :: emplace m buffer

def RecordReader.readInto (beginTime endTime : UInt64) :
    Nat → RecordReader → List SingleMessage → RecordReader × List SingleMessage
  | 0, r, buffer => (r, buffer)
  | n + 1, r, buffer =>
    match r.readMessage beginTime endTime with
    | (none, r) => (r, buffer)
    | (some m, r) => readInto beginTime endTime n r (emplace m buffer)

structure RecordViewer where
  beginTime : UInt64
  endTime : UInt64
  channels : List String
  readers : List (RecordReader × Bool)
  currBeginTime : UInt64
  msgBuffer : List SingleMessage

namespace RecordViewer

def kStepTimeNanoSec : UInt64 := 1000000000

def kBufferMinSize : Nat := 128

def readerLt (lhs rhs : RecordReader) : Bool :=
  if lhs.header.beginTime = rhs.header.beginTime then lhs.header.endTime < rhs.header.endTime
  else lhs.header.beginTime < rhs.header.beginTime

def init (readers : List RecordReader) : List (RecordReader × Bool) :=
  (readers.insertionSort fun lhs rhs => readerLt rhs lhs = false).map (·, false)

def minBeginTime (readers : List (RecordReader × Bool)) : UInt64 :=
  readers.foldl (fun t r => if r.1.isValid && t > r.1.header.beginTime then r.1.header.beginTime else t)
    (-1)

def maxEndTime (readers : List (RecordReader × Bool)) : UInt64 :=
  readers.foldl (fun t r => if r.1.isValid && t < r.1.header.endTime then r.1.header.endTime else t) 0

variable (v : RecordViewer)

def updateTime : RecordViewer :=
  let beginTime := if v.beginTime < minBeginTime v.readers then minBeginTime v.readers else v.beginTime
  let endTime := if v.endTime > maxEndTime v.readers then maxEndTime v.readers else v.endTime
  { v with beginTime := beginTime, endTime := endTime, currBeginTime := beginTime }

def create (readers : List RecordReader) (beginTime endTime : UInt64) (channels : List String) :
    RecordViewer :=
  updateTime ⟨beginTime, endTime, channels, init readers, 0, []⟩

def isValid : Bool := !(v.beginTime > v.endTime)

def reset (v : RecordViewer) : RecordViewer :=
  { v with
    readers := v.readers.map fun r => (r.1.reset, false)
    currBeginTime := v.beginTime
    msgBuffer := [] }

def markFinished (beginTime : UInt64) (r : RecordReader × Bool) : RecordReader × Bool :=
  if !r.2 && r.1.header.endTime < beginTime then (r.1.reset, true) else r

def readAll (beginTime endTime : UInt64) :
    List (RecordReader × Bool) → List SingleMessage → List (RecordReader × Bool) × List SingleMessage
  | [], buffer => ([], buffer)
  | (r, true) :: readers, buffer =>
    let rest := readAll beginTime endTime readers buffer
    ((r, true) :: rest.1, rest.2)
  | (r, false) :: readers, buffer =>
    let read := r.readInto beginTime endTime (r.unread + 1) buffer
    let rest := readAll beginTime endTime readers read.2
    ((read.1, false) :: rest.1, rest.2)

def windowEnd : UInt64 :=
  let endTime := v.currBeginTime + kStepTimeNanoSec
  if endTime > v.endTime then v.endTime else endTime

def fillWindow : RecordViewer :=
  let read := readAll v.currBeginTime v.windowEnd (v.readers.map (markFinished v.currBeginTime))
    v.msgBuffer
  { v with readers := read.1, msgBuffer := read.2, currBeginTime := v.windowEnd + 1 }

def fillBuffer (fuel : Nat) (v : RecordViewer) : Option RecordViewer :=
  Lib.loop (fun v => v.currBeginTime ≤ v.endTime && v.msgBuffer.length < kBufferMinSize)
    (fun v => .next v.fillWindow) fuel v

def selected (m : SingleMessage) : Bool :=
  v.channels.isEmpty || v.channels.contains m.channelName

def refill (fuel : Nat) (v : RecordViewer) : Option RecordViewer :=
  if v.msgBuffer.isEmpty then v.fillBuffer fuel else some v

def update : Nat → RecordViewer → Option (Option SingleMessage × RecordViewer)
  | 0, _ => none
  | fuel + 1, v =>
    (v.refill fuel).bind fun v =>
      match v.msgBuffer with
      | [] => some (none, v)
      | m :: rest =>
        if v.selected m then some (some m, { v with msgBuffer := rest })
        else update fuel { v with msgBuffer := rest }

def iterate : Nat → RecordViewer → Option (List SingleMessage)
  | 0, _ => none
  | fuel + 1, v =>
    (v.update fuel).bind fun
      | (none, _) => some []
      | (some m, v) => (iterate fuel v).map (m :: ·)

def messages (fuel : Nat) (v : RecordViewer) : Option (List SingleMessage) :=
  let v := v.reset
  if v.isValid then iterate fuel v else some []

end RecordViewer

variable (recordings : List Recording)

def viewer (beginTime endTime : UInt64) (channels : List String) : RecordViewer :=
  .create (recordings.map fun r => .openReader r.file) beginTime endTime channels

/-!
## What a viewer is for

A viewer over recorded files gives the stored messages with a time between its bounds and of a
selected channel, each once and in the order of time (`Yields` and `wanted`).
-/

open Lib

def time (m : SingleMessage) : Nat := m.time.toNat

def window (beginTime endTime : UInt64) : Window Nat := ⟨beginTime.toNat, endTime.toNat⟩

def Yields (v : RecordViewer) (expected : List SingleMessage) : Prop :=
  (∃ fuel l, v.messages fuel = some l) ∧
    ∀ fuel l, v.messages fuel = some l → l.Perm expected ∧ l.Pairwise fun m m' => m.time ≤ m'.time

def Qualifies (beginTime endTime : UInt64) (channels : List String) (m : SingleMessage) : Prop :=
  beginTime ≤ m.time ∧ m.time ≤ endTime ∧ (channels = [] ∨ m.channelName ∈ channels)
deriving Decidable

def wanted (beginTime endTime : UInt64) (channels : List String) : List SingleMessage :=
  (recordings.flatMap (·.file.messages)).filter (Qualifies beginTime endTime channels ·)

def stepNanoSec : Nat := RecordViewer.kStepTimeNanoSec.toNat

/-- The windows from `b` to `e`: they begin every `stepNanoSec + 1` nanoseconds, and the last one
ends at `e`. -/
def windowsFrom (b e : Nat) : List (Window Nat) :=
  (List.range ((e + (stepNanoSec + 1) - b) / (stepNanoSec + 1))).map fun n =>
    ⟨b + n * (stepNanoSec + 1), min (b + n * (stepNanoSec + 1) + stepNanoSec) e⟩

def Overlaps (h : Header) (w : Window Nat) : Prop :=
  w.lo ≤ h.endTime.toNat ∧ h.beginTime.toNat ≤ w.hi
deriving Decidable

def RecordFile.occs (f : RecordFile) : List (Occ Nat SingleMessage) :=
  Lib.occs [] (f.chunks.map fun c => (c.1.beginTime.toNat, c.2))

/-- A message that the viewer reads: it lies in a window that overlaps with its file, and no message
before it in the file is later than the window. -/
def ReadableIn (v : RecordViewer) (f : RecordFile) (o : Occ Nat SingleMessage) : Prop :=
  Readable time ((windowsFrom v.beginTime.toNat v.endTime.toNat).filter (Overlaps f.header ·)) o
deriving Decidable

/-- **When a viewer loses no message.** Its end time is not the largest number there is, as it would
go round for ever; and it reads each message that it is asked for. -/
def Lossless (beginTime endTime : UInt64) (channels : List String) : Prop :=
  let v := viewer recordings beginTime endTime channels
  v.endTime ≠ -1 ∧ ∀ r ∈ recordings, ∀ o ∈ r.file.occs,
    Qualifies beginTime endTime channels o.entry → ReadableIn v r.file o
deriving Decidable

end Record
