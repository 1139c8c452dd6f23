import Mathlib.Algebra.Order.Ring.Int
import Mathlib.Data.List.Basic

/-!
# Record files and their writer

`RecordFileWriter` collects messages in a chunk; when the chunk is full it changes places with the
chunk for flushing, which another thread writes to the file.
-/

namespace Record

open List

structure SingleMessage where
  channelName : String
  time : UInt64
  content : List UInt8
  deriving DecidableEq

structure Channel where
  name : String
  messageType : String
  protoDesc : List UInt8
  deriving DecidableEq

structure ChunkHeader where
  beginTime : UInt64
  endTime : UInt64
  messageNumber : UInt64
  rawSize : UInt64
  deriving DecidableEq

/-- What the header of a chunk says of its messages. The begin time is that of one of them, though
not of the first if there is a message with time 0. -/
structure ChunkHeader.Covers (h : ChunkHeader) (ms : List SingleMessage) : Prop where
  le_end : ∀ m ∈ ms, m.time ≤ h.endTime
  begin_mem : ∃ m ∈ ms, m.time = h.beginTime

structure Chunk where
  header : ChunkHeader
  body : List SingleMessage
  messageNumber_eq : header.messageNumber = UInt64.ofNat body.length
  covers : body = [] ∧ header.beginTime = 0 ∨ header.Covers body

namespace Chunk

def clear : Chunk := ⟨⟨0, 0, 0, 0⟩, [], rfl, .inl ⟨rfl, rfl⟩⟩

def addBegin (beginTime time : UInt64) : UInt64 :=
  let beginTime := if beginTime = 0 then time else beginTime
  if beginTime > time then time else beginTime

theorem addBegin_eq (beginTime time : UInt64) :
    addBegin beginTime time = time ∨ beginTime ≠ 0 ∧ addBegin beginTime time = beginTime := by
  unfold addBegin
  dsimp only
  split
  · left
    exact ite_self time
  · rename_i h
    split
    · exact .inl rfl
    · exact .inr ⟨h, rfl⟩

def add (c : Chunk) (m : SingleMessage) : Chunk where
  header :=
    { beginTime := addBegin c.header.beginTime m.time
      endTime := if c.header.endTime < m.time then m.time else c.header.endTime
      messageNumber := c.header.messageNumber + 1
      rawSize := c.header.rawSize + UInt64.ofNat m.content.length }
  body := c.body ++ [m]
  messageNumber_eq := by
    rw [c.messageNumber_eq, length_append, UInt64.ofNat_add]
    rfl
  covers := by
    right
    refine ⟨fun m' hm' => ?_, ?_⟩
    · rcases mem_append.1 hm' with hm' | hm'
      · have hle : m'.time ≤ c.header.endTime := by
          rcases c.covers with ⟨hnil, -⟩ | hcov
          · rw [hnil] at hm'
            cases hm'
          · exact hcov.le_end m' hm'
        dsimp only
        split
        · rename_i h
          exact UInt64.le_trans hle (UInt64.le_of_lt h)
        · exact hle
      · obtain rfl := mem_singleton.1 hm'
        dsimp only
        split
        · exact UInt64.le_refl _
        · rename_i h
          exact UInt64.not_lt.1 h
    · rcases addBegin_eq c.header.beginTime m.time with h | ⟨h0, h⟩
      · exact ⟨m, mem_append_right _ mem_cons_self, h.symm⟩
      · rcases c.covers with ⟨-, hz⟩ | hcov
        · exact absurd hz h0
        · obtain ⟨m', hm', hb⟩ := hcov.begin_mem
          exact ⟨m', mem_append_left _ hm', by rw [h, hb]⟩

def empty (c : Chunk) : Bool := c.header.messageNumber == 0

theorem covers_of_not_empty {c : Chunk} (h : c.empty = false) : c.header.Covers c.body := by
  rcases c.covers with ⟨hnil, -⟩ | hcov
  · have hnum := c.messageNumber_eq
    rw [hnil] at hnum
    rw [empty, hnum] at h
    cases h
  · exact hcov

end Chunk

inductive Section
  | channel (c : Channel)
  | chunkHeader (h : ChunkHeader)
  | chunkBody (ms : List SingleMessage)
  | index
  deriving DecidableEq

inductive WellFormed : List Section → Prop
  | nil : WellFormed []
  | channel (c : Channel) {l : List Section} : WellFormed l → WellFormed (.channel c :: l)
  | chunk {h : ChunkHeader} {ms : List SingleMessage} {l : List Section} :
      h.Covers ms → WellFormed l → WellFormed (.chunkHeader h :: .chunkBody ms :: l)
  | index {l : List Section} : WellFormed l → WellFormed (.index :: l)

theorem WellFormed.append {l l' : List Section} (h : WellFormed l) (h' : WellFormed l') :
    WellFormed (l ++ l') := by
  induction h with
  | nil => exact h'
  | channel c _ ih => exact .channel c ih
  | chunk hc _ ih => exact .chunk hc ih
  | index _ ih => exact .index ih

structure Header where
  chunkInterval : UInt64
  chunkRawSize : UInt64
  chunkNumber : UInt64
  channelNumber : UInt64
  beginTime : UInt64
  endTime : UInt64
  messageNumber : UInt64
  isComplete : Bool

structure RecordFile where
  header : Header
  sections : List Section
  wellFormed : WellFormed sections

structure RecordFileWriter where
  header : Header
  sections : List Section
  wellFormed : WellFormed sections
  chunkActive : Chunk
  chunkFlush : Chunk

namespace RecordFileWriter

def openFile (header : Header) : RecordFileWriter := ⟨header, [], .nil, .clear, .clear⟩

variable (w : RecordFileWriter)

def writeChannel (channel : Channel) : RecordFileWriter :=
  { w with
    sections := w.sections ++ [.channel channel]
    wellFormed := w.wellFormed.append (.channel channel .nil)
    header := { w.header with channelNumber := w.header.channelNumber + 1 } }

def writeChunk (c : Chunk) (hc : c.header.Covers c.body) : RecordFileWriter :=
  { w with
    sections := w.sections ++ [.chunkHeader c.header, .chunkBody c.body]
    wellFormed := w.wellFormed.append (.chunk hc .nil)
    header :=
      { w.header with
        chunkNumber := w.header.chunkNumber + 1
        beginTime := if w.header.beginTime = 0 then c.header.beginTime else w.header.beginTime
        endTime := c.header.endTime
        messageNumber := w.header.messageNumber + c.header.messageNumber } }

def writeMessage (message : SingleMessage) (inWriting : Bool) : RecordFileWriter :=
  let active := w.chunkActive.add message
  let needFlush :=
    (w.header.chunkInterval > 0 &&
      message.time - active.header.beginTime > w.header.chunkInterval) ||
    (!inWriting && w.header.chunkRawSize > 0 && active.header.rawSize > w.header.chunkRawSize)
  if needFlush then { w with chunkActive := w.chunkFlush, chunkFlush := active }
  else { w with chunkActive := active }

def flush : RecordFileWriter :=
  if h : w.chunkFlush.empty = false then
    { w.writeChunk w.chunkFlush (Chunk.covers_of_not_empty h) with chunkFlush := .clear }
  else w

def close : RecordFile :=
  let w := w.flush
  let w := { w with chunkActive := w.chunkFlush, chunkFlush := w.chunkActive }
  let w := w.flush
  { header := { w.header with isComplete := true }
    sections := w.sections ++ [.index]
    wellFormed := w.wellFormed.append (.index .nil) }

end RecordFileWriter

inductive WriterOp
  | channel (c : Channel)
  | message (m : SingleMessage) (inWriting : Bool)
  | flush

def RecordFileWriter.step (w : RecordFileWriter) : WriterOp → RecordFileWriter
  | .channel c => w.writeChannel c
  | .message m inWriting => w.writeMessage m inWriting
  | .flush => w.flush

structure Recording where
  header : Header
  ops : List WriterOp

def Recording.file (r : Recording) : RecordFile :=
  (r.ops.foldl RecordFileWriter.step (.openFile r.header)).close

/-! ## What a file holds -/

def chunksOf : List Section → List (ChunkHeader × List SingleMessage)
  | .chunkHeader h :: .chunkBody ms :: l => (h, ms) :: chunksOf l
  | .index :: _ => []
  | _ :: l => chunksOf l
  | [] => []

theorem chunksOf_covers {l : List Section} (h : WellFormed l) :
    ∀ c ∈ chunksOf l, c.1.Covers c.2 := by
  induction h with
  | nil => simp [chunksOf]
  | channel c _ ih => exact ih
  | index => simp [chunksOf]
  | chunk hc _ ih =>
    intro c hmem
    rcases mem_cons.1 hmem with rfl | hmem
    · exact hc
    · exact ih c hmem

namespace RecordFile

def chunks (f : RecordFile) : List (ChunkHeader × List SingleMessage) := chunksOf f.sections

def messages (f : RecordFile) : List SingleMessage := f.chunks.flatMap Prod.snd

end RecordFile

end Record
