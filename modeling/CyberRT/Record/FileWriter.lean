import CyberRT.Lib.Bytes
import CyberRT.Record.Reader

/-!
# `RecordFileReader`

In a file a section is a `struct Section` of 16 bytes, with its type in four of them and the size of
its payload in the last eight, little-endian, and the payload.
-/

namespace Record

open Lib

inductive SectionType
  | header
  | chunkHeader
  | chunkBody
  | index
  | channel
  deriving DecidableEq

namespace SectionType

def value : SectionType → Nat
  | .header => 0
  | .chunkHeader => 1
  | .chunkBody => 2
  | .index => 3
  | .channel => 4

def ofValue : Nat → Option SectionType
  | 0 => some .header
  | 1 => some .chunkHeader
  | 2 => some .chunkBody
  | 3 => some .index
  | 4 => some .channel
  | _ => none

@[simp] theorem ofValue_value (t : SectionType) : ofValue t.value = some t := by
  cases t <;> rfl

end SectionType

def headerLength : Nat := 2048

structure SectionHead where
  type : Nat
  size : Int

def toInt64 (n : Nat) : Int := if n < 2 ^ 63 then n else n - 2 ^ 64

theorem toInt64_of_lt {n : Nat} (h : n < 2 ^ 63) : toInt64 n = n := if_pos h

namespace SectionHead

def length : Nat := 16

def encode (type : SectionType) (size : Nat) : List UInt8 :=
  toLE 4 type.value ++ toLE 4 0 ++ toLE 8 size

def decode (bs : List UInt8) : SectionHead := ⟨ofLE (bs.take 4), toInt64 (ofLE (bs.drop 8))⟩

@[simp] theorem encode_length (type : SectionType) (size : Nat) :
    (encode type size).length = length := by
  simp [encode, length]

theorem decode_encode {type : SectionType} {size : Nat} (h : size < 2 ^ 64) :
    decode (encode type size) = ⟨type.value, toInt64 size⟩ := by
  have htake : (encode type size).take 4 = toLE 4 type.value := by
    rw [encode, List.append_assoc]
    exact List.take_left' (toLE_length _ _)
  have hdrop : (encode type size).drop 8 = toLE 8 size := by
    rw [encode]
    exact List.drop_left' (by simp)
  have htype : type.value % 256 ^ 4 = type.value := by cases type <;> rfl
  have hsize : size % 256 ^ 8 = size := Nat.mod_eq_of_lt (by omega)
  rw [decode, htake, hdrop, ofLE_toLE, ofLE_toLE, htype, hsize]

end SectionHead

structure RecordFileReader where
  file : ByteFile
  endOfFile : Bool

namespace RecordFileReader

def readSection (r : RecordFileReader) : Option SectionHead × RecordFileReader :=
  let (bs, file) := r.file.read SectionHead.length
  if bs.length = 0 then (none, ⟨file, true⟩)
  else if bs.length ≠ SectionHead.length then (none, { r with file := file })
  else (some (.decode bs), { r with file := file })

def skipSection (r : RecordFileReader) (size : Int) : Bool × RecordFileReader :=
  let pos : Int := r.file.position
  if size > 2 ^ 63 - 1 - pos then (false, r)
  else if pos + size < 0 then (false, r)
  else (true, { r with file := r.file.seek (pos + size).toNat })

variable {r : RecordFileReader}

theorem readSection_at {type : SectionType} {size : Nat}
    (h : At r.file.content r.file.position (SectionHead.encode type size)) (hlt : size < 2 ^ 64) :
    r.readSection = (some ⟨type.value, toInt64 size⟩,
      { r with file := r.file.seek (r.file.position + SectionHead.length) }) := by
  have hread := h.take_drop
  rw [SectionHead.encode_length] at hread
  rw [readSection, ByteFile.read]
  dsimp only
  rw [hread, SectionHead.encode_length, if_neg (by decide), if_neg (by simp),
    SectionHead.decode_encode hlt]
  rfl

theorem skipSection_forward (size : Nat) (h : r.file.position + size < 2 ^ 63) :
    r.skipSection size = (true, { r with file := r.file.seek (r.file.position + size) }) := by
  unfold skipSection
  dsimp only
  rw [if_neg (by omega), if_neg (by omega), ← Int.natCast_add, Int.toNat_natCast]

end RecordFileReader

/-!
## `RecordReader` on any bytes (`record/record_reader.cc`)

`ReadMessage` on a file in which the types and sizes of sections are whatever stands there.
-/

/-- What comes of parsing a payload: the message, which may have been read in part; whether all is
well; by how much the position has moved; and the end-of-file flag that a failed parse sets. -/
structure Parsed (α : Type) where
  value : α
  ok : Bool
  moved : Nat
  endOfFile : Option Bool

structure Parsers where
  channel : ByteFile → Int → Parsed Channel
  chunkHeader : ByteFile → Int → Parsed ChunkHeader
  chunkBody : ByteFile → Int → Parsed (List SingleMessage)

def RecordFileReader.readPayload {α : Type} (parse : ByteFile → Int → Parsed α) (init : α)
    (r : RecordFileReader) (size : Int) : Bool × α × RecordFileReader :=
  if size < -2 ^ 31 || size > 2 ^ 31 - 1 then (false, init, r)
  else
    let parsed := parse r.file size
    (parsed.ok, parsed.value,
      ⟨r.file.seek (r.file.position + parsed.moved), parsed.endOfFile.getD r.endOfFile⟩)

structure RawReader where
  fileReader : RecordFileReader
  header : Header
  isValid : Bool
  reachEnd : Bool
  chunk : List SingleMessage
  messageIndex : Nat

/-- The loop of `ReadNextChunk`: the reader, `skip_next_chunk_body`, and the result when it has
returned. -/
structure ChunkLoop where
  reader : RawReader
  skip : Bool
  result : Bool

namespace RawReader

variable (p : Parsers) (beginTime endTime : UInt64)

def openReader (content : List UInt8) (header : Header) : RawReader :=
  ⟨⟨⟨content, SectionHead.length + headerLength⟩, false⟩, header, true, false, [], 0⟩

variable (s : ChunkLoop)

def goOn (r : RecordFileReader) (skip : Bool) : Pass ChunkLoop :=
  .next { s with reader := { s.reader with fileReader := r }, skip := skip }

def fail (r : RecordFileReader) : Pass ChunkLoop :=
  .brk { s with reader := { s.reader with fileReader := r }, result := false }

def nextSection : Pass ChunkLoop :=
  match s.reader.fileReader.readSection with
  | (none, r) => fail s r
  | (some sec, r) =>
    match SectionType.ofValue sec.type with
    | some .index =>
      .next { s with
        reader := { s.reader with fileReader := (r.skipSection sec.size).2, reachEnd := true } }
    | some .channel =>
      match r.readPayload p.channel ⟨"", "", []⟩ sec.size with
      | (false, _, r) => fail s r
      | (true, _, r) => goOn s r s.skip
    | some .chunkHeader =>
      match r.readPayload p.chunkHeader ⟨0, 0, 0, 0⟩ sec.size with
      | (false, _, r) => fail s r
      | (true, h, r) =>
        if h.beginTime > endTime then fail s r else goOn s r (s.skip || h.endTime < beginTime)
    | some .chunkBody =>
      if s.skip then goOn s (r.skipSection sec.size).2 false
      else
        match r.readPayload p.chunkBody [] sec.size with
        | (ok, ms, r) =>
          .brk { s with
            reader := { s.reader with fileReader := r, chunk := ms }
            result := ok }
    | some .header => fail s r
    | none => fail s r

def readNextChunk (fuel : Nat) (r : RawReader) : Option (Bool × RawReader) :=
  (loop (fun s => !s.reader.reachEnd) (nextSection p beginTime endTime) fuel ⟨r, false, false⟩).map
    fun s => (s.result, s.reader)

def nextInChunk (r : RawReader) : Option (Option SingleMessage) × RawReader :=
  match RecordReader.nextInChunk beginTime endTime (r.chunk.drop r.messageIndex) with
  | (found, rest) => (found, { r with messageIndex := r.chunk.length - rest.length })

def readMessage : Nat → RawReader → Option (Option SingleMessage × RawReader)
  | 0, _ => none
  | fuel + 1, r =>
    if !r.isValid then some (none, r)
    else if beginTime > r.header.endTime || endTime < r.header.beginTime then some (none, r)
    else
      match r.nextInChunk beginTime endTime with
      | (some found, r) => some (found, r)
      | (none, r) =>
        match readNextChunk p beginTime endTime fuel r with
        | none => none
        | some (true, r) => readMessage fuel { r with messageIndex := 0 }
        | some (false, r) => some (none, r)

def Ends (r : RawReader) : Prop :=
  ∃ fuel, ∀ n, fuel ≤ n → (readMessage p beginTime endTime n r).isSome = true

/-- The states in which a call of `ReadMessage` comes to the test of the loop of `ReadNextChunk`,
from one such state on: by a pass of the loop, or by the next call behind a chunk with no message
for the interval. -/
inductive Meets (s : ChunkLoop) : ChunkLoop → Prop
  | here : Meets s s
  | pass {t t' : ChunkLoop} : Meets s t → t.reader.reachEnd = false →
      nextSection p beginTime endTime t = .next t' → Meets s t'
  | call {t t' : ChunkLoop} {r : RawReader} : Meets s t → t.reader.reachEnd = false →
      nextSection p beginTime endTime t = .brk t' → t'.result = true →
      nextInChunk beginTime endTime { t'.reader with messageIndex := 0 } = (none, r) →
      Meets s ⟨r, false, false⟩

/-- The condition on a state of the loop: if the body of a chunk is to be skipped, its size does not
lead back before its own section, unless `SkipSection` refuses it. -/
def SkipsForward : Prop :=
  ∀ sec r, s.skip = true → s.reader.fileReader.readSection = (some sec, r) →
    SectionType.ofValue sec.type = some .chunkBody →
    -SectionHead.length ≤ sec.size ∨ (r.skipSection sec.size).1 = false

def StaysForward (r : RawReader) : Prop :=
  ∀ r' t, r.nextInChunk beginTime endTime = (none, r') →
    Meets p beginTime endTime ⟨r', false, false⟩ t → SkipsForward t

end RawReader

/-!
## The writer and its file in bytes

`RecordFileWriter` with the file and its position, the index and the number of messages of each
channel.
-/

inductive IndexCache
  | channel (messageNumber : UInt64) (name messageType : String) (protoDesc : List UInt8)
  | chunkHeader (messageNumber beginTime endTime rawSize : UInt64)
  | chunkBody (messageNumber : UInt64)
  deriving DecidableEq

structure SingleIndex where
  type : SectionType
  position : UInt64
  cache : IndexCache
  deriving DecidableEq

structure FileHeader where
  header : Header
  indexPosition : UInt64
  size : UInt64

structure Codec where
  header : FileHeader → List UInt8
  channel : Channel → List UInt8
  chunkHeader : ChunkHeader → List UInt8
  chunkBody : List SingleMessage → List UInt8
  index : List SingleIndex → List UInt8

structure FileWriter where
  writer : RecordFileWriter
  file : ByteFile
  index : List SingleIndex
  channelMessageNumberMap : String → Option UInt64
  indexPosition : UInt64
  size : UInt64

def writeBytes (file : ByteFile) (bs : List UInt8) : Option ByteFile :=
  if file.position + bs.length < 2 ^ 63 then some (file.write bs) else none

def blank : List UInt8 := 48 :: List.replicate (headerLength - 1) 0

namespace FileWriter

variable (c : Codec) (w : FileWriter)

def fileHeader : FileHeader := ⟨w.writer.header, w.indexPosition, w.size⟩

variable (type : SectionType)

/-- The end of `WriteSection`: a header gets the room that its payload leaves. -/
def writeBlank (length : Nat) (file : ByteFile) : Option ByteFile :=
  if type = .header then
    if length ≤ headerLength then writeBytes file (blank.take (headerLength - length)) else none
  else some file

def writeSection (payload : List UInt8) :
    Option FileWriter := do
  let file := if type = .header then w.file.seek 0 else w.file
  let file ← writeBytes file (SectionHead.encode type payload.length)
  let file ← writeBytes file payload
  let file ← writeBlank type payload.length file
  return { w with file := file, size := UInt64.ofNat file.position }

def addIndex (position : Nat) (cache : IndexCache) : FileWriter :=
  { w with index := w.index ++ [⟨type, UInt64.ofNat position, cache⟩] }

def writeHeader : Option FileWriter := w.writeSection .header (c.header w.fileHeader)

def openFile (content : List UInt8) (header : Header) : Option FileWriter :=
  writeHeader c ⟨.openFile header, ⟨content, 0⟩, [], fun _ => none, 0, 0⟩

def writeChannel (w : FileWriter) (channel : Channel) : Option FileWriter := do
  let pos := w.file.position
  let w ← w.writeSection .channel (c.channel channel)
  let w := w.addIndex .channel pos
    (.channel 0 channel.name channel.messageType channel.protoDesc)
  return { w with writer := w.writer.writeChannel channel }

def writeChunk (w : FileWriter) (chunk : Chunk) (hc : chunk.header.Covers chunk.body) :
    Option FileWriter := do
  let pos := w.file.position
  let w ← w.writeSection .chunkHeader (c.chunkHeader chunk.header)
  let w := w.addIndex .chunkHeader pos (.chunkHeader chunk.header.messageNumber
    chunk.header.beginTime chunk.header.endTime chunk.header.rawSize)
  let pos := w.file.position
  let w ← w.writeSection .chunkBody (c.chunkBody chunk.body)
  let w := w.addIndex .chunkBody pos (.chunkBody (UInt64.ofNat chunk.body.length))
  return { w with writer := w.writer.writeChunk chunk hc }

def writeMessage (w : FileWriter) (message : SingleMessage) (inWriting : Bool) : FileWriter :=
  let number :=
    match w.channelMessageNumberMap message.channelName with
    | some n => n + 1
    | none => 1
  { w with
    writer := w.writer.writeMessage message inWriting
    channelMessageNumberMap := fun name =>
      if name = message.channelName then some number else w.channelMessageNumberMap name }

def flush : Option FileWriter :=
  if h : w.writer.chunkFlush.empty = false then do
    let w ← w.writeChunk c w.writer.chunkFlush (Chunk.covers_of_not_empty h)
    return { w with writer := { w.writer with chunkFlush := .clear } }
  else some w

def fillIndex : SingleIndex → SingleIndex
  | ⟨.channel, pos, .channel n name messageType protoDesc⟩ =>
    match w.channelMessageNumberMap name with
    | some n => ⟨.channel, pos, .channel n name messageType protoDesc⟩
    | none => ⟨.channel, pos, .channel n name messageType protoDesc⟩
  | e => e

def writeIndex : Option FileWriter := do
  let w := { w with index := w.index.map w.fillIndex }
  let w := { w with indexPosition := UInt64.ofNat w.file.position }
  let w ← w.writeSection .index (c.index w.index)
  return { w with
    writer :=
      { w.writer with
        sections := w.writer.sections ++ [.index]
        wellFormed := w.writer.wellFormed.append (.index .nil) } }

def finish : Option FileWriter := do
  let w ← w.flush c
  let w :=
    { w with
      writer :=
        { w.writer with chunkActive := w.writer.chunkFlush, chunkFlush := w.writer.chunkActive } }
  let w ← w.flush c
  let w ← w.writeIndex c
  return { w with
    writer := { w.writer with header := { w.writer.header with isComplete := true } } }

def close : Option (FileWriter × ByteFile) := do
  let w ← w.finish c
  let w' ← w.writeHeader c
  return (w, w'.file)

def step : WriterOp → Option FileWriter
  | .channel channel => w.writeChannel c channel
  | .message m inWriting => some (w.writeMessage m inWriting)
  | .flush => w.flush c

end FileWriter

def Recording.write (r : Recording) (c : Codec) (content : List UInt8) :
    Option (FileWriter × ByteFile) := do
  let w ← FileWriter.openFile c content r.header
  let w ← r.ops.foldlM (FileWriter.step c) w
  w.close c

end Record
