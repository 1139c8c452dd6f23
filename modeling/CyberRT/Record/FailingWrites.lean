import CyberRT.Record.FileWriter
import CyberRT.Lib.Run

/-!
# An accurate index

The index of a file is accurate if a reader that steps from section to section, by the sizes in
their heads, meets just the sections of the index at the positions of the index, until it meets the
index section where the header says.
-/

namespace Record

open Lib

def Section.type : Section → SectionType
  | .channel _ => .channel
  | .chunkHeader _ => .chunkHeader
  | .chunkBody _ => .chunkBody
  | .index => .index

def Codec.payload (c : Codec) (index : List SingleIndex) : Section → List UInt8
  | .channel channel => c.channel channel
  | .chunkHeader h => c.chunkHeader h
  | .chunkBody ms => c.chunkBody ms
  | .index => c.index index

def frame (type : SectionType) (payload : List UInt8) : List UInt8 :=
  SectionHead.encode type payload.length ++ payload

def Codec.bytes (c : Codec) (index : List SingleIndex) (s : Section) : List UInt8 :=
  frame s.type (c.payload index s)

def sectionsBegin : Nat := SectionHead.length + headerLength

/-- The types and positions of the sections up to the index, and the position of the index: a loop
of `ReadSection` and `SkipSection`. -/
def RecordFileReader.walk : Nat → RecordFileReader → Option (List (SectionType × Nat) × Nat)
  | 0, _ => none
  | fuel + 1, r =>
    let pos := r.file.position
    match r.readSection with
    | (none, _) => none
    | (some s, r) =>
      match SectionType.ofValue s.type with
      | none => none
      | some .index => some ([], pos)
      | some type =>
        match r.skipSection s.size with
        | (false, _) => none
        | (true, r) => (walk fuel r).map fun (l, i) => ((type, pos) :: l, i)

/-- **An accurate index**, of a file that has the sections of `f` and that `w` has closed. -/
structure IndexAccurate (c : Codec) (w : FileWriter) (content : List UInt8) (f : RecordFile) :
    Prop where
  header : At content 0 (frame .header (c.header w.fileHeader))
  sections : At content sectionsBegin (f.sections.flatMap (c.bytes w.index))
  entries : ∃ fuel, ∀ n, fuel ≤ n → RecordFileReader.walk n ⟨⟨content, sectionsBegin⟩, false⟩ =
    some (w.index.map fun e => (e.type, e.position.toNat), w.indexPosition.toNat)
  numbers : ∀ e ∈ w.index, e.type = .channel → ∃ n channel, .channel channel ∈ f.sections ∧
    e.cache = .channel n channel.name channel.messageType channel.protoDesc ∧
    n.toNat = (f.messages.filter (·.channelName = channel.name)).length

/-!
## A writer whose writes may fail

`FileWriter` with the writes of its sections one by one: of the head and of the payload of a section
any number of bytes may get into the file.
-/

structure SectionWrite where
  head : Nat
  payload : Nat

namespace SectionWrite

def HeadWritten (o : SectionWrite) : Prop := SectionHead.length ≤ o.head
deriving Decidable

def Complete (o : SectionWrite) (payload : List UInt8) : Prop :=
  o.HeadWritten ∧ payload.length ≤ o.payload
deriving Decidable

end SectionWrite

/-- What happens to a writer: the calls and the rounds of `Flush`, with what gets into the file, and
the last swap of `Close`. -/
inductive FailingOp
  | channel (channel : Channel) (o : SectionWrite)
  | message (m : SingleMessage) (inWriting : Bool)
  | flush (oHeader oBody : SectionWrite)
  | swap

namespace FileWriter

variable (c : Codec) (w : FileWriter)

def writeSectionTo (type : SectionType) (payload : List UInt8) (o : SectionWrite) : Bool × FileWriter :=
  let file := w.file.write ((SectionHead.encode type payload.length).take o.head)
  if o.HeadWritten then
    let file := file.write (payload.take o.payload)
    (true, { w with file := file, size := UInt64.ofNat file.position })
  else (false, { w with file := file })

def writeChannelTo (channel : Channel) (o : SectionWrite) : Bool × FileWriter :=
  let pos := w.file.position
  match w.writeSectionTo .channel (c.channel channel) o with
  | (false, w) => (false, w)
  | (true, w) =>
    let w := w.addIndex .channel pos
      (.channel 0 channel.name channel.messageType channel.protoDesc)
    let writer := w.writer.writeChannel channel
    (true, { w with
      writer := if o.Complete (c.channel channel) then writer
        else { w.writer with header := writer.header } })

def writeChunkTo (chunk : Chunk) (hc : chunk.header.Covers chunk.body)
    (oHeader oBody : SectionWrite) : Bool × FileWriter :=
  let pos := w.file.position
  match w.writeSectionTo .chunkHeader (c.chunkHeader chunk.header) oHeader with
  | (false, w) => (false, w)
  | (true, w) =>
    let w := w.addIndex .chunkHeader pos (.chunkHeader chunk.header.messageNumber
      chunk.header.beginTime chunk.header.endTime chunk.header.rawSize)
    let pos := w.file.position
    match w.writeSectionTo .chunkBody (c.chunkBody chunk.body) oBody with
    | (false, w) => (false, w)
    | (true, w) =>
      let w := w.addIndex .chunkBody pos (.chunkBody (UInt64.ofNat chunk.body.length))
      let writer := w.writer.writeChunk chunk hc
      (true, { w with
        writer := if oHeader.Complete (c.chunkHeader chunk.header) ∧
            oBody.Complete (c.chunkBody chunk.body) then writer
          else { w.writer with header := writer.header } })

theorem covers_chunkFlush (h : w.writer.chunkFlush.empty = false) :
    w.writer.chunkFlush.header.Covers w.writer.chunkFlush.body :=
  Chunk.covers_of_not_empty h

def flushTo (oHeader oBody : SectionWrite) : FileWriter :=
  if h : w.writer.chunkFlush.empty = false then
    let w := (w.writeChunkTo c w.writer.chunkFlush (w.covers_chunkFlush h) oHeader oBody).2
    { w with writer := { w.writer with chunkFlush := .clear } }
  else w

def swap : FileWriter :=
  { w with
    writer :=
      { w.writer with chunkActive := w.writer.chunkFlush, chunkFlush := w.writer.chunkActive } }

def stepTo : FailingOp → FileWriter
  | .channel channel o => (w.writeChannelTo c channel o).2
  | .message m inWriting => w.writeMessage m inWriting
  | .flush oHeader oBody => w.flushTo c oHeader oBody
  | .swap => w.swap

def opened (header : Header) (file : ByteFile) (size : UInt64) : FileWriter :=
  ⟨.openFile header, file, [], fun _ => none, 0, size⟩

def WritesAll (oHeader oBody : SectionWrite) : Prop :=
  oHeader.Complete (c.chunkHeader w.writer.chunkFlush.header) ∧
    oBody.Complete (c.chunkBody w.writer.chunkFlush.body)
deriving Decidable

def FailsUnchanged : FailingOp → Prop
  | .flush oHeader oBody => w.writer.chunkFlush.empty = false → ¬ w.WritesAll c oHeader oBody →
      (w.flushTo c oHeader oBody).index = w.index ∧
        (w.flushTo c oHeader oBody).writer.header = w.writer.header
  | _ => True

def chunkBytes (chunk : ChunkHeader × List SingleMessage) : List UInt8 :=
  c.bytes [] (.chunkHeader chunk.1) ++ c.bytes [] (.chunkBody chunk.2)

def chunks : List (ChunkHeader × List SingleMessage) := chunksOf w.writer.sections

def Followed (chunks : List (ChunkHeader × List SingleMessage)) (index : List SingleIndex) : Prop :=
  ∀ pre e suf, index = pre ++ e :: suf → e.type = .chunkHeader → ∃ chunk ∈ chunks,
    e.cache = .chunkHeader chunk.1.messageNumber chunk.1.beginTime chunk.1.endTime chunk.1.rawSize ∧
    ∃ e' suf', suf = e' :: suf' ∧ e'.type = .chunkBody ∧
      e'.cache = .chunkBody (UInt64.ofNat chunk.2.length)

/-- **The index and the counts are about chunks that are in the file**; `header` is what the writer
was opened with. -/
structure Consistent (header : Header) (w : FileWriter) : Prop where
  entries : Followed w.chunks w.index
  chunkNumber : w.writer.header.chunkNumber = header.chunkNumber + UInt64.ofNat w.chunks.length
  messageNumber : w.writer.header.messageNumber =
    header.messageNumber + UInt64.ofNat (w.chunks.flatMap Prod.snd).length
  stored : ∀ chunk ∈ w.chunks, ∃ pos, At w.file.content pos (chunkBytes c chunk)

def FailsFirst : FailingOp → Prop
  | .flush oHeader oBody => w.writer.chunkFlush.empty = false →
      w.WritesAll c oHeader oBody ∨ ¬ oHeader.HeadWritten
  | _ => True

end FileWriter

end Record
