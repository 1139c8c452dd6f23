import CyberRT.Record.RecordWriter

/-!
# The writer loses no message

Each message is in the file, in the chunk for flushing or in the active one (`Keeps`), and `Close`
leaves both chunks empty.
-/

namespace Record

open List

def writtenBy (ops : List WriterOp) : List SingleMessage :=
  ops.filterMap fun
    | .message m _ => some m
    | _ => none

theorem writtenBy_cons (op : WriterOp) (ops : List WriterOp) :
    writtenBy (op :: ops) = writtenBy [op] ++ writtenBy ops :=
  filterMap_append (l := [op])

theorem chunksOf_append {l : List Section} (h : WellFormed l) (hi : .index ∉ l)
    (l' : List Section) : chunksOf (l ++ l') = chunksOf l ++ chunksOf l' := by
  induction h with
  | nil => rfl
  | channel c _ ih =>
    have hchannel : ∀ l, chunksOf (.channel c :: l) = chunksOf l := fun _ => rfl
    rw [cons_append, hchannel, hchannel, ih fun h => hi (mem_cons_of_mem _ h)]
  | chunk _ _ ih =>
    rw [cons_append, cons_append, chunksOf,
      ih fun h => hi (mem_cons_of_mem _ (mem_cons_of_mem _ h))]
    rfl
  | index => exact absurd mem_cons_self hi

theorem Chunk.body_eq_nil {c : Chunk} (h : c.empty = true) (hlt : c.body.length < 2 ^ 64) :
    c.body = [] := by
  have hnum := c.messageNumber_eq
  rw [eq_of_beq (show (c.header.messageNumber == 0) = true from h)] at hnum
  have hnat := congrArg UInt64.toNat hnum
  rw [UInt64.toNat_ofNat_of_lt' hlt] at hnat
  exact length_eq_zero_iff.1 hnat.symm

namespace RecordFileWriter

def allMessages (w : RecordFileWriter) : List SingleMessage :=
  (chunksOf w.sections).flatMap Prod.snd ++ (w.chunkFlush.body ++ w.chunkActive.body)

structure Keeps (w : RecordFileWriter) (ms : List SingleMessage) : Prop where
  all : w.allMessages.Perm ms
  noIndex : .index ∉ w.sections

section
variable {w : RecordFileWriter} {ms : List SingleMessage}

theorem sections_writeMessage (w : RecordFileWriter) (m : SingleMessage) (inWriting : Bool) :
    (w.writeMessage m inWriting).sections = w.sections := by
  unfold RecordFileWriter.writeMessage
  dsimp only
  split
  · rfl
  · rfl

section
variable (hi : .index ∉ w.sections)
include hi

theorem allMessages_writeChannel (c : Channel) :
    (w.writeChannel c).allMessages = w.allMessages := by
  have hc : chunksOf (w.sections ++ [.channel c]) = chunksOf w.sections := by
    rw [chunksOf_append w.wellFormed hi]
    exact append_nil _
  rw [allMessages, RecordFileWriter.writeChannel, hc]
  rfl

theorem allMessages_flush : w.flush.allMessages = w.allMessages := by
  unfold flush
  split
  · have hc : chunksOf (w.sections ++ [.chunkHeader w.chunkFlush.header,
        .chunkBody w.chunkFlush.body]) =
          chunksOf w.sections ++ [(w.chunkFlush.header, w.chunkFlush.body)] :=
      chunksOf_append w.wellFormed hi _
    rw [allMessages, allMessages, writeChunk, hc, flatMap_append, append_assoc]
    simp [Chunk.clear]
  · rfl

theorem noIndex_flush : .index ∉ w.flush.sections := by
  unfold flush
  split
  · simpa [writeChunk] using hi
  · exact hi

end

theorem Keeps.openFile (header : Header) : (RecordFileWriter.openFile header).Keeps [] :=
  ⟨.refl _, by simp [RecordFileWriter.openFile]⟩

section
variable (h : Keeps w ms)
include h

theorem Keeps.writeChannel (c : Channel) : Keeps (w.writeChannel c) ms where
  all := by
    rw [allMessages_writeChannel h.noIndex]
    exact h.all
  noIndex := by simpa [RecordFileWriter.writeChannel] using h.noIndex

theorem Keeps.writeMessage (m : SingleMessage) (inWriting : Bool) :
    Keeps (w.writeMessage m inWriting) (ms ++ [m]) := by
  have hadd : ((chunksOf w.sections).flatMap Prod.snd ++
      (w.chunkFlush.body ++ (w.chunkActive.add m).body)).Perm (ms ++ [m]) := by
    rw [Chunk.add, ← append_assoc, ← append_assoc]
    refine List.Perm.append_right [m] ?_
    rw [append_assoc]
    exact h.all
  unfold RecordFileWriter.writeMessage
  dsimp only
  split
  · -- the two chunks change places
    exact ⟨(perm_append_comm.append_left _).trans hadd, h.noIndex⟩
  · exact ⟨hadd, h.noIndex⟩

theorem Keeps.flush : Keeps w.flush ms where
  all := by
    rw [allMessages_flush h.noIndex]
    exact h.all
  noIndex := noIndex_flush h.noIndex

omit h in
theorem flush_chunkFlush (w : RecordFileWriter) (hlt : w.chunkFlush.body.length < 2 ^ 64) :
    w.flush.chunkFlush.body = [] := by
  unfold flush
  split
  · rfl
  · rename_i h
    exact Chunk.body_eq_nil (by simpa using h) hlt

omit h in
theorem flush_chunkActive (w : RecordFileWriter) : w.flush.chunkActive = w.chunkActive := by
  unfold flush
  split
  · rfl
  · rfl

omit h in
theorem close_messages (hi : .index ∉ w.sections) (hlt : w.allMessages.length < 2 ^ 64) :
    w.close.messages = w.allMessages := by
  have hlen : ∀ v : RecordFileWriter, v.allMessages = w.allMessages →
      v.chunkFlush.body.length < 2 ^ 64 := by
    intro v hv
    rw [← hv, allMessages, length_append, length_append] at hlt
    omega
  have h1 := allMessages_flush hi
  have hnil1 := flush_chunkFlush w (hlen w rfl)
  -- the last swap, with nothing left in the chunk for flushing
  obtain ⟨v, hv⟩ : ∃ v : RecordFileWriter, v = { w.flush with
      chunkActive := w.flush.chunkFlush, chunkFlush := w.flush.chunkActive } := ⟨_, rfl⟩
  have hi2 : .index ∉ v.sections := by
    rw [hv]
    exact noIndex_flush hi
  have h2 : v.allMessages = w.allMessages := by
    rw [← h1, hv, allMessages, allMessages, hnil1, append_nil, nil_append]
  have h3 := allMessages_flush hi2
  have hnil3 := flush_chunkFlush v (hlen v h2)
  have hactive : v.flush.chunkActive.body = [] := by
    rw [flush_chunkActive, hv]
    exact hnil1
  rw [h2, allMessages, hnil3, hactive, append_nil, append_nil] at h3
  unfold RecordFileWriter.close RecordFile.messages RecordFile.chunks
  dsimp only
  rw [← hv, chunksOf_append v.flush.wellFormed (noIndex_flush hi2)]
  simpa [chunksOf] using h3

theorem Keeps.close (hlt : ms.length < 2 ^ 64) : w.close.messages.Perm ms := by
  rw [close_messages h.noIndex (by rw [h.all.length_eq]; exact hlt)]
  exact h.all

theorem Keeps.step (op : WriterOp) : Keeps (w.step op) (ms ++ writtenBy [op]) := by
  cases op with
  | channel c =>
    rw [show writtenBy [.channel c] = [] from rfl, append_nil]
    exact h.writeChannel c
  | message m inWriting => exact h.writeMessage m inWriting
  | flush =>
    rw [show writtenBy [.flush] = [] from rfl, append_nil]
    exact h.flush

theorem Keeps.run (ops : List WriterOp) :
    Keeps (ops.foldl RecordFileWriter.step w) (ms ++ writtenBy ops) := by
  induction ops generalizing w ms with
  | nil =>
    rw [show writtenBy [] = [] from rfl, append_nil]
    exact h
  | cons op ops ih =>
    rw [foldl_cons, writtenBy_cons, ← append_assoc]
    exact ih (h.step op)

end

end

end RecordFileWriter

theorem Recording.file_messages (r : Recording) (h : (writtenBy r.ops).length < 2 ^ 64) :
    r.file.messages.Perm (writtenBy r.ops) :=
  ((RecordFileWriter.Keeps.openFile r.header).run r.ops).close h

/-!
## The output of a tool

Whatever the rounds of the flush thread, the output has the messages of the calls, and the channels
in the order of the calls.
-/

theorem writtenBy_eq (ops : List WriterOp) : writtenBy ops = messagesIn (callsOf ops) := by
  rw [messagesIn, callsOf, filterMap_filterMap]
  refine filterMap_congr fun op _ => ?_
  grind

theorem messagesIn_append (l l' : List WriterCall) :
    messagesIn (l ++ l') = messagesIn l ++ messagesIn l' := filterMap_append

theorem channelsIn_append (l l' : List WriterCall) :
    channelsIn (l ++ l') = channelsIn l ++ channelsIn l' := filterMap_append

theorem messagesIn_messages (ms : List SingleMessage) : messagesIn (ms.map .message) = ms := by
  rw [messagesIn, filterMap_map]
  exact filterMap_some

theorem channelsIn_messages (ms : List SingleMessage) : channelsIn (ms.map .message) = [] := by
  rw [channelsIn, filterMap_map]
  exact filterMap_eq_nil_iff.2 fun _ _ => rfl

theorem callsOf_cons (op : WriterOp) (ops : List WriterOp) :
    callsOf (op :: ops) = callsOf [op] ++ callsOf ops := filterMap_append (l := [op])

theorem channelsOf_append (l l' : List Section) :
    channelsOf (l ++ l') = channelsOf l ++ channelsOf l' := filterMap_append

namespace RecordFileWriter

section
variable (w : RecordFileWriter)
include w

theorem channelsOf_flush : channelsOf w.flush.sections = channelsOf w.sections := by
  unfold flush
  split
  · exact (channelsOf_append _ _).trans (append_nil _)
  · rfl

theorem channelsOf_step (op : WriterOp) :
    channelsOf (w.step op).sections = channelsOf w.sections ++ channelsIn (callsOf [op]) := by
  cases op with
  | channel c => exact channelsOf_append _ _
  | message m inWriting =>
    rw [step, sections_writeMessage]
    exact (append_nil _).symm
  | flush =>
    rw [step, channelsOf_flush]
    exact (append_nil _).symm

theorem channelsOf_run (ops : List WriterOp) :
    channelsOf (ops.foldl step w).sections = channelsOf w.sections ++ channelsIn (callsOf ops) := by
  induction ops generalizing w with
  | nil => exact (append_nil _).symm
  | cons op ops ih =>
    rw [callsOf_cons op ops, channelsIn_append, foldl_cons, ih, channelsOf_step, append_assoc]

end

theorem close_sections {w : RecordFileWriter} (hi : .index ∉ w.sections) :
    ∃ l, w.close.sections = l ++ [.index] ∧ WellFormed l ∧ .index ∉ l ∧
      channelsOf l = channelsOf w.sections := by
  refine ⟨_, rfl, wellFormed _, noIndex_flush (noIndex_flush hi), ?_⟩
  rw [channelsOf_flush]
  exact w.channelsOf_flush

end RecordFileWriter

theorem Recording.file_sections (r : Recording) :
    ∃ l, r.file.sections = l ++ [.index] ∧ WellFormed l ∧ .index ∉ l ∧
      channelsOf l = channelsIn (callsOf r.ops) := by
  obtain ⟨l, hl, hwf, hi, hch⟩ := RecordFileWriter.close_sections
    ((RecordFileWriter.Keeps.openFile r.header).run r.ops).noIndex
  rw [RecordFileWriter.channelsOf_run] at hch
  exact ⟨l, hl, hwf, hi, hch⟩

theorem RecordFile.channels_of_sections {f : RecordFile} {l : List Section}
    (h : f.sections = l ++ [.index]) : f.channels = channelsOf l := by
  rw [RecordFile.channels, h, channelsOf_append]
  exact append_nil _

theorem Recording.file_channels (r : Recording) : r.file.channels = channelsIn (callsOf r.ops) := by
  obtain ⟨l, hl, -, -, hch⟩ := r.file_sections
  exact (RecordFile.channels_of_sections hl).trans hch

theorem Output.spec {calls : List WriterCall} {f : RecordFile} (h : Output calls f)
    (hlt : (messagesIn calls).length < 2 ^ 64) :
    f.messages.Perm (messagesIn calls) ∧ f.channels = channelsIn calls := by
  obtain ⟨ops, rfl, rfl⟩ := h
  refine ⟨?_, Recording.file_channels _⟩
  rw [← writtenBy_eq] at hlt ⊢
  exact Recording.file_messages _ hlt

def writerOp : WriterCall → WriterOp
  | .channel c => .channel c
  | .message m => .message m false

theorem output_exists (calls : List WriterCall) : ∃ f, Output calls f := by
  refine ⟨_, calls.map writerOp, ?_, rfl⟩
  rw [callsOf, filterMap_map]
  refine (filterMap_congr fun call _ => ?_).trans filterMap_some
  cases call <;> rfl

end Record
