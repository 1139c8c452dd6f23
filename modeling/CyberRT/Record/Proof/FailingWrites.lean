import CyberRT.Record.Proof.Index

/-!
# What a failed write leaves

A write that fails at the head of a chunk's header leaves the index and the header, and a chunk that
is written as a whole adds its two entries and is counted (`flushTo_first`, `flushTo_all`).
-/

namespace Record

open Lib List Option

theorem SectionWrite.HeadWritten.take {o : SectionWrite} (h : o.HeadWritten) (type : SectionType)
    (size : Nat) : (SectionHead.encode type size).take o.head = SectionHead.encode type size := by
  refine take_of_length_le ?_
  exact h

namespace FileWriter

variable {c : Codec} {header : Header} {w w' : FileWriter} {oHeader oBody : SectionWrite}

section
variable {type : SectionType} {payload : List UInt8} {o : SectionWrite}

def wrote (w : FileWriter) (bs : List UInt8) : FileWriter :=
  { w with file := w.file.write bs, size := UInt64.ofNat (w.file.position + bs.length) }

theorem writeSectionTo_false (h : ¬ o.HeadWritten) :
    w.writeSectionTo type payload o = (false, { w with
      file := w.file.write ((SectionHead.encode type payload.length).take o.head) }) :=
  if_neg h

theorem writeSectionTo_true (h : o.HeadWritten) : w.writeSectionTo type payload o =
    (true, w.wrote (SectionHead.encode type payload.length ++ payload.take o.payload)) := by
  unfold writeSectionTo
  rw [if_pos h, h.take, ByteFile.write_write]
  rfl

theorem writeSectionTo_complete (h : o.Complete payload) :
    w.writeSectionTo type payload o = (true, w.wrote (frame type payload)) := by
  rw [writeSectionTo_true h.1, take_of_length_le h.2]
  rfl

end

theorem flushTo_first (hne : w.writer.chunkFlush.empty = false) (h : ¬ oHeader.HeadWritten) :
    ∃ bs, w.flushTo c oHeader oBody = { w with
      file := w.file.write bs
      writer := { w.writer with chunkFlush := .clear } } := by
  unfold flushTo writeChunkTo
  rw [dif_pos hne, writeSectionTo_false h]
  exact ⟨_, rfl⟩

def chunkEntries (pos pos' : UInt64) (chunk : ChunkHeader × List SingleMessage) :
    List SingleIndex :=
  [⟨.chunkHeader, pos, .chunkHeader chunk.1.messageNumber chunk.1.beginTime chunk.1.endTime
      chunk.1.rawSize⟩,
    ⟨.chunkBody, pos', .chunkBody (UInt64.ofNat chunk.2.length)⟩]

theorem writeChunkTo_all {chunk : Chunk} {hc : chunk.header.Covers chunk.body}
    (hHeader : oHeader.Complete (c.chunkHeader chunk.header))
    (hBody : oBody.Complete (c.chunkBody chunk.body)) :
    ∃ pos pos' size, w.writeChunkTo c chunk hc oHeader oBody = (true, { w with
      file := w.file.write (chunkBytes c (chunk.header, chunk.body))
      index := w.index ++ chunkEntries pos pos' (chunk.header, chunk.body)
      size := size
      writer := w.writer.writeChunk chunk hc }) := by
  unfold writeChunkTo
  rw [writeSectionTo_complete hHeader]
  dsimp only
  rw [writeSectionTo_complete hBody]
  dsimp only [addIndex, wrote]
  rw [if_pos ⟨hHeader, hBody⟩, ByteFile.write_write, append_assoc]
  exact ⟨_, _, _, rfl⟩

theorem flushTo_all (hne : w.writer.chunkFlush.empty = false) (h : w.WritesAll c oHeader oBody) :
    ∃ pos pos' size, w.flushTo c oHeader oBody = { w with
      file := w.file.write (chunkBytes c (w.writer.chunkFlush.header, w.writer.chunkFlush.body))
      index := w.index ++
        chunkEntries pos pos' (w.writer.chunkFlush.header, w.writer.chunkFlush.body)
      size := size
      writer := { w.writer.writeChunk w.writer.chunkFlush (Chunk.covers_of_not_empty hne) with
        chunkFlush := .clear } } := by
  obtain ⟨pos, pos', size, hall⟩ := writeChunkTo_all h.1 h.2
  unfold flushTo
  rw [dif_pos hne, hall]
  exact ⟨pos, pos', size, rfl⟩

theorem flushTo_index (hne : w.writer.chunkFlush.empty = false) (h : oHeader.HeadWritten) :
    ∃ e l, (w.flushTo c oHeader oBody).index = w.index ++ e :: l := by
  unfold flushTo writeChunkTo
  rw [dif_pos hne, writeSectionTo_true h]
  dsimp only
  by_cases hb : oBody.HeadWritten
  · rw [writeSectionTo_true hb]
    exact ⟨_, _, append_assoc _ _ _⟩
  · rw [writeSectionTo_false hb]
    exact ⟨_, [], rfl⟩

theorem failsUnchanged_iff (op : FailingOp) : w.FailsUnchanged c op ↔ w.FailsFirst c op := by
  cases op with
  | flush oHeader oBody =>
    refine forall_congr' fun hne => ?_
    constructor
    · intro h
      by_contra hnot
      rw [not_or, not_not] at hnot
      obtain ⟨e, l, hindex⟩ := flushTo_index hne hnot.2
      rw [(h hnot.1).1] at hindex
      have hlen := congrArg List.length hindex
      grind
    · intro h hall
      obtain ⟨bs, hbs⟩ := flushTo_first hne (h.resolve_left hall)
      rw [hbs]
      exact ⟨rfl, rfl⟩
  | channel channel o => exact Iff.rfl
  | message m inWriting => exact Iff.rfl
  | swap => exact Iff.rfl

section
variable {chunks chunks' : List (ChunkHeader × List SingleMessage)} {l l' : List SingleIndex}

theorem Followed.mono (h : Followed chunks l) (hsub : chunks ⊆ chunks') : Followed chunks' l := by
  intro pre e suf hl he
  obtain ⟨chunk, hmem, hrest⟩ := h pre e suf hl he
  exact ⟨chunk, hsub hmem, hrest⟩

theorem Followed.append (h : Followed chunks l) (h' : Followed chunks l') :
    Followed chunks (l ++ l') := by
  intro pre e suf hl he
  obtain ⟨bs, -, hbs⟩ | ⟨bs, rfl, hbs⟩ := append_eq_append_iff.1 hl
  · exact h' bs e suf hbs he
  · cases bs with
    | nil => exact h' [] e suf hbs.symm he
    | cons b bs =>
      obtain ⟨rfl, rfl⟩ := List.cons.inj hbs
      obtain ⟨chunk, hmem, hcache, e', suf', rfl, hbody⟩ := h pre e bs rfl he
      exact ⟨chunk, hmem, hcache, e', suf' ++ l', rfl, hbody⟩

theorem followed_of_forall (h : ∀ e ∈ l, e.type ≠ .chunkHeader) : Followed chunks l := by
  intro pre e suf hl he
  grind

theorem followed_chunkEntries {chunk : ChunkHeader × List SingleMessage} (hmem : chunk ∈ chunks)
    (pos pos' : UInt64) : Followed chunks (chunkEntries pos pos' chunk) := by
  intro pre e suf hl he
  cases pre with
  | nil =>
    obtain ⟨rfl, rfl⟩ := List.cons.inj hl
    exact ⟨chunk, hmem, rfl, _, [], rfl, rfl, rfl⟩
  | cons b pre =>
    -- what is left is the entry of the body
    obtain ⟨-, hl⟩ := List.cons.inj (show _ :: _ = b :: (pre ++ e :: suf) from hl)
    have hbody : e ∈ pre ++ e :: suf := mem_append_right _ mem_cons_self
    grind

end

structure Inv (c : Codec) (header : Header) (w : FileWriter) : Prop where
  entries : Followed w.chunks w.index
  chunkNumber : w.writer.header.chunkNumber = header.chunkNumber + UInt64.ofNat w.chunks.length
  messageNumber : w.writer.header.messageNumber =
    header.messageNumber + UInt64.ofNat (w.chunks.flatMap Prod.snd).length
  behind : ∀ chunk ∈ w.chunks, ∃ pos,
    pos + (chunkBytes c chunk).length ≤ w.file.position ∧ At w.file.content pos (chunkBytes c chunk)
  noIndex : .index ∉ w.writer.sections

theorem Inv.consistent (h : Inv c header w) : w.Consistent c header where
  entries := h.entries
  chunkNumber := h.chunkNumber
  messageNumber := h.messageNumber
  stored chunk hmem := by
    obtain ⟨pos, -, hat⟩ := h.behind chunk hmem
    exact ⟨pos, hat⟩

theorem inv_opened (c : Codec) (header : Header) (file : ByteFile) (size : UInt64) :
    Inv c header (opened header file size) where
  entries := followed_of_forall nofun
  chunkNumber := (UInt64.add_zero _).symm
  messageNumber := (UInt64.add_zero _).symm
  behind := nofun
  noIndex := nofun

theorem behind_write {file : ByteFile} {bs : List UInt8}
    (h : ∃ pos, pos + bs.length ≤ file.position ∧ At file.content pos bs) (bs' : List UInt8) :
    ∃ pos, pos + bs.length ≤ (file.write bs').position ∧ At (file.write bs').content pos bs := by
  obtain ⟨pos, hle, hat⟩ := h
  exact ⟨pos, Nat.le_trans hle (Nat.le_add_right _ _), hat.write (.inl hle)⟩

section
variable (h : Inv c header w)
include h

theorem Inv.frame (hfile : w'.file = w.file ∨ ∃ bs, w'.file = w.file.write bs)
    (hindex : ∃ l, w'.index = w.index ++ l ∧ ∀ e ∈ l, e.type ≠ .chunkHeader)
    (hchunks : w'.chunks = w.chunks)
    (hnumber : w'.writer.header.chunkNumber = w.writer.header.chunkNumber)
    (hmessages : w'.writer.header.messageNumber = w.writer.header.messageNumber)
    (hno : .index ∉ w'.writer.sections) : Inv c header w' where
  entries := by
    obtain ⟨l, hl, hne⟩ := hindex
    rw [hchunks, hl]
    exact h.entries.append (followed_of_forall hne)
  chunkNumber := by rw [hnumber, hchunks, h.chunkNumber]
  messageNumber := by rw [hmessages, hchunks, h.messageNumber]
  behind := by
    intro chunk hmem
    rw [hchunks] at hmem
    have hbehind := h.behind chunk hmem
    rcases hfile with hfile | ⟨bs, hfile⟩
    · rw [hfile]
      exact hbehind
    · rw [hfile]
      exact behind_write hbehind bs
  noIndex := hno

theorem Inv.writeChannelTo (channel : Channel) (o : SectionWrite) :
    Inv c header (w.writeChannelTo c channel o).2 := by
  unfold FileWriter.writeChannelTo
  by_cases ho : o.HeadWritten
  · rw [writeSectionTo_true ho]
    refine h.frame (.inr ⟨_, rfl⟩) ⟨[_], rfl, ?_⟩ ?_ ?_ ?_ ?_
    · grind
    · dsimp only [chunks, addIndex, wrote]
      split
      · rw [RecordFileWriter.writeChannel, chunksOf_append w.writer.wellFormed h.noIndex]
        exact append_nil _
      · rfl
    · dsimp only
      split
      · rfl
      · rfl
    · dsimp only
      split
      · rfl
      · rfl
    · dsimp only [addIndex, wrote]
      split
      · simpa [RecordFileWriter.writeChannel] using h.noIndex
      · exact h.noIndex
  · rw [writeSectionTo_false ho]
    exact h.frame (.inr ⟨_, rfl⟩) ⟨[], (append_nil _).symm, by simp⟩ rfl rfl rfl h.noIndex

theorem Inv.writeMessage (m : SingleMessage) (inWriting : Bool) :
    Inv c header (w.writeMessage m inWriting) := by
  have hsections : (w.writeMessage m inWriting).writer.sections = w.writer.sections :=
    RecordFileWriter.sections_writeMessage w.writer m inWriting
  have hheader : (w.writeMessage m inWriting).writer.header = w.writer.header := by
    unfold FileWriter.writeMessage RecordFileWriter.writeMessage
    grind
  refine h.frame (.inl rfl) ⟨[], (append_nil _).symm, by simp⟩ ?_ ?_ ?_ ?_
  · rw [chunks, chunks, hsections]
  · rw [hheader]
  · rw [hheader]
  · rw [hsections]
    exact h.noIndex

theorem Inv.flushTo_all (hne : w.writer.chunkFlush.empty = false)
    (hall : w.WritesAll c oHeader oBody) : Inv c header (w.flushTo c oHeader oBody) := by
  obtain ⟨pos, pos', size, heq⟩ := FileWriter.flushTo_all hne hall
  have hchunks : (w.flushTo c oHeader oBody).chunks =
      w.chunks ++ [(w.writer.chunkFlush.header, w.writer.chunkFlush.body)] := by
    rw [heq]
    exact chunksOf_append w.writer.wellFormed h.noIndex _
  refine ⟨?_, ?_, ?_, ?_, ?_⟩
  · rw [hchunks, heq]
    refine (h.entries.mono (subset_append_left _ _)).append (followed_chunkEntries ?_ pos pos')
    exact mem_append_right _ mem_cons_self
  · rw [hchunks, heq, length_append, UInt64.ofNat_add, ← UInt64.add_assoc, ← h.chunkNumber]
    rfl
  · rw [hchunks, heq, flatMap_append, length_append, UInt64.ofNat_add, ← UInt64.add_assoc,
      ← h.messageNumber, flatMap_singleton, ← w.writer.chunkFlush.messageNumber_eq]
    rfl
  · intro chunk hmem
    rw [hchunks] at hmem
    rw [heq]
    rcases mem_append.1 hmem with hmem | hmem
    · exact behind_write (h.behind chunk hmem) _
    · obtain rfl := mem_singleton.1 hmem
      exact ⟨w.file.position, Nat.le_refl _, w.file.at_write _⟩
  · rw [heq]
    simpa [RecordFileWriter.writeChunk] using h.noIndex

theorem Inv.flushTo_first (hne : w.writer.chunkFlush.empty = false)
    (hfirst : ¬ oHeader.HeadWritten) : Inv c header (w.flushTo c oHeader oBody) := by
  obtain ⟨bs, heq⟩ := FileWriter.flushTo_first hne hfirst
  rw [heq]
  exact h.frame (.inr ⟨bs, rfl⟩) ⟨[], (append_nil _).symm, nofun⟩ rfl rfl rfl h.noIndex

theorem Inv.stepTo (op : FailingOp) (hop : w.FailsFirst c op) : Inv c header (w.stepTo c op) := by
  cases op with
  | channel channel o => exact h.writeChannelTo channel o
  | message m inWriting => exact h.writeMessage m inWriting
  | flush oHeader oBody =>
    by_cases hne : w.writer.chunkFlush.empty = false
    · rcases hop hne with hall | hfirst
      · exact h.flushTo_all hne hall
      · exact h.flushTo_first hne hfirst
    · show Inv c header (w.flushTo c oHeader oBody)
      unfold FileWriter.flushTo
      rw [dif_neg hne]
      exact h
  | swap => exact h.frame (.inl rfl) ⟨[], (append_nil _).symm, nofun⟩ rfl rfl rfl h.noIndex

end

/-- **Index and counts are about the chunks in the file exactly as long as no chunk fails behind its
first write.** -/
theorem unchanged_by_failures_iff (c : Codec) (header : Header) (file : ByteFile) (size : UInt64)
    (ops : List FailingOp) :
    (Along (stepTo c) (FailsUnchanged c) (opened header file size) ops ∧
      Always (stepTo c) (Consistent c header) (opened header file size) ops) ↔
    Along (stepTo c) (FailsFirst c) (opened header file size) ops := by
  have hiff : Along (stepTo c) (FailsUnchanged c) (opened header file size) ops ↔
      Along (stepTo c) (FailsFirst c) (opened header file size) ops := by
    rw [along_iff, along_iff]
    simp only [failsUnchanged_iff]
  rw [hiff, and_iff_left_iff_imp]
  intro h
  exact (h.always (inv_opened c header file size) fun w op hi hop => hi.stepTo op hop).imp
    fun w hi => hi.consistent

/-- The head of the body's section is not written: the chunk's header has an entry, and no body
follows. -/
theorem not_unchanged_bodyFails :
    let header : Header := ⟨0, 1, 0, 0, 0, 0, 0, false⟩
    let ops : List FailingOp :=
      [.message ⟨"a", 5, [1, 2]⟩ false, .flush ⟨16, 100⟩ ⟨0, 0⟩]
    ¬ (Along (stepTo shortCodec) (FailsUnchanged shortCodec) (opened header ⟨[], 0⟩ 0) ops ∧
      Always (stepTo shortCodec) (Consistent shortCodec header) (opened header ⟨[], 0⟩ 0) ops) := by
  intro header ops h
  have hindex : (ops.foldl (stepTo shortCodec) (opened header ⟨[], 0⟩ 0)).index =
      [⟨.chunkHeader, 0, .chunkHeader 1 5 5 2⟩] := by decide +kernel
  obtain ⟨_, _, _, e', suf', hsuf, _⟩ := h.2.last.entries [] _ [] hindex rfl
  cases hsuf

end FileWriter

end Record
