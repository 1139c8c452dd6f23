import Mathlib.Order.Nat
import CyberRT.Lib.Marked
import CyberRT.Record.Proof.Writing
import CyberRT.Record.Proof.Reading

/-!
# The times and numbers in the headers

The header of a chunk has the running minimum and maximum of the times of its body (`Sums`), with 0
for no minimum, and that of the file the first begin time that is not 0, the last end time and the
numbers (`HeaderSums`).
-/

namespace Record

open Lib List UInt64 RecordFileWriter RecordReader HeaderBuilder Chunk

structure ChunkHeader.Sums (h : ChunkHeader) (ms : List SingleMessage) : Prop where
  beginTime : h.beginTime.toNat = (ms.map time).foldl markedMin ⊥
  endTime : h.endTime.toNat = (ms.map time).foldl max ⊥
  messageNumber : h.messageNumber = UInt64.ofNat ms.length

theorem addBegin_toNat (b t : UInt64) : (addBegin b t).toNat = markedMin b.toNat t.toNat := by
  unfold addBegin markedMin
  have hzero : b = 0 ↔ b.toNat = ⊥ := UInt64.toNat_inj.symm
  dsimp only
  by_cases hb : b = 0
  · rw [if_pos hb, if_pos (hzero.1 hb), ite_self]
  · rw [if_neg hb, if_neg (mt hzero.2 hb)]
    split
    · rename_i hgt
      rw [min_eq_right (Nat.le_of_lt (lt_iff_toNat_lt.1 hgt))]
    · rename_i hle
      rw [min_eq_left (le_iff_toNat_le.1 (UInt64.not_lt.1 hle))]

theorem Chunk.sums_clear : clear.header.Sums clear.body := ⟨rfl, rfl, rfl⟩

theorem Chunk.sums_add {c : Chunk} (h : c.header.Sums c.body) (m : SingleMessage) :
    (c.add m).header.Sums (c.add m).body where
  beginTime := by
    rw [add]
    rw [addBegin_toNat, h.beginTime, map_append, foldl_append]
    rfl
  endTime := by
    rw [add]
    rw [map_append, foldl_append, ← h.endTime]
    simp only [map_cons, map_nil, foldl_cons, foldl_nil, time]
    split
    · rename_i hlt
      rw [max_eq_right (Nat.le_of_lt (lt_iff_toNat_lt.1 hlt))]
    · rename_i hle
      rw [max_eq_left (le_iff_toNat_le.1 (UInt64.not_lt.1 hle))]
  messageNumber := (c.add m).messageNumber_eq

structure HeaderSums (h : Header) (l : List Section) : Prop where
  chunks : ∀ c ∈ chunksOf l, c.1.Sums c.2
  beginTime : h.beginTime.toNat =
    ((chunksOf l).map fun c => c.1.beginTime.toNat).foldl markedFirst ⊥
  endTime : ∀ c ∈ (chunksOf l).getLast?, h.endTime = c.1.endTime
  messageNumber : h.messageNumber = UInt64.ofNat ((chunksOf l).flatMap Prod.snd).length
  chunkNumber : h.chunkNumber = UInt64.ofNat (chunksOf l).length
  channelNumber : h.channelNumber = UInt64.ofNat (channelsOf l).length

theorem HeaderSums.of_chunks {h h' : Header} {l l' : List Section} (hsums : HeaderSums h l)
    (hchunks : chunksOf l' = chunksOf l) (hbegin : h'.beginTime = h.beginTime)
    (hend : h'.endTime = h.endTime) (hmessages : h'.messageNumber = h.messageNumber)
    (hnumber : h'.chunkNumber = h.chunkNumber)
    (hchannels : h'.channelNumber = UInt64.ofNat (channelsOf l').length) : HeaderSums h' l' := by
  refine ⟨?_, ?_, ?_, ?_, ?_, hchannels⟩
  all_goals rw [hchunks]
  · exact hsums.chunks
  · rw [hbegin]
    exact hsums.beginTime
  · rw [hend]
    exact hsums.endTime
  · rw [hmessages]
    exact hsums.messageNumber
  · rw [hnumber]
    exact hsums.chunkNumber

namespace RecordFileWriter

structure Sums (w : RecordFileWriter) : Prop where
  header : HeaderSums w.header w.sections
  active : w.chunkActive.header.Sums w.chunkActive.body
  flush : w.chunkFlush.header.Sums w.chunkFlush.body
  noIndex : .index ∉ w.sections

section
variable {w : RecordFileWriter}

section
variable (h : w.Sums)
include h

theorem Sums.writeChannel (c : Channel) : (w.writeChannel c).Sums := by
  have hchunks : chunksOf (w.sections ++ [.channel c]) = chunksOf w.sections := by
    rw [chunksOf_append w.wellFormed h.noIndex]
    exact append_nil _
  have hchannels : channelsOf (w.sections ++ [.channel c]) = channelsOf w.sections ++ [c] :=
    filterMap_append
  refine ⟨h.header.of_chunks hchunks rfl rfl rfl rfl ?_, h.active, h.flush, ?_⟩
  · rw [RecordFileWriter.writeChannel]
    rw [hchannels, length_append, ofNat_add, h.header.channelNumber]
    rfl
  · simpa [RecordFileWriter.writeChannel] using h.noIndex

theorem Sums.writeMessage (m : SingleMessage) (inWriting : Bool) :
    (w.writeMessage m inWriting).Sums := by
  have hadd := sums_add h.active m
  unfold RecordFileWriter.writeMessage
  dsimp only
  split
  · exact ⟨h.header, h.flush, hadd, h.noIndex⟩
  · exact ⟨h.header, hadd, h.flush, h.noIndex⟩

theorem Sums.flushRound : w.flush.Sums := by
  unfold RecordFileWriter.flush
  split
  · have hchunks : chunksOf (w.sections ++ [.chunkHeader w.chunkFlush.header,
        .chunkBody w.chunkFlush.body]) =
          chunksOf w.sections ++ [(w.chunkFlush.header, w.chunkFlush.body)] :=
      chunksOf_append w.wellFormed h.noIndex _
    have hchannels : channelsOf (w.sections ++ [.chunkHeader w.chunkFlush.header,
        .chunkBody w.chunkFlush.body]) = channelsOf w.sections :=
      filterMap_append.trans (append_nil _)
    obtain ⟨⟨h1, h2, h3, h4, h5, h6⟩, hactive, hflush, hindex⟩ := h
    refine ⟨⟨?_, ?_, ?_, ?_, ?_, ?_⟩, hactive, sums_clear, ?_⟩
    all_goals rw [writeChunk]
    · grind
    · rw [hchunks, map_append, foldl_append, ← h2]
      have hzero : w.header.beginTime = 0 ↔ w.header.beginTime.toNat = ⊥ := UInt64.toNat_inj.symm
      simp only [map_cons, map_nil, foldl_cons, foldl_nil, markedFirst]
      grind
    · grind
    · rw [hchunks, flatMap_append, length_append, ofNat_add, h4]
      simp [hflush.messageNumber]
    · rw [hchunks, length_append, ofNat_add, h5]
      rfl
    all_goals grind
  · exact h

theorem Sums.step (op : WriterOp) : (w.step op).Sums := by
  cases op with
  | channel c => exact h.writeChannel c
  | message m inWriting => exact h.writeMessage m inWriting
  | flush => exact h.flushRound

theorem Sums.close : HeaderSums w.close.header w.close.sections := by
  have h1 := h.flushRound
  have h2 : Sums { w.flush with
      chunkActive := w.flush.chunkFlush, chunkFlush := w.flush.chunkActive } :=
    ⟨h1.header, h1.flush, h1.active, h1.noIndex⟩
  have h3 := h2.flushRound
  unfold RecordFileWriter.close
  dsimp only
  generalize RecordFileWriter.flush _ = v at h3
  have hchunks : chunksOf (v.sections ++ [.index]) = chunksOf v.sections :=
    (chunksOf_append v.wellFormed h3.noIndex _).trans (append_nil _)
  have hchannels : channelsOf (v.sections ++ [.index]) = channelsOf v.sections :=
    filterMap_append.trans (append_nil _)
  refine h3.header.of_chunks hchunks rfl rfl rfl rfl ?_
  rw [hchannels]
  exact h3.header.channelNumber

end

end

end RecordFileWriter

theorem sums_openFile (chunkInterval chunkRawSize : UInt64) :
    (openFile
      (getHeaderWithChunkParams chunkInterval chunkRawSize)).Sums where
  header := ⟨nofun, rfl, nofun, rfl, rfl, rfl⟩
  active := sums_clear
  flush := sums_clear
  noIndex := nofun

theorem Recording.sums {r : Recording} {chunkInterval chunkRawSize : UInt64}
    (h : r.header = getHeaderWithChunkParams chunkInterval chunkRawSize) :
    HeaderSums r.file.header r.file.sections := by
  refine RecordFileWriter.Sums.close ?_
  rw [h]
  exact List.foldlRecOn r.ops step (sums_openFile chunkInterval chunkRawSize)
    fun _ hw op _ => hw.step op

section
variable {f : RecordFile} {c : ChunkHeader × List SingleMessage}

theorem body_ne_nil (hc : c ∈ f.chunks) : c.2.map time ≠ [] := by
  obtain ⟨m, hm, -⟩ := (chunksOf_covers f.wellFormed c hc).begin_mem
  exact ne_nil_of_mem (mem_map_of_mem hm)

theorem HeaderSums.spans_iff (h : HeaderSums f.header f.sections) (hc : c ∈ f.chunks) :
    Spans c.1.beginTime c.1.endTime c.2 ↔
      (0 ∈ c.2.map time → (c.2.map time).getLast? = some 0) := by
  have hne := body_ne_nil hc
  have hsums := h.chunks c hc
  rw [Spans, hsums.beginTime, hsums.endTime, isLeast_markedMin_iff hne]
  exact and_iff_left (isGreatest_foldl_max hne)

theorem map_time_messages (f : RecordFile) :
    f.messages.map time = f.chunks.flatMap fun c => c.2.map time := by
  rw [RecordFile.messages, map_flatMap]

section
variable (h : HeaderSums f.header f.sections)
include h

section
variable (hcs : f.chunks ≠ [])
include hcs

theorem HeaderSums.begin_iff
    (hleast : ∀ c ∈ f.chunks, IsLeast {t | t ∈ c.2.map time} c.1.beginTime.toNat) :
    IsLeast {t | t ∈ f.messages.map time} f.header.beginTime.toNat ↔
      (∀ c ∈ f.chunks, 0 ∈ c.2.map time → ∀ c' ∈ f.chunks, 0 ∈ c'.2.map time) ∧
        ((∀ c ∈ f.chunks, 0 ∉ c.2.map time) → ∀ c ∈ f.chunks.head?, ∀ m ∈ f.messages,
          ∃ m' ∈ c.2, time m' ≤ time m) := by
  -- a chunk begins at 0 if it has a message of time 0
  have hzero : ∀ c ∈ f.chunks, c.1.beginTime.toNat = 0 ↔ 0 ∈ c.2.map time := by
    intro c hc
    refine ⟨fun hb => hb ▸ (hleast c hc).1, fun h0 => ?_⟩
    exact Nat.le_zero.1 ((hleast c hc).2 h0)
  have hbot : ⊥ ∈ (f.chunks.map fun c => c.1.beginTime.toNat) ↔
      ∃ c ∈ f.chunks, 0 ∈ c.2.map time := by
    grind
  rw [map_time_messages, isLeast_flatMap_iff hleast, h.beginTime]
  rw [show chunksOf f.sections = f.chunks from rfl, isLeast_markedFirst_iff (by simpa using hcs),
    hbot]
  refine and_congr ⟨fun hall c hc h0 c' hc' => ?_, fun hall ⟨c, hc, h0⟩ t ht => ?_⟩
    ⟨fun hhead hno c hc m hm => ?_, fun hhead hno a ha t ht => ?_⟩
  · exact (hzero c' hc').1 (hall ⟨c, hc, h0⟩ _ (mem_map.2 ⟨c', hc', rfl⟩))
  · grind
  · have hno' : ¬ ∃ c ∈ f.chunks, 0 ∈ c.2.map time := fun ⟨c, hc, h0⟩ => hno c hc h0
    obtain ⟨c', hc', hm'⟩ := mem_flatMap.1 hm
    have hle := hhead hno' c.1.beginTime.toNat (by rw [head?_map, hc]; rfl) _
      (mem_map.2 ⟨c', hc', rfl⟩)
    obtain ⟨m', hm'', htime⟩ := mem_map.1 (hleast c (mem_of_head? hc)).1
    refine ⟨m', hm'', ?_⟩
    rw [htime]
    exact hle.trans ((hleast c' hc').2 (mem_map_of_mem hm'))
  · rw [head?_map] at ha
    obtain ⟨c, hc, rfl⟩ := Option.map_eq_some_iff.1 ha
    obtain ⟨c', hc', rfl⟩ := mem_map.1 ht
    obtain ⟨m, hm, htime⟩ := mem_map.1 (hleast c' hc').1
    obtain ⟨m', hm', hle⟩ := hhead (fun c hc h0 => hno ⟨c, hc, h0⟩) c hc m
      (mem_flatMap.2 ⟨c', hc', hm⟩)
    rw [← htime]
    exact ((hleast c (mem_of_head? hc)).2 (mem_map_of_mem hm')).trans hle

theorem HeaderSums.end_iff :
    IsGreatest {t | t ∈ f.messages.map time} f.header.endTime.toNat ↔
      ∀ c ∈ f.chunks.getLast?, ∀ m ∈ f.messages, ∃ m' ∈ c.2, time m ≤ time m' := by
  obtain ⟨c, hc⟩ : ∃ c, f.chunks.getLast? = some c := ⟨_, getLast?_eq_some_getLast hcs⟩
  have hmem := mem_of_getLast? hc
  have hgreatest : IsGreatest {t | t ∈ c.2.map time} f.header.endTime.toNat := by
    rw [h.endTime c hc, (h.chunks c hmem).endTime]
    exact isGreatest_foldl_max (body_ne_nil hmem)
  refine ⟨fun hall c' hc' m hm => ?_, fun hlast => ⟨?_, ?_⟩⟩
  · rw [hc] at hc'
    cases hc'
    obtain ⟨m', hm', htime⟩ := mem_map.1 hgreatest.1
    exact ⟨m', hm', htime ▸ hall.2 (mem_map_of_mem hm)⟩
  · obtain ⟨m', hm', htime⟩ := mem_map.1 hgreatest.1
    exact mem_map.2 ⟨m', mem_flatMap.2 ⟨c, hmem, hm'⟩, htime⟩
  · intro t ht
    obtain ⟨m, hm, rfl⟩ := mem_map.1 ht
    obtain ⟨m', hm', hle⟩ := hlast c hc m hm
    exact hle.trans (hgreatest.2 (mem_map_of_mem hm'))

theorem HeaderSums.accurate_iff_timesKept : Accurate f ↔ TimesKept (f.chunks.map Prod.snd) := by
  have hflat : (f.chunks.map Prod.snd).flatten = f.messages := flatMap_def.symm
  have hhead : ∀ {ms}, ms ∈ (f.chunks.map Prod.snd).head? ↔ ∃ c ∈ f.chunks.head?, c.2 = ms := by
    rw [head?_map]
    exact Option.map_eq_some_iff
  have hlast : ∀ {ms}, ms ∈ (f.chunks.map Prod.snd).getLast? ↔
      ∃ c ∈ f.chunks.getLast?, c.2 = ms := by
    grind
  constructor
  · intro hacc
    have hleast := fun c hc => (hacc.chunks c hc).1
    obtain ⟨hzeros, hfirst⟩ := (h.begin_iff hcs hleast).1 hacc.times.1
    have hend := (h.end_iff hcs).1 hacc.times.2
    refine ⟨?_, ?_, ?_, ?_⟩
    · intro ms hms
      obtain ⟨c, hc, rfl⟩ := mem_map.1 hms
      exact (h.spans_iff hc).1 (hacc.chunks c hc)
    all_goals grind
  · intro hkept
    have hspans : ∀ c ∈ f.chunks, Spans c.1.beginTime c.1.endTime c.2 := fun c hc =>
      (h.spans_iff hc).2 (hkept.zeroLast c.2 (mem_map_of_mem hc))
    have hbegin := (h.begin_iff hcs fun c hc => (hspans c hc).1).2 ⟨fun c hc h0 c' hc' =>
        hkept.zeros c.2 (mem_map_of_mem hc) h0 c'.2 (mem_map_of_mem hc'),
      fun hno c hc m hm => hkept.first (forall_mem_map.2 hno) c.2 (hhead.2 ⟨c, hc, rfl⟩) m
        (hflat ▸ hm)⟩
    have hend := (h.end_iff hcs).2 fun c hc m hm =>
      hkept.last c.2 (hlast.2 ⟨c, hc, rfl⟩) m (hflat ▸ hm)
    exact ⟨⟨hbegin, hend⟩, h.messageNumber, h.chunkNumber, h.channelNumber, hspans⟩

end

end

end

theorem Recording.chunks_ne_nil {r : Recording} (hne : writtenBy r.ops ≠ [])
    (hlt : (writtenBy r.ops).length < 2 ^ 64) : r.file.chunks ≠ [] := by
  intro hnil
  have hperm := r.file_messages hlt
  rw [RecordFile.messages, hnil] at hperm
  exact hne hperm.symm.eq_nil

/-- **When the headers of a recorded file are accurate.** -/
theorem accurate_iff {r : Recording} {chunkInterval chunkRawSize : UInt64}
    (hheader : r.header = getHeaderWithChunkParams chunkInterval chunkRawSize)
    (hne : writtenBy r.ops ≠ []) (hlt : (writtenBy r.ops).length < 2 ^ 64) :
    Accurate r.file ↔ TimesKept (r.file.chunks.map Prod.snd) :=
  (Recording.sums hheader).accurate_iff_timesKept (Recording.chunks_ne_nil hne hlt)

def recordingOf (chunkInterval : UInt64) (times : List UInt64) : Recording :=
  ⟨getHeaderWithChunkParams chunkInterval 0,
    times.map fun t => .message ⟨"/test/channel1", t, []⟩ false⟩

theorem accurate_iff_ordered : Accurate (recordingOf 10 [5, 6, 20]).file ↔
    TimesKept ((recordingOf 10 [5, 6, 20]).file.chunks.map Prod.snd) :=
  accurate_iff rfl (by decide) (by decide)

/-- A time 0 that is lost in the header of its chunk, and a chunk with times that are earlier than
those of the chunk before it. -/
theorem not_accurate_zero_nor_reverse :
    ¬ Accurate (recordingOf 10 [0, 5]).file ∧ ¬ Accurate (recordingOf 10 [20, 31, 5]).file := by
  refine ⟨fun h => ?_, fun h => ?_⟩
  · exact absurd (h.times.1.2 (show 0 ∈ _ by decide +kernel)) (by decide +kernel)
  · exact absurd (h.times.2.2 (show 31 ∈ _ by decide +kernel)) (by decide +kernel)

/-!
## Files are read in the order they are written in

What a writer has, from the begin of its file to the active chunk (`allMessages`), is in the order
of writing as long as each message is written in turn.
-/

namespace RecordFileWriter

variable {w : RecordFileWriter} {ms : List SingleMessage} {ops : List WriterOp} {op : WriterOp}

theorem allMessages_writeMessage (w : RecordFileWriter) (m : SingleMessage) (inWriting : Bool) :
    (w.writeMessage m inWriting).allMessages =
      if w.needFlush m inWriting then
        (chunksOf w.sections).flatMap Prod.snd ++ (w.chunkActive.body ++ [m] ++ w.chunkFlush.body)
      else w.allMessages ++ [m] := by
  rw [writeMessage_eq]
  split
  · rfl
  · simp [allMessages, add]

theorem allMessages_step (hi : .index ∉ w.sections) (h : w.InTurn op) :
    (w.step op).allMessages = w.allMessages ++ writtenBy [op] := by
  cases op with
  | channel c =>
    rw [show writtenBy [.channel c] = [] from rfl, append_nil]
    exact allMessages_writeChannel hi c
  | flush =>
    rw [show writtenBy [.flush] = [] from rfl, append_nil]
    exact allMessages_flush hi
  | message m inWriting =>
    rw [step, allMessages_writeMessage]
    split
    · rename_i hneed
      rw [allMessages, h hneed, append_nil, nil_append, ← append_assoc]
      rfl
    · rfl

theorem inTurn_of_step (hnodup : (ms ++ writtenBy [op]).Nodup)
    (h : (w.step op).allMessages = ms ++ writtenBy [op]) : w.InTurn op := by
  cases op with
  | channel c => exact trivial
  | flush => exact trivial
  | message m inWriting =>
    intro hneed
    rw [step, allMessages_writeMessage, if_pos hneed] at h
    by_contra hne
    -- the last message is the one just written, and it is one of the older ones
    have hlast : w.chunkFlush.body.getLast hne = m := by
      have hl := congrArg List.getLast? h
      have hm : (ms ++ writtenBy [.message m inWriting]).getLast? = some m := getLast?_concat
      rw [hm, getLast?_append_of_ne_nil _ (by simp), getLast?_append_of_ne_nil _ hne,
        getLast?_eq_some_getLast hne] at hl
      exact Option.some.inj hl
    grind

section
variable (hi : .index ∉ w.sections)
include hi

theorem noIndex_step (op : WriterOp) : .index ∉ (w.step op).sections := by
  have hkeeps : Keeps w w.allMessages := ⟨.refl _, hi⟩
  exact (hkeeps.step op).noIndex

theorem allMessages_run (h : Along step InTurn w ops) :
    (ops.foldl step w).allMessages = w.allMessages ++ writtenBy ops := by
  induction ops generalizing w with
  | nil => exact (append_nil _).symm
  | cons op ops ih =>
    rw [foldl_cons, ih (noIndex_step hi op) h.2, allMessages_step hi h.1, append_assoc,
      ← writtenBy_cons]

theorem inTurn_of_run (hnodup : (ms ++ writtenBy ops).Nodup)
    (h : (ops.foldl step w).allMessages = ms ++ writtenBy ops) :
    w.allMessages = ms ∧ Along step InTurn w ops := by
  induction ops generalizing w ms with
  | nil =>
    rw [show writtenBy [] = [] from rfl, append_nil] at h
    exact ⟨h, trivial⟩
  | cons op ops ih =>
    rw [writtenBy_cons, ← append_assoc] at h hnodup
    obtain ⟨hall, halong⟩ := ih (noIndex_step hi op) hnodup h
    have hop := inTurn_of_step (List.Nodup.of_append_left hnodup) hall
    rw [allMessages_step hi hop] at hall
    exact ⟨append_cancel_right hall, hop, halong⟩

end

end RecordFileWriter

/-- **A file is in the order of writing if all of its messages are written in turn**, and if no
message is written twice, only then. -/
theorem Recording.file_messages_inOrder (r : Recording) (hlt : (writtenBy r.ops).length < 2 ^ 64) :
    (r.AllInTurn → r.file.messages = writtenBy r.ops) ∧
      ((writtenBy r.ops).Nodup → r.file.messages = writtenBy r.ops → r.AllInTurn) := by
  have h0 := Keeps.openFile r.header
  have hkeeps := h0.run r.ops
  have hfile : r.file.messages = _ := close_messages hkeeps.noIndex
    (by rw [hkeeps.all.length_eq]; exact hlt)
  rw [hfile]
  refine ⟨allMessages_run h0.noIndex, fun hnodup h => ?_⟩
  rw [← nil_append (writtenBy r.ops)] at hnodup h
  exact (inTurn_of_run h0.noIndex hnodup h).2

namespace RecordReader

variable {b e : UInt64}

theorem readAll_spec (hbe : b ≤ e) {n : Nat} {r : RecordReader} (hr : r.Ok)
    (hov : Overlaps r.header (window b e)) (hn : (entries r.items).length < n) :
    r.readAll b e n = some (pass time (window b e) r.items).1 := by
  induction n generalizing r with
  | zero => cases hn
  | succ n ih =>
    obtain ⟨hnext, hkeeps⟩ := readMessage_spec hbe hr hov
    rw [readAll]
    split
    · rename_i r' hread
      rw [hread] at hnext
      rw [pass_of_next_none time hnext]
    · rename_i m r' hread
      rw [hread] at hnext hkeeps
      have hlt := next_entries_length time hnext
      have hov' : Overlaps r'.header (window b e) := by
        rw [header, hkeeps.file]
        exact hov
      rw [pass_of_next_some time hnext, ih hkeeps.ok hov' (by omega)]
      rfl

end RecordReader

theorem time_mem_window (t : UInt64) :
    (window 0 maxTime).lo ≤ t.toNat ∧ t.toNat ≤ (window 0 maxTime).hi :=
  ⟨Nat.zero_le _, Nat.le_of_lt_succ t.toNat_lt⟩

theorem pass_openReader (f : RecordFile) :
    (pass time (window 0 maxTime) (openReader f).items).1 = f.messages := by
  have hitems : (openReader f).items =
      chunkItems (f.chunks.map fun c => (c.1.beginTime.toNat, c.2)) :=
    sectionItems_eq f.wellFormed
  rw [hitems, pass_all, entries_chunkItems, flatMap_map]
  · rfl
  · intro t ht
    obtain ⟨c, hc, ht⟩ := mem_flatMap.1 ht
    obtain ⟨c', -, rfl⟩ := mem_map.1 hc
    have hgate : t = c'.1.beginTime.toNat := by simpa using ht
    rw [hgate]
    exact (time_mem_window _).2
  · exact fun m _ => time_mem_window m.time

theorem returns_iff {f : RecordFile} {ms : List SingleMessage} :
    Returns f ms ↔ f.messages = ms := by
  have hread : ∀ {n}, (entries (openReader f).items).length < n →
      (openReader f).readAll 0 maxTime n = some f.messages := by
    intro n hn
    have hspec := readAll_spec (b := 0) (e := maxTime) (by decide)
      (r := openReader f) ⟨rfl, .inl f.wellFormed⟩
      ⟨Nat.zero_le _, (time_mem_window _).2⟩ hn
    rw [hspec, pass_openReader]
  constructor
  · rintro ⟨fuel, h⟩
    have hn := h (max fuel ((entries (openReader f).items).length + 1))
      (Nat.le_max_left _ _)
    grind
  · rintro rfl
    exact ⟨_, fun n hn => hread hn⟩

/-- **What a reader returns of a recording**: the messages that were written, each once and in the
order they were written in, if all of them were written in turn; and of messages that are all
different, only then. -/
theorem returns_written_iff (r : Recording) (hlt : (writtenBy r.ops).length < 2 ^ 64) :
    (r.AllInTurn → Returns r.file (writtenBy r.ops)) ∧
      ((writtenBy r.ops).Nodup → Returns r.file (writtenBy r.ops) → r.AllInTurn) := by
  rw [returns_iff]
  exact r.file_messages_inOrder hlt

def inTurnRecording : Recording :=
  ⟨getHeaderWithChunkParams 10 0,
    [.message ⟨"/test/channel1", 1, []⟩ false, .message ⟨"/test/channel1", 20, []⟩ false, .flush,
      .message ⟨"/test/channel1", 21, []⟩ false, .message ⟨"/test/channel1", 40, []⟩ false]⟩

theorem returns_written_inTurn :
    inTurnRecording.AllInTurn ∧ Returns inTurnRecording.file (writtenBy inTurnRecording.ops) := by
  have h : inTurnRecording.AllInTurn := by
    unfold Recording.AllInTurn
    decide +kernel
  exact ⟨h, (returns_written_iff inTurnRecording (by decide)).1 h⟩

/-- Two chunks become full before the flush thread comes to the first: the second is written to the
file before it. -/
theorem not_returns_overtaken :
    ¬ Returns (recordingOf 10 [1, 20, 21, 40]).file
      (writtenBy (recordingOf 10 [1, 20, 21, 40]).ops) := by
  rw [returns_iff]
  decide +kernel

end Record
