import CyberRT.Record.FailingWrites
import CyberRT.Record.Proof.Writing

/-!
# The index is accurate

The file has the sections that were written, one behind the other from the end of the header's room
on, and the index has an entry for each at its place (`Placed`), which every call and every round of
the flush thread keeps (`step_spec`).
-/

namespace Record

open Lib List Option UInt64 RecordFileReader FileWriter Nat

variable {ms : List SingleMessage} {n pos : Nat} {s : Section}

def Section.entry (number : String → UInt64) (pos : Nat) : Section → List SingleIndex
  | .channel ch => [⟨.channel, UInt64.ofNat pos,
      .channel (number ch.name) ch.name ch.messageType ch.protoDesc⟩]
  | .chunkHeader h => [⟨.chunkHeader, UInt64.ofNat pos,
      .chunkHeader h.messageNumber h.beginTime h.endTime h.rawSize⟩]
  | .chunkBody ms => [⟨.chunkBody, UInt64.ofNat pos, .chunkBody (UInt64.ofNat ms.length)⟩]
  | .index => []

def entriesFrom (c : Codec) (number : String → UInt64) : Nat → List Section → List SingleIndex
  | _, [] => []
  | pos, s :: l => s.entry number pos ++ entriesFrom c number (pos + (c.bytes [] s).length) l

theorem entriesFrom_append (c : Codec) (number : String → UInt64) (pos : Nat)
    (l l' : List Section) :
    entriesFrom c number pos (l ++ l') = entriesFrom c number pos l ++
      entriesFrom c number (pos + (l.flatMap (c.bytes [])).length) l' := by
  induction l generalizing pos with
  | nil => rfl
  | cons s l ih =>
    rw [cons_append, entriesFrom, entriesFrom, ih, flatMap_cons, length_append,
      append_assoc, add_assoc]

theorem mem_entriesFrom_channel {c : Codec} {number : String → UInt64}
    {l : List Section} {e : SingleIndex} (he : e ∈ entriesFrom c number pos l)
    (ht : e.type = .channel) : ∃ ch, .channel ch ∈ l ∧
      e.cache = .channel (number ch.name) ch.name ch.messageType ch.protoDesc := by
  induction l generalizing pos with
  | nil => cases he
  | cons s l ih =>
    rcases mem_append.1 he with he | he
    · cases s with
      | channel ch =>
        obtain rfl := mem_singleton.1 he
        exact ⟨ch, mem_cons_self, rfl⟩
      | chunkHeader h =>
        obtain rfl := mem_singleton.1 he
        cases ht
      | chunkBody ms =>
        obtain rfl := mem_singleton.1 he
        cases ht
      | index => cases he
    · grind

theorem map_fillIndex (w : FileWriter) (c : Codec) (pos : Nat) (l : List Section) :
    (entriesFrom c (fun _ => 0) pos l).map w.fillIndex =
      entriesFrom c (fun name => (w.channelMessageNumberMap name).getD 0) pos l := by
  induction l generalizing pos with
  | nil => rfl
  | cons s l ih =>
    rw [entriesFrom, entriesFrom, map_append, ih]
    cases s with
    | channel ch =>
      rw [Section.entry, Section.entry, map_singleton, fillIndex]
      grind
    | chunkHeader h => rfl
    | chunkBody ms => rfl
    | index => rfl

theorem bytes_eq (c : Codec) (index : List SingleIndex) (hs : s ≠ .index) :
    c.bytes index s = c.bytes [] s := by
  cases s with
  | channel ch => rfl
  | chunkHeader h => rfl
  | chunkBody ms => rfl
  | index => exact absurd rfl hs

theorem flatMap_bytes_eq (c : Codec) (index : List SingleIndex) {l : List Section}
    (hl : .index ∉ l) : l.flatMap (c.bytes index) = l.flatMap (c.bytes []) :=
  flatMap_congr fun _ hs => bytes_eq c index fun h => hl (h ▸ hs)

structure Placed (c : Codec) (file : ByteFile) (index : List SingleIndex) (l : List Section) :
    Prop where
  position : file.position = sectionsBegin + (l.flatMap (c.bytes [])).length
  small : file.position < 2 ^ 63
  sections : At file.content sectionsBegin (l.flatMap (c.bytes []))
  index_eq : index = entriesFrom c (fun _ => 0) sectionsBegin l

theorem Placed.add {c : Codec} {file : ByteFile} {index : List SingleIndex} {l : List Section}
    (h : Placed c file index l) (s : Section)
    (hlt : file.position + (c.bytes [] s).length < 2 ^ 63) :
    Placed c (file.write (c.bytes [] s)) (index ++ s.entry (fun _ => 0) file.position)
      (l ++ [s]) where
  position := by
    rw [flatMap_append, flatMap_singleton, length_append, ← add_assoc, ← h.position]
    rfl
  small := hlt
  sections := by
    rw [flatMap_append, flatMap_singleton, at_append, ← h.position]
    exact ⟨h.sections.write (.inl (le_of_eq h.position.symm)), file.at_write _⟩
  index_eq := by
    rw [entriesFrom_append, ← h.position, ← h.index_eq, entriesFrom, entriesFrom, append_nil]

theorem writeBytes_eq {file file' : ByteFile} {bs : List UInt8}
    (h : writeBytes file bs = some file') :
    file' = file.write bs ∧ file.position + bs.length < 2 ^ 63 := by
  unfold writeBytes at h
  grind

namespace FileWriter

variable {c : Codec} {w w' : FileWriter}

theorem writeSection_eq {type : SectionType} {payload : List UInt8}
    (h : w.writeSection type payload = some w') (ht : type ≠ .header) :
    w.file.position + (frame type payload).length < 2 ^ 63 ∧
      ∃ size, w' = { w with file := w.file.write (frame type payload), size := size } := by
  unfold writeSection at h
  rw [if_neg ht] at h
  obtain ⟨file1, h1, h⟩ := bind_eq_some_iff.1 h
  obtain ⟨file2, h2, h⟩ := bind_eq_some_iff.1 h
  obtain ⟨rfl, -⟩ := writeBytes_eq h1
  obtain ⟨rfl, hlt⟩ := writeBytes_eq h2
  rw [writeBlank, if_neg ht] at h
  rw [ByteFile.write_write] at h
  cases h
  rw [frame, length_append, ← add_assoc]
  exact ⟨hlt, _, rfl⟩

theorem writeHeader_eq (h : w.writeHeader c = some w') :
    ∃ bs size, bs.length = sectionsBegin ∧ frame .header (c.header w.fileHeader) <+: bs ∧
      w' = { w with file := (w.file.seek 0).write bs, size := size } := by
  unfold writeHeader writeSection at h
  obtain ⟨file1, h1, h⟩ := bind_eq_some_iff.1 h
  obtain ⟨file2, h2, h⟩ := bind_eq_some_iff.1 h
  obtain ⟨file3, h3, h⟩ := bind_eq_some_iff.1 h
  rw [writeBlank, if_pos rfl] at h3
  split at h3
  · rename_i hle
    obtain ⟨rfl, -⟩ := writeBytes_eq h1
    obtain ⟨rfl, -⟩ := writeBytes_eq h2
    obtain ⟨rfl, -⟩ := writeBytes_eq h3
    rw [ByteFile.write_write, ByteFile.write_write, ← append_assoc] at h
    cases h
    refine ⟨frame .header (c.header w.fileHeader) ++
      blank.take (headerLength - (c.header w.fileHeader).length), _, ?_,
      prefix_append _ _, rfl⟩
    have hblank : blank.length = headerLength := by
      rw [blank, length_cons, length_replicate]
      rfl
    rw [length_append, frame, length_append, SectionHead.encode_length, length_take,
      hblank, sectionsBegin]
    omega
  · cases h3

def Ok (c : Codec) (w : FileWriter) : Prop := Placed c w.file w.index w.writer.sections

theorem writeChannel_spec {channel : Channel} (h : w.writeChannel c channel = some w')
    (hok : w.Ok c) : w'.Ok c ∧ w'.writer = w.writer.writeChannel channel ∧
      w'.channelMessageNumberMap = w.channelMessageNumberMap := by
  obtain ⟨w1, h1, h⟩ := bind_eq_some_iff.1 h
  obtain ⟨hlt, size, rfl⟩ := writeSection_eq h1 nofun
  cases h
  exact ⟨hok.add (.channel channel) hlt, rfl, rfl⟩

theorem writeChunk_spec {chunk : Chunk} {hc : chunk.header.Covers chunk.body}
    (h : w.writeChunk c chunk hc = some w') (hok : w.Ok c) :
    w'.Ok c ∧ w'.writer = w.writer.writeChunk chunk hc ∧
      w'.channelMessageNumberMap = w.channelMessageNumberMap := by
  obtain ⟨w1, h1, h⟩ := bind_eq_some_iff.1 h
  obtain ⟨hlt1, size1, rfl⟩ := writeSection_eq h1 nofun
  obtain ⟨w2, h2, h⟩ := bind_eq_some_iff.1 h
  obtain ⟨hlt2, size2, rfl⟩ := writeSection_eq h2 nofun
  cases h
  have hok2 := (hok.add (.chunkHeader chunk.header) hlt1).add (.chunkBody chunk.body) hlt2
  rw [append_assoc w.writer.sections] at hok2
  exact ⟨hok2, rfl, rfl⟩

theorem flush_spec (h : w.flush c = some w') (hok : w.Ok c) :
    w'.Ok c ∧ w'.writer = w.writer.flush ∧
      w'.channelMessageNumberMap = w.channelMessageNumberMap := by
  unfold flush at h
  unfold RecordFileWriter.flush
  split at h
  · rename_i hne
    obtain ⟨w1, h1, h⟩ := bind_eq_some_iff.1 h
    obtain ⟨hok1, hwriter, hmap⟩ := writeChunk_spec h1 hok
    cases h
    rw [dif_pos hne]
    exact ⟨hok1, by rw [hwriter], hmap⟩
  · grind

def Counts (w : FileWriter) (ms : List SingleMessage) : Prop :=
  ∀ name, (w.channelMessageNumberMap name).getD 0 =
    UInt64.ofNat (ms.filter (·.channelName = name)).length

theorem Counts.writeMessage (h : w.Counts ms) (m : SingleMessage)
    (inWriting : Bool) : (w.writeMessage m inWriting).Counts (ms ++ [m]) := by
  intro name
  have hname := h name
  rw [FileWriter.writeMessage, filter_append, length_append, ofNat_add, ← hname]
  dsimp only
  by_cases heq : name = m.channelName
  · rw [if_pos heq, ← heq, filter_cons_of_pos (by simpa using heq.symm)]
    cases w.channelMessageNumberMap name with
    | none => rfl
    | some n => rfl
  · rw [if_neg heq, filter_cons_of_neg (by simpa using Ne.symm heq)]
    exact (UInt64.add_zero _).symm

theorem step_spec {op : WriterOp} (h : w.step c op = some w')
    (hok : w.Ok c) (hcounts : w.Counts ms) :
    w'.Ok c ∧ w'.Counts (ms ++ writtenBy [op]) ∧ w'.writer = w.writer.step op := by
  cases op with
  | channel channel =>
    obtain ⟨hok', hwriter, hmap⟩ := writeChannel_spec h hok
    rw [show writtenBy [.channel channel] = [] from rfl, append_nil, Counts, hmap]
    exact ⟨hok', hcounts, hwriter⟩
  | flush =>
    obtain ⟨hok', hwriter, hmap⟩ := flush_spec h hok
    rw [show writtenBy [.flush] = [] from rfl, append_nil, Counts, hmap]
    exact ⟨hok', hcounts, hwriter⟩
  | message m inWriting =>
    cases h
    refine ⟨?_, hcounts.writeMessage m inWriting, rfl⟩
    unfold Ok FileWriter.writeMessage
    rw [RecordFileWriter.sections_writeMessage]
    exact hok

theorem run_spec {ops : List WriterOp}
    (h : ops.foldlM (step c) w = some w') (hok : w.Ok c) (hcounts : w.Counts ms) :
    w'.Ok c ∧ w'.Counts (ms ++ writtenBy ops) ∧
      w'.writer = ops.foldl RecordFileWriter.step w.writer := by
  induction ops generalizing w ms with
  | nil =>
    cases h
    rw [show writtenBy [] = [] from rfl, append_nil]
    exact ⟨hok, hcounts, rfl⟩
  | cons op ops ih =>
    obtain ⟨w1, h1, h⟩ := bind_eq_some_iff.1 h
    obtain ⟨hok1, hcounts1, hwriter⟩ := step_spec h1 hok hcounts
    obtain ⟨hok', hcounts', hwriter'⟩ := ih h hok1 hcounts1
    rw [writtenBy_cons, ← append_assoc, foldl_cons, ← hwriter]
    exact ⟨hok', hcounts', hwriter'⟩

theorem openFile_spec {content : List UInt8} {header : Header}
    (h : openFile c content header = some w) :
    w.Ok c ∧ w.Counts [] ∧ w.writer = .openFile header := by
  obtain ⟨bs, size, hlen, -, rfl⟩ := writeHeader_eq h
  refine ⟨⟨?_, ?_, nofun, rfl⟩, fun _ => rfl, rfl⟩
  · show 0 + bs.length = sectionsBegin + 0
    rw [hlen, zero_add, add_zero]
  · show 0 + bs.length < 2 ^ 63
    rw [hlen]
    decide

end FileWriter

section
variable {c : Codec} {index : List SingleIndex}

theorem walk_index {r : RecordFileReader}
    (hat : At r.file.content r.file.position (c.bytes index .index))
    (hlt : r.file.position + (c.bytes index .index).length < 2 ^ 63) :
    r.walk (n + 1) = some ([], r.file.position) := by
  rw [Codec.bytes, frame, length_append] at hlt
  have hread := readSection_at (at_append.1 hat).1 (by omega)
  rw [walk, hread]
  rfl

theorem walk_next {r r' r'' : RecordFileReader} {h : SectionHead} {type : SectionType}
    (hread : r.readSection = (some h, r')) (htype : SectionType.ofValue h.type = some type)
    (hne : type ≠ .index) (hskip : r'.skipSection h.size = (true, r'')) :
    r.walk (n + 1) = (r''.walk n).map fun (l, i) => ((type, r.file.position) :: l, i) := by
  rw [walk, hread]
  grind

theorem walk_section {r : RecordFileReader} (hs : s ≠ .index)
    (hat : At r.file.content r.file.position (c.bytes index s))
    (hlt : r.file.position + (c.bytes index s).length < 2 ^ 63) :
    r.walk (n + 1) =
      (walk n
        { r with file := r.file.seek (r.file.position + (c.bytes index s).length) }).map
        fun (l, i) => ((s.type, r.file.position) :: l, i) := by
  have hlen : (c.bytes index s).length = SectionHead.length + (c.payload index s).length := by
    rw [Codec.bytes, frame, length_append, SectionHead.encode_length]
  rw [hlen, ← add_assoc] at hlt
  rw [hlen, ← add_assoc]
  have hread := readSection_at (at_append.1 hat).1 (by omega)
  have hskip := skipSection_forward (c.payload index s).length
    (r := { r with file := r.file.seek (r.file.position + SectionHead.length) }) hlt
  rw [toInt64_of_lt (by omega)] at hread
  refine walk_next hread (SectionType.ofValue_value _) ?_ hskip
  cases s with
  | index => exact absurd rfl hs
  | _ => exact nofun

theorem entry_map (number : String → UInt64) (hpos : pos < 2 ^ 63) (hs : s ≠ .index) :
    (s.entry number pos).map (fun e => (e.type, e.position.toNat)) = [(s.type, pos)] := by
  have htoNat : (UInt64.ofNat pos).toNat = pos := toNat_ofNat_of_lt' (lt_trans hpos (by decide))
  cases s with
  | channel ch => exact congrArg (fun p => [(_, p)]) htoNat
  | chunkHeader h => exact congrArg (fun p => [(_, p)]) htoNat
  | chunkBody ms => exact congrArg (fun p => [(_, p)]) htoNat
  | index => exact absurd rfl hs

theorem walk_spec (number : String → UInt64) {l : List Section} (hl : .index ∉ l)
    {r : RecordFileReader} (hat : At r.file.content r.file.position
      (l.flatMap (c.bytes index) ++ c.bytes index .index)) (hlt : r.file.position +
      (l.flatMap (c.bytes index) ++ c.bytes index .index).length < 2 ^ 63) (hn : l.length < n) :
    r.walk n = some ((entriesFrom c number r.file.position l).map
      (fun e => (e.type, e.position.toNat)),
        r.file.position + (l.flatMap (c.bytes index)).length) := by
  induction l generalizing r n with
  | nil =>
    obtain ⟨n, rfl⟩ := Nat.exists_eq_succ_of_ne_zero (Nat.ne_zero_of_lt hn)
    exact walk_index hat hlt
  | cons s l ih =>
    obtain ⟨n, rfl⟩ := Nat.exists_eq_succ_of_ne_zero (Nat.ne_zero_of_lt hn)
    have hs : s ≠ .index := fun h => hl (h ▸ mem_cons_self)
    rw [flatMap_cons, append_assoc] at hat hlt
    rw [length_append] at hlt
    obtain ⟨hat1, hat2⟩ := at_append.1 hat
    have hrest := ih (fun h => hl (mem_cons_of_mem s h))
      (r := { r with file := r.file.seek (r.file.position + (c.bytes index s).length) })
      hat2 (by simp only [ByteFile.seek]; omega) (lt_of_succ_lt_succ hn)
    rw [walk_section hs hat1 (by omega), hrest, entriesFrom, map_append, entry_map number (by omega)
      hs, ← bytes_eq c index hs, flatMap_cons, length_append, ← add_assoc]
    rfl

end

structure Finished (c : Codec) (number : String → UInt64) (w : FileWriter) (l : List Section) :
    Prop where
  index_eq : w.index = entriesFrom c number sectionsBegin l
  indexPosition : w.indexPosition = UInt64.ofNat (sectionsBegin + (l.flatMap (c.bytes [])).length)
  sections : At w.file.content sectionsBegin (l.flatMap (c.bytes []) ++ c.bytes w.index .index)
  small : sectionsBegin + (l.flatMap (c.bytes []) ++ c.bytes w.index .index).length < 2 ^ 63

namespace FileWriter

variable {c : Codec} {w w' : FileWriter}

theorem writeIndex_spec (h : w.writeIndex c = some w') (hok : w.Ok c) :
    Finished c (fun name => (w.channelMessageNumberMap name).getD 0) w' w.writer.sections := by
  obtain ⟨w1, h1, h⟩ := bind_eq_some_iff.1 h
  obtain ⟨hlt, size, rfl⟩ := writeSection_eq h1 nofun
  cases h
  refine ⟨?_, ?_, ?_, ?_⟩
  · dsimp only
    rw [hok.index_eq, map_fillIndex]
  · rw [← hok.position]
  · rw [at_append, ← hok.position]
    exact ⟨hok.sections.write (.inl (le_of_eq hok.position.symm)), w.file.at_write _⟩
  · rw [length_append, ← add_assoc, ← hok.position]
    exact hlt

theorem finish_spec (h : w.finish c = some w') (hok : w.Ok c) (hi : .index ∉ w.writer.sections) :
    ∃ l, Finished c (fun name => (w.channelMessageNumberMap name).getD 0) w' l ∧
      .index ∉ l ∧ w.writer.close.sections = l ++ [.index] := by
  obtain ⟨w1, h1, h⟩ := bind_eq_some_iff.1 h
  obtain ⟨hok1, hwriter1, hmap1⟩ := flush_spec h1 hok
  obtain ⟨w2, h2, h⟩ := bind_eq_some_iff.1 h
  obtain ⟨hok2, hwriter2, hmap2⟩ := flush_spec h2 hok1
  obtain ⟨w3, h3, h⟩ := bind_eq_some_iff.1 h
  have hfin := writeIndex_spec h3 hok2
  cases h
  rw [hmap2, hmap1] at hfin
  refine ⟨w2.writer.sections, ⟨hfin.index_eq, hfin.indexPosition, hfin.sections, hfin.small⟩,
    ?_, ?_⟩
  · rw [hwriter2, hwriter1]
    exact RecordFileWriter.noIndex_flush (RecordFileWriter.noIndex_flush hi)
  · rw [hwriter2, hwriter1]
    rfl

end FileWriter

structure Stored (r : Recording) (c : Codec) (w : FileWriter) (file : ByteFile)
    (number : String → UInt64) (l : List Section) : Prop where
  header : At file.content 0 (frame .header (c.header w.fileHeader))
  finished : Finished c number { w with file := file } l
  number : ∀ name, number name =
    UInt64.ofNat ((writtenBy r.ops).filter (·.channelName = name)).length
  noIndex : .index ∉ l
  file_sections : r.file.sections = l ++ [.index]

section

variable {r : Recording} {c : Codec} {w : FileWriter} {file : ByteFile}

theorem Recording.write_stored {content : List UInt8} (h : r.write c content = some (w, file)) :
    ∃ number l, Stored r c w file number l := by
  obtain ⟨w0, h0, h⟩ := bind_eq_some_iff.1 h
  obtain ⟨hok0, hcounts0, hwriter0⟩ := openFile_spec h0
  obtain ⟨w1, h1, h⟩ := bind_eq_some_iff.1 h
  obtain ⟨hok1, hcounts1, hwriter1⟩ := run_spec h1 hok0 hcounts0
  unfold close at h
  obtain ⟨w2, h2, h⟩ := bind_eq_some_iff.1 h
  have hi : .index ∉ w1.writer.sections := by
    rw [hwriter1, hwriter0]
    exact (RecordFileWriter.Keeps.openFile r.header |>.run r.ops).noIndex
  obtain ⟨l, hfin, hl, hsections⟩ := finish_spec h2 hok1 hi
  obtain ⟨w3, h3, h⟩ := bind_eq_some_iff.1 h
  obtain ⟨bs, size, hlen, ⟨room, rfl⟩, rfl⟩ := writeHeader_eq h3
  cases h
  have hfile : r.file = w1.writer.close := by
    rw [hwriter1, hwriter0]
    rfl
  refine ⟨_, l, ?_, ⟨hfin.index_eq, hfin.indexPosition, ?_, hfin.small⟩, hcounts1, hl, ?_⟩
  · exact (at_append.1 ((w.file.seek 0).at_write _)).1
  · -- the last header stays in front of the sections
    refine hfin.sections.write (f := w.file.seek 0) (.inr ?_)
    exact le_of_eq ((zero_add _).trans hlen)
  · rw [hfile]
    exact hsections

variable {number : String → UInt64} {l : List Section}

section
variable (h : Stored r c w file number l)
include h

theorem Stored.index_eq : w.index = entriesFrom c number sectionsBegin l := h.finished.index_eq

theorem Stored.sections :
    At file.content sectionsBegin (l.flatMap (c.bytes w.index) ++ c.bytes w.index .index) := by
  rw [flatMap_bytes_eq c w.index h.noIndex]
  exact h.finished.sections

theorem Stored.walk (hn : l.length + 1 ≤ n) :
    walk n ⟨⟨file.content, sectionsBegin⟩, false⟩ =
      some (w.index.map fun e => (e.type, e.position.toNat), w.indexPosition.toNat) := by
  have hsmall := h.finished.small
  rw [← flatMap_bytes_eq c w.index h.noIndex] at hsmall
  have hwalk := walk_spec number h.noIndex (r := ⟨⟨_, sectionsBegin⟩, false⟩) h.sections hsmall hn
  have hpos : w.indexPosition.toNat = sectionsBegin + (l.flatMap (c.bytes w.index)).length := by
    rw [length_append] at hsmall
    rw [show w.indexPosition = _ from h.finished.indexPosition,
      ← flatMap_bytes_eq c w.index h.noIndex]
    exact toNat_ofNat_of_lt' (lt_trans (by omega) (show 2 ^ 63 < 2 ^ 64 by decide))
  rw [hwalk, hpos, h.index_eq]

end

end

/-- **The index of a file is accurate.** -/
theorem index_accurate {r : Recording} {c : Codec} {content : List UInt8} {w : FileWriter}
    {file : ByteFile} (h : r.write c content = some (w, file))
    (hlt : (writtenBy r.ops).length < 2 ^ 64) : IndexAccurate c w file.content r.file := by
  obtain ⟨number, l, hst⟩ := r.write_stored h
  refine ⟨hst.header, ?_, ⟨l.length + 1, fun n hn => hst.walk hn⟩, ?_⟩
  · rw [hst.file_sections, flatMap_append, flatMap_singleton]
    exact hst.sections
  · intro e he ht
    rw [hst.index_eq] at he
    obtain ⟨ch, hch, hcache⟩ := mem_entriesFrom_channel he ht
    refine ⟨_, ch, ?_, hcache, ?_⟩
    · rw [hst.file_sections]
      exact mem_append_left _ hch
    · have hperm := (r.file_messages hlt).filter (·.channelName = ch.name)
      have hle := length_filter_le (·.channelName = ch.name) (writtenBy r.ops)
      rw [hst.number ch.name, hperm.length_eq]
      exact toNat_ofNat_of_lt' (lt_of_le_of_lt hle hlt)

def shortCodec : Codec where
  header _ := [0]
  channel ch := ch.protoDesc
  chunkHeader _ := [1]
  chunkBody ms := ms.flatMap SingleMessage.content
  index es := es.map fun e => UInt8.ofNat e.position.toNat

def indexedRecording : Recording :=
  ⟨⟨10, 0, 0, 0, 0, 0, 0, false⟩,
    [.channel ⟨"/test/channel1", "Test", [7, 7]⟩, .message ⟨"/test/channel1", 1, [1, 2, 3]⟩ false,
      .message ⟨"/test/channel1", 20, [4]⟩ false, .flush, .channel ⟨"/test/channel2", "Test", []⟩,
      .message ⟨"/test/channel2", 21, [5, 6]⟩ false]⟩

theorem index_accurate_channels : ∃ w file,
    indexedRecording.write shortCodec [1, 2, 3] = some (w, file) ∧
      IndexAccurate shortCodec w file.content indexedRecording.file := by
  have hsome : (indexedRecording.write shortCodec [1, 2, 3]).isSome = true := by decide +kernel
  obtain ⟨⟨w, file⟩, h⟩ := isSome_iff_exists.1 hsome
  exact ⟨w, file, h, index_accurate h (by decide)⟩

end Record
