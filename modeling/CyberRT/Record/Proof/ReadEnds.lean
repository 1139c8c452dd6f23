import CyberRT.Record.FileWriter

/-!
# `ReadMessage` ends

Each pass of `ReadNextChunk` reads the head of a section, and the position does not move back unless
the body of a chunk is skipped.
-/

namespace Record

open Lib List RecordFileReader

namespace RecordFileReader

variable {r r' : RecordFileReader}

theorem readSection_some {sec : SectionHead} (h : r.readSection = (some sec, r')) :
    r'.file.content = r.file.content ∧
      r'.file.position = r.file.position + SectionHead.length ∧
      r.file.position + SectionHead.length ≤ r.file.content.length := by
  unfold readSection ByteFile.read at h
  grind

theorem readPayload_file {α : Type} (parse : ByteFile → Int → Parsed α) (init : α)
    (r : RecordFileReader) (size : Int) :
    (r.readPayload parse init size).2.2.file.content = r.file.content ∧
      r.file.position ≤ (r.readPayload parse init size).2.2.file.position := by
  unfold readPayload
  split
  · exact ⟨rfl, Nat.le_refl _⟩
  · exact ⟨rfl, Nat.le_add_right _ _⟩

theorem skipSection_file {size : Int}
    (h : -SectionHead.length ≤ size ∨ (r.skipSection size).1 = false) :
    (r.skipSection size).2.file.content = r.file.content ∧
      r.file.position ≤ (r.skipSection size).2.file.position + SectionHead.length := by
  unfold skipSection at h ⊢
  dsimp only at h ⊢
  split
  · exact ⟨rfl, Nat.le_add_right _ _⟩
  · rename_i hmax
    split
    · exact ⟨rfl, Nat.le_add_right _ _⟩
    · rename_i hmin
      rw [if_neg hmax, if_neg hmin] at h
      have hsize := h.resolve_right nofun
      refine ⟨rfl, ?_⟩
      simp only [ByteFile.seek]
      omega

end RecordFileReader

namespace RawReader

variable {p : Parsers} {b e : UInt64} {s t t' : ChunkLoop} {n : Nat}

def room (s : ChunkLoop) : Nat :=
  s.reader.fileReader.file.content.length - s.reader.fileReader.file.position

def size (s : ChunkLoop) : Nat :=
  if s.reader.reachEnd then 0 else 2 * room s + s.skip.toNat + 1

theorem size_of_end (h : s.reader.reachEnd = true) : size s = 0 := if_pos h

theorem size_of_open (h : s.reader.reachEnd = false) : size s = 2 * room s + s.skip.toNat + 1 := by
  rw [size, h]
  rfl

structure Read (s t : ChunkLoop) : Prop where
  content : t.reader.fileReader.file.content = s.reader.fileReader.file.content
  position : s.reader.fileReader.file.position + SectionHead.length ≤
    t.reader.fileReader.file.position
  fits : s.reader.fileReader.file.position + SectionHead.length ≤
    s.reader.fileReader.file.content.length

theorem Read.room_lt (h : Read s t) : room t < room s := by
  have hfits := h.fits
  have hpos := h.position
  have hlen : 0 < SectionHead.length := by decide
  rw [room, room, h.content]
  omega

theorem Read.of_payload {α : Type} {parse : ByteFile → Int → Parsed α} {init v : α} {ok : Bool}
    {sec : SectionHead} {r : RecordFileReader}
    (hsec : s.reader.fileReader.readSection = (some sec, r))
    (hparse : r.readPayload parse init sec.size = (ok, v, t.reader.fileReader)) : Read s t := by
  obtain ⟨hcontent, hpos, hfits⟩ := readSection_some hsec
  have hfile := readPayload_file parse init r sec.size
  rw [hparse, hcontent, hpos] at hfile
  exact ⟨hfile.1, hfile.2, hfits⟩

inductive GoesOn (s t : ChunkLoop) : Prop
  | index (h : t.reader.reachEnd = true) (hr : t.result = s.result)
  | read (h : Read s t) (hend : t.reader.reachEnd = s.reader.reachEnd) (hr : t.result = s.result)
  | skipped (hskip : s.skip = true) (hclear : t.skip = false) (hroom : room t ≤ room s)
      (hend : t.reader.reachEnd = s.reader.reachEnd) (hr : t.result = s.result)

theorem nextSection_next (hs : SkipsForward s) (h : nextSection p b e s = .next t) :
    GoesOn s t := by
  unfold nextSection at h
  split at h
  · cases h
  · rename_i sec r hsec
    split at h
    · cases h
      exact .index rfl rfl
    · split at h
      · cases h
      · rename_i hparse
        cases h
        exact .read (.of_payload hsec hparse) rfl rfl
    · split at h
      · cases h
      · rename_i hparse
        split at h
        · cases h
        · cases h
          exact .read (.of_payload hsec hparse) rfl rfl
    · rename_i htype
      split at h
      · rename_i hskip
        obtain ⟨hcontent, hpos, hfits⟩ := readSection_some hsec
        have hfile := skipSection_file (hs sec r hskip hsec htype)
        cases h
        refine .skipped hskip rfl ?_ rfl rfl
        simp only [room]
        rw [hfile.1, hcontent]
        omega
      · cases h
    · cases h
    · cases h

theorem fail_result {r : RecordFileReader} (h : fail s r = .brk t) : t.result = false := by
  cases h
  rfl

theorem nextSection_brk (h : nextSection p b e s = .brk t) (hr : t.result = true) : Read s t := by
  have hfail : ∀ r, fail s r ≠ .brk t := by
    intro r hf
    rw [fail_result hf] at hr
    cases hr
  unfold nextSection at h
  split at h
  · exact absurd h (hfail _)
  · rename_i sec r hsec
    split at h
    · cases h
    · split at h
      · exact absurd h (hfail _)
      · cases h
    · split at h
      · exact absurd h (hfail _)
      · split at h
        · exact absurd h (hfail _)
        · cases h
    · split at h
      · cases h
      · split at h
        rename_i hparse
        cases h
        exact .of_payload hsec hparse
    all_goals grind

theorem size_lt (hs : SkipsForward s) (hend : s.reader.reachEnd = false)
    (h : nextSection p b e s = .next t) : size t < size s := by
  rw [size_of_open hend]
  cases nextSection_next hs h with
  | index ht hr =>
    rw [size_of_end ht]
    exact Nat.succ_pos _
  | read hread ht hr =>
    have hroom := hread.room_lt
    have hskip := Bool.toNat_le t.skip
    rw [size_of_open (ht.trans hend)]
    omega
  | skipped hskip hclear hroom ht hr =>
    rw [size_of_open (ht.trans hend), hskip, hclear, Bool.toNat_false, Bool.toNat_true]
    omega

theorem Meets.trans {u : ChunkLoop} (h : Meets p b e s t) (h' : Meets p b e t u) :
    Meets p b e s u := by
  induction h' with
  | here => exact h
  | pass _ hend hnext ih => exact .pass ih hend hnext
  | call _ hend hbrk hr hnone ih => exact .call ih hend hbrk hr hnone

structure InLoop (p : Parsers) (b e : UInt64) (s t : ChunkLoop) : Prop where
  meets : Meets p b e s t
  size_le : size t ≤ size s
  result : t.result = false

theorem InLoop.pass (h : InLoop p b e s t) (hs : SkipsForward t) (hend : t.reader.reachEnd = false)
    (hnext : nextSection p b e t = .next t') : InLoop p b e s t' := by
  have hsize := Nat.le_of_lt (size_lt hs hend hnext)
  refine ⟨.pass h.meets hend hnext, Nat.le_trans hsize h.size_le, ?_⟩
  rw [← h.result]
  cases nextSection_next hs hnext with
  | index _ hr => exact hr
  | read _ _ hr => exact hr
  | skipped _ _ _ _ hr => exact hr

theorem readNextChunk_ends {r : RawReader}
    (hs : ∀ t, Meets p b e ⟨r, false, false⟩ t → SkipsForward t) (hn : size ⟨r, false, false⟩ < n) :
    ∃ found r', readNextChunk p b e n r = some (found, r') ∧
      (found = true → ∃ t t', InLoop p b e ⟨r, false, false⟩ t ∧ t.reader.reachEnd = false ∧
        nextSection p b e t = .brk t' ∧ t'.result = true ∧ t'.reader = r') := by
  have hstep : ∀ t t', InLoop p b e ⟨r, false, false⟩ t → (!t.reader.reachEnd) = true →
      nextSection p b e t = .next t' → InLoop p b e ⟨r, false, false⟩ t' ∧ size t' < size t := by
    intro t t' ht hend hnext
    rw [Bool.not_eq_true'] at hend
    exact ⟨ht.pass (hs t ht.meets) hend hnext, size_lt (hs t ht.meets) hend hnext⟩
  have h0 : InLoop p b e ⟨r, false, false⟩ ⟨r, false, false⟩ := ⟨.here, Nat.le_refl _, rfl⟩
  obtain ⟨t, ht⟩ := loop_ends size hstep h0 hn
  refine ⟨t.result, t.reader, by rw [readNextChunk, ht]; rfl, fun hr => ?_⟩
  rcases loop_exit (fun t t' hI hc hb => (hstep t t' hI hc hb).1) h0 ht with
    ⟨hI, -⟩ | ⟨u, hI, hend, hbrk⟩
  · rw [hI.result] at hr
    cases hr
  · grind

theorem size_call_lt {r : RawReader} (hend : t.reader.reachEnd = false)
    (hread : Read t t') (hfile : r.fileReader = t'.reader.fileReader) :
    size ⟨r, false, false⟩ < size t := by
  have hroom := hread.room_lt
  have heq : room ⟨r, false, false⟩ = room t' := by rw [room, room, hfile]
  rw [size_of_open hend]
  cases hr : r.reachEnd with
  | true =>
    rw [size_of_end hr]
    exact Nat.succ_pos _
  | false =>
    rw [size_of_open hr, heq, Bool.toNat_false]
    omega

theorem readMessage_found {r r' : RawReader} {found : Option SingleMessage}
    (h : r.nextInChunk b e = (some found, r')) (hn : 0 < n) :
    (readMessage p b e n r).isSome = true := by
  obtain ⟨n, rfl⟩ := Nat.exists_eq_succ_of_ne_zero (Nat.ne_of_gt hn)
  rw [readMessage]
  grind

theorem readMessage_isSome {r r' : RawReader} (hnone : r.nextInChunk b e = (none, r'))
    (hs : ∀ t, Meets p b e ⟨r', false, false⟩ t → SkipsForward t)
    (hn : size ⟨r', false, false⟩ + 1 < n) : (readMessage p b e n r).isSome = true := by
  induction n generalizing r r' with
  | zero => exact absurd hn (Nat.not_lt_zero _)
  | succ n ih =>
    rw [readMessage]
    split
    · rfl
    · split
      · rfl
      · rw [hnone]
        dsimp only
        obtain ⟨found, r2, hnext, hfound⟩ := readNextChunk_ends hs (Nat.lt_of_succ_lt_succ hn)
        rw [hnext]
        cases found with
        | false => rfl
        | true =>
          obtain ⟨t, t', hin, hend, hbrk, hr, rfl⟩ := hfound rfl
          have hsize := hin.size_le
          obtain ⟨found', r3, hfound'⟩ :
              ∃ found' r3, nextInChunk b e { t'.reader with messageIndex := 0 } = (found', r3) :=
            ⟨_, _, rfl⟩
          have hfile : r3.fileReader = t'.reader.fileReader :=
            (congrArg (fun x => x.2.fileReader) hfound').symm
          have hlt := size_call_lt hend (nextSection_brk hbrk hr) hfile
          cases found' with
          | some found' => exact readMessage_found hfound' (by omega)
          | none =>
            refine ih hfound' (fun u hu => hs u ?_) (by omega)
            exact (Meets.call hin.meets hend hbrk hr hfound').trans hu

/-- **`ReadMessage` ends** if every body that it skips leads forward. -/
theorem ends_of_staysForward {r : RawReader} (h : StaysForward p b e r) : Ends p b e r := by
  obtain ⟨found, r', hfound⟩ : ∃ found r', r.nextInChunk b e = (found, r') := ⟨_, _, rfl⟩
  cases found with
  | some found => exact ⟨1, fun n hn => readMessage_found hfound hn⟩
  | none =>
    exact ⟨size ⟨r', false, false⟩ + 2,
      fun n hn => readMessage_isSome hfound (fun t => h r' t hfound) hn⟩

variable (size : Nat)

def chunkBytes : List UInt8 :=
  List.replicate (SectionHead.length + headerLength) 0 ++ SectionHead.encode .chunkHeader 8 ++
    List.replicate 8 0 ++ SectionHead.encode .chunkBody size

def earlyChunks : Parsers where
  channel _ _ := ⟨⟨"", "", []⟩, false, 0, none⟩
  chunkHeader _ _ := ⟨⟨0, 1, 0, 0⟩, true, 8, none⟩
  chunkBody _ _ := ⟨[], false, 0, none⟩

def chunkReader : RawReader :=
  openReader (chunkBytes size) ⟨0, 0, 1, 0, 0, 10, 0, true⟩

def chunkLoop (size position : Nat) (skip : Bool) : ChunkLoop :=
  ⟨{ chunkReader size with fileReader := ⟨⟨chunkBytes size, position⟩, false⟩ }, skip, false⟩

theorem chunkBytes_length : (chunkBytes size).length = 2104 := by
  rw [chunkBytes, length_append, length_append, length_append, length_replicate, length_replicate,
    SectionHead.encode_length, SectionHead.encode_length]
  rfl

theorem nextSection_header :
    nextSection earlyChunks 5 20 (chunkLoop size 2064 false) =
      .next (chunkLoop size 2088 true) := by
  have hat : At (chunkBytes size) 2064 (SectionHead.encode .chunkHeader 8) := by
    have hmid := at_middle (List.replicate (SectionHead.length + headerLength) 0)
      (SectionHead.encode .chunkHeader 8) (List.replicate 8 0 ++ SectionHead.encode .chunkBody size)
    rw [length_replicate, ← append_assoc] at hmid
    exact hmid
  have hread := readSection_at (r := ⟨⟨chunkBytes size, 2064⟩, false⟩) hat
    (by decide)
  unfold nextSection
  rw [chunkLoop, hread]
  rfl

theorem readSection_body {size : Nat} (h : size < 2 ^ 64) :
    (chunkLoop size 2088 true).reader.fileReader.readSection =
      (some ⟨SectionType.chunkBody.value, toInt64 size⟩, ⟨⟨chunkBytes size, 2104⟩, false⟩) := by
  have hat : At (chunkBytes size) 2088 (SectionHead.encode .chunkBody size) := by
    have hmid := at_middle (List.replicate (SectionHead.length + headerLength) 0 ++
      SectionHead.encode .chunkHeader 8 ++ List.replicate 8 0)
      (SectionHead.encode .chunkBody size) []
    rw [append_nil, length_append, length_append, length_replicate,
      length_replicate, SectionHead.encode_length] at hmid
    exact hmid
  exact readSection_at (r := ⟨⟨chunkBytes size, 2088⟩, false⟩) hat h

theorem nextSection_body (size position : Nat) (h : size < 2 ^ 64)
    (hskip : skipSection ⟨⟨chunkBytes size, 2104⟩, false⟩ (toInt64 size) =
      (true, ⟨⟨chunkBytes size, position⟩, false⟩)) :
    nextSection earlyChunks 5 20 (chunkLoop size 2088 true) =
      .next (chunkLoop size position false) := by
  unfold nextSection
  rw [readSection_body h]
  dsimp only
  rw [SectionType.ofValue_value, hskip]
  rfl

theorem nextSection_end :
    nextSection earlyChunks 5 20 (chunkLoop size 2104 false) =
      .brk { chunkLoop size 2104 false with
        reader := { chunkReader size with fileReader := ⟨⟨chunkBytes size, 2104⟩, true⟩ } } := by
  have hread : readSection ⟨⟨chunkBytes size, 2104⟩, false⟩ =
      (none, ⟨⟨chunkBytes size, 2104⟩, true⟩) := by
    rw [readSection, ByteFile.read]
    dsimp only
    rw [drop_eq_nil_of_le (Nat.le_of_eq (chunkBytes_length size))]
    rfl
  unfold nextSection
  rw [chunkLoop, hread]
  rfl

theorem meets_empty {t : ChunkLoop} (ht : Meets earlyChunks 5 20 (chunkLoop 0 2064 false) t) :
    t = chunkLoop 0 2064 false ∨ t = chunkLoop 0 2088 true ∨ t = chunkLoop 0 2104 false := by
  have h1 := nextSection_header 0
  have h2 := nextSection_body 0 2104 (by decide) rfl
  have h3 := nextSection_end 0
  induction ht with
  | here => exact .inl rfl
  | pass _ _ hnext ih => grind
  | call _ _ hbrk hr _ ih =>
    rcases ih with rfl | rfl | rfl
    · rw [h1] at hbrk
      cases hbrk
    · rw [h2] at hbrk
      cases hbrk
    · rw [h3] at hbrk
      cases hbrk
      cases hr

theorem ends_of_staysForward_empty :
    StaysForward earlyChunks 5 20 (chunkReader 0) ∧ Ends earlyChunks 5 20 (chunkReader 0) := by
  have hforward : StaysForward earlyChunks 5 20 (chunkReader 0) := by
    intro r t hnone ht
    cases hnone
    rcases meets_empty ht with rfl | rfl | rfl
    · exact nofun
    · intro sec r _ hsec _
      rw [readSection_body (by decide)] at hsec
      cases hsec
      exact .inl (by decide)
    · exact nofun
  exact ⟨hforward, ends_of_staysForward hforward⟩

theorem readNextChunk_backward (n : Nat) :
    readNextChunk earlyChunks 5 20 n (chunkReader (2 ^ 64 - 40)) = none := by
  have hbody := nextSection_body (2 ^ 64 - 40) 2064 (by decide) rfl
  have hstep : ∀ t, t = chunkLoop (2 ^ 64 - 40) 2064 false ∨
      t = chunkLoop (2 ^ 64 - 40) 2088 true →
      (!t.reader.reachEnd) = true ∧ ∃ t', nextSection earlyChunks 5 20 t = .next t' ∧
        (t' = chunkLoop (2 ^ 64 - 40) 2064 false ∨ t' = chunkLoop (2 ^ 64 - 40) 2088 true) := by
    rintro t (rfl | rfl)
    · exact ⟨rfl, _, nextSection_header _, .inr rfl⟩
    · exact ⟨rfl, _, hbody, .inl rfl⟩
  exact congrArg (Option.map _) (loop_forever hstep n (.inl rfl))

/-- A body of size −40, of a chunk that ends before the interval, leads back to the header of the
chunk. -/
theorem not_ends_backward : ¬ Ends earlyChunks 5 20 (chunkReader (2 ^ 64 - 40)) := by
  rintro ⟨fuel, h⟩
  have hsome := h (fuel + 1) (Nat.le_succ fuel)
  have hfirst : (chunkReader (2 ^ 64 - 40)).nextInChunk 5 20 =
      (none, chunkReader (2 ^ 64 - 40)) := rfl
  have hin : ¬ (decide ((5 : UInt64) > (chunkReader (2 ^ 64 - 40)).header.endTime) ||
      decide ((20 : UInt64) < (chunkReader (2 ^ 64 - 40)).header.beginTime)) = true := by
    decide
  rw [readMessage, if_neg (by decide), if_neg hin, hfirst] at hsome
  dsimp only at hsome
  rw [readNextChunk_backward] at hsome
  cases hsome

end RawReader

end Record
