import CyberRT.Record.Proof.WriteOrder
import CyberRT.Record.Tools
import CyberRT.Record.Proof.Index

/-!
# Splitting a file

`Proc` copies the messages that qualify from the chunks that it does not skip, and the channels that
are selected (`readThrough_spec`).
-/

namespace Record

open List Recoverer

namespace Spliter

variable {s : Spliter}

theorem takes_iff (name : String) : s.takes name = true ↔ s.Selects name := by
  simp [takes, Selects]

theorem not_passesOver_iff (m : SingleMessage) : (!s.passesOver m) = true ↔ s.Wants m := by
  simp only [passesOver, Wants, Selects, Bool.not_or, Bool.not_and, Bool.not_not,
    Bool.and_eq_true, Bool.or_eq_true, List.isEmpty_iff, contains_eq_mem,
    Bool.not_eq_true', decide_eq_false_iff_not, decide_eq_true_iff, UInt64.not_lt]
  exact and_comm

theorem skips_iff (h : ChunkHeader) :
    s.skips h = true ↔ h.endTime < s.beginTime ∨ s.endTime < h.beginTime := by
  simp [skips]

def copied (s : Spliter) (c : ChunkHeader × List SingleMessage) : List SingleMessage :=
  if s.skips c.1 then [] else c.2.filter s.Wants

theorem readThrough_spec {l : List Section} (h : WellFormed l) (hi : .index ∉ l) :
    ∃ calls, s.readThrough false (l ++ [.index]) = (true, calls) ∧
      messagesIn calls = (chunksOf l).flatMap s.copied ∧
      channelsIn calls = (channelsOf l).filter fun c => s.Selects c.name := by
  induction h with
  | nil => exact ⟨[], rfl, rfl, rfl⟩
  | index => exact absurd mem_cons_self hi
  | @channel c l _ ih =>
    obtain ⟨calls, hcalls, hms, hcs⟩ := ih fun h => hi (mem_cons_of_mem _ h)
    have hchannels : channelsOf (.channel c :: l) = c :: channelsOf l := rfl
    rw [cons_append, readThrough, hcalls, hchannels]
    dsimp only
    by_cases hsel : s.Selects c.name
    · rw [if_pos ((takes_iff _).2 hsel), filter_cons_of_pos (by simpa using hsel), ← hcs]
      exact ⟨_, rfl, hms, rfl⟩
    · rw [if_neg (mt (takes_iff _).1 hsel), filter_cons_of_neg (by simpa using hsel), ← hcs]
      exact ⟨_, rfl, hms, rfl⟩
  | @chunk h ms l _ _ ih =>
    obtain ⟨calls, hcalls, hms, hcs⟩ := ih fun h => hi (mem_cons_of_mem _ (mem_cons_of_mem _ h))
    have hchannels : channelsOf (.chunkHeader h :: .chunkBody ms :: l) = channelsOf l := rfl
    rw [cons_append, cons_append, readThrough, Bool.false_or, hchannels, chunksOf,
      flatMap_cons, copied, ← hms, ← hcs]
    cases hskip : s.skips h with
    | true =>
      rw [readThrough, hcalls]
      exact ⟨calls, rfl, rfl, rfl⟩
    | false =>
      have hfilter : (ms.filter fun m => !s.passesOver m) = ms.filter s.Wants :=
        filter_congr fun m _ => by rw [Bool.eq_iff_iff, not_passesOver_iff, decide_eq_true_iff]
      rw [readThrough, hcalls, hfilter]
      refine ⟨_, rfl, ?_, ?_⟩
      · rw [messagesIn_append, messagesIn_messages]
        rfl
      · rw [channelsIn_append, channelsIn_messages, nil_append]

theorem proc_spec {r : Recording} (htime : s.beginTime < s.endTime)
    (hdisj : ∀ name ∈ s.whiteChannels, name ∉ s.blackChannels) :
    ∃ calls, messagesIn calls = r.file.chunks.flatMap s.copied ∧
      (channelsIn calls = r.file.channels.filter fun c => s.Selects c.name) ∧
      s.proc r.file =
        if s.beginTime ≤ r.file.header.endTime ∧ r.file.header.beginTime ≤ s.endTime then
          (true, some calls)
        else (false, none) := by
  obtain ⟨l, hl, hwf, hi, -⟩ := r.file_sections
  obtain ⟨calls, hcalls, hms, hcs⟩ := readThrough_spec (s := s) hwf hi
  have hchunks : r.file.chunks = chunksOf l := by
    rw [RecordFile.chunks, hl, chunksOf_append hwf hi]
    exact append_nil _
  have hany : ¬ (s.whiteChannels.any fun name => s.blackChannels.contains name) = true := by grind
  refine ⟨calls, by rw [hms, hchunks], by rw [hcs, RecordFile.channels_of_sections hl], ?_⟩
  rw [proc, if_neg (UInt64.not_le.2 htime), if_neg hany, hl, hcalls]
  grind

theorem length_copied_le (c : ChunkHeader × List SingleMessage) :
    (s.copied c).length ≤ (c.2.filter s.Wants).length := by
  unfold copied
  grind

theorem length_flatMap_copied_le (cs : List (ChunkHeader × List SingleMessage)) :
    (cs.flatMap s.copied).length ≤ (cs.flatMap fun c => c.2.filter s.Wants).length := by
  induction cs with
  | nil => exact Nat.le_refl 0
  | cons c cs ih =>
    have hc := s.length_copied_le c
    grind

theorem length_copied_eq {cs : List (ChunkHeader × List SingleMessage)}
    (h : (cs.flatMap s.copied).length = (cs.flatMap fun c => c.2.filter s.Wants).length) :
    ∀ c ∈ cs, (s.copied c).length = (c.2.filter s.Wants).length := by
  induction cs with
  | nil => exact nofun
  | cons c cs ih =>
    have hc := s.length_copied_le c
    have hcs := s.length_flatMap_copied_le cs
    grind

theorem perm_copied_iff (cs : List (ChunkHeader × List SingleMessage)) :
    (cs.flatMap s.copied).Perm ((cs.flatMap Prod.snd).filter s.Wants) ↔
      ∀ c ∈ cs, s.skips c.1 = true → c.2.filter s.Wants = [] := by
  rw [filter_flatMap]
  constructor
  · intro hperm c hc hskip
    have hlen := length_copied_eq hperm.length_eq c hc
    rw [copied, if_pos hskip] at hlen
    exact length_eq_zero_iff.1 hlen.symm
  · intro h
    rw [flatMap_congr fun c hc => show s.copied c = c.2.filter s.Wants from ?_]
    unfold copied
    grind

theorem skips_wanted_iff {c : ChunkHeader × List SingleMessage} (hcov : c.1.Covers c.2)
    (hm : ∃ m ∈ c.2, s.Wants m) : s.skips c.1 = true ↔ s.endTime < c.1.beginTime := by
  rw [skips_iff]
  refine ⟨fun h => h.resolve_left fun hend => ?_, .inr⟩
  obtain ⟨m, hmem, hw⟩ := hm
  exact UInt64.not_lt.2 (UInt64.le_trans hw.1.1 (hcov.le_end m hmem)) hend

/-- **When a file is split**: the times in the headers do not hide a message that qualifies. -/
theorem splits_iff {r : Recording} {s : Spliter} (hlt : (writtenBy r.ops).length < 2 ^ 64)
    (htime : s.beginTime < s.endTime)
    (hdisj : ∀ name ∈ s.whiteChannels, name ∉ s.blackChannels) :
    s.Splits r.file ↔ s.HeadersMeet r.file := by
  obtain ⟨calls, hms, hcs, hproc⟩ := proc_spec (r := r) htime hdisj
  have hless : (messagesIn calls).length < 2 ^ 64 := by
    have hle := s.length_flatMap_copied_le r.file.chunks
    have hfilter := length_filter_le (fun m => decide (s.Wants m)) r.file.messages
    rw [RecordFile.messages, filter_flatMap] at hfilter
    have hwritten := (r.file_messages hlt).length_eq
    rw [RecordFile.messages] at hwritten
    rw [hms]
    omega
  have hcov := chunksOf_covers r.file.wellFormed
  constructor
  · rintro ⟨calls', hp, hall⟩
    rw [hproc] at hp
    split at hp
    · rename_i hmeet
      cases hp
      obtain ⟨g, hg⟩ := output_exists calls
      have hperm := (hg.spec hless).1.symm.trans (hall g hg).1
      rw [hms] at hperm
      refine ⟨hmeet, fun c hc hm => UInt64.not_lt.1 fun hlate => ?_⟩
      have hskip := (skips_wanted_iff (hcov c hc) hm).2 hlate
      have hnil := (perm_copied_iff r.file.chunks).1 hperm c hc hskip
      obtain ⟨m, hmem, hw⟩ := hm
      exact filter_eq_nil_iff.1 hnil m hmem (decide_eq_true hw)
    · cases hp
  · rintro ⟨hmeet, hchunks⟩
    refine ⟨calls, by rw [hproc, if_pos hmeet], fun g hg => ?_⟩
    obtain ⟨hgms, hgcs⟩ := hg.spec hless
    refine ⟨hgms.trans ?_, hgcs.trans hcs⟩
    rw [hms]
    refine (perm_copied_iff r.file.chunks).2 fun c hc hskip => ?_
    by_contra hne
    have hm : ∃ m ∈ c.2, s.Wants m := by
      obtain ⟨m, hmem⟩ := exists_mem_of_ne_nil _ hne
      grind
    exact UInt64.not_lt.2 (hchunks c hc hm) ((skips_wanted_iff (hcov c hc) hm).1 hskip)

def splitWindow (beginTime endTime : UInt64) : Spliter := ⟨[], [], beginTime, endTime⟩

theorem splits_iff_ordered : (splitWindow 6 30).Splits (recordingOf 10 [5, 6, 20]).file ↔
    (splitWindow 6 30).HeadersMeet (recordingOf 10 [5, 6, 20]).file :=
  splits_iff (by decide) (by decide) (by decide)

/-- A message of time 0 is lost with its file or with its chunk, and one behind the end of the last
chunk with its file. -/
theorem not_splits_zero_nor_reverse :
    (∃ m ∈ (recordingOf 10 [0, 5]).file.messages, (splitWindow 0 1).Wants m) ∧
      ¬ (splitWindow 0 1).Splits (recordingOf 10 [0, 5]).file ∧
      (∃ m ∈ (recordingOf 10 [1, 20, 0, 21]).file.messages, (splitWindow 0 10).Wants m) ∧
      ¬ (splitWindow 0 10).Splits (recordingOf 10 [1, 20, 0, 21]).file ∧
      (∃ m ∈ (recordingOf 10 [20, 31, 5]).file.messages, (splitWindow 25 40).Wants m) ∧
      ¬ (splitWindow 25 40).Splits (recordingOf 10 [20, 31, 5]).file := by
  refine ⟨by decide +kernel, fun h => ?_, by decide +kernel, fun h => ?_, by decide +kernel,
    fun h => ?_⟩
  · obtain ⟨calls, hp, -⟩ := h
    have hproc : (splitWindow 0 1).proc (recordingOf 10 [0, 5]).file = (false, none) := by
      decide +kernel
    cases hp
  · obtain ⟨calls, hp, hall⟩ := h
    have hproc : (splitWindow 0 10).proc (recordingOf 10 [1, 20, 0, 21]).file =
        (true, some [.message ⟨"/test/channel1", 1, []⟩]) := by decide +kernel
    cases hp
    obtain ⟨g, hg⟩ := output_exists [.message ⟨"/test/channel1", 1, []⟩]
    have hperm := (hg.spec (by decide)).1.symm.trans (hall g hg).1
    exact absurd hperm.length_eq (by decide +kernel)
  · obtain ⟨calls, hp, -⟩ := h
    have hproc : (splitWindow 25 40).proc (recordingOf 10 [20, 31, 5]).file = (false, none) := by
      decide +kernel
    cases hp

end Spliter

/-!
## What `Recoverer` recovers

The loop over the sections stops at the first payload that cannot be parsed and is consumed, or at
the end; so the calls of the writer have the messages and channels before this place
(`Recoverer.loop_spec`).
-/

open Lib

theorem mem_names_addDistinct {cs : List Channel} {c : Channel} {n : String} :
    n ∈ (addDistinct cs c).map Channel.name ↔ n ∈ cs.map Channel.name ∨ n = c.name := by
  unfold addDistinct
  grind

theorem mem_names_foldl {cs ds : List Channel} {n : String} :
    n ∈ (ds.foldl addDistinct cs).map Channel.name ↔ n ∈ (cs ++ ds).map Channel.name := by
  induction ds generalizing cs with
  | nil => rw [append_nil, foldl_nil]
  | cons d ds ih =>
    rw [foldl_cons, ih, map_append, mem_append, mem_names_addDistinct,
      map_append, mem_append, map_cons, mem_cons, or_assoc]

theorem foldl_addDistinct_eq_iff {cs ds : List Channel} :
    ds.foldl addDistinct cs = cs ↔ ∀ d ∈ ds, d.name ∈ cs.map Channel.name := by
  constructor
  · intro h d hd
    rw [← h, mem_names_foldl, map_append]
    exact mem_append_right _ (mem_map_of_mem hd)
  · intro h
    induction ds with
    | nil => rfl
    | cons d ds ih =>
      rw [foldl_cons, addDistinct, if_pos (h d (.head _))]
      exact ih fun e he => h e (.tail _ he)

variable {x : InputItem} {items : List InputItem}

theorem InputItem.nothing_of_isConsumed (h : x.isConsumed = true) :
    x.messages = [] ∧ x.channels = [] := by
  cases x with
  | cutHead => exact ⟨rfl, rfl⟩
  | stored sec st =>
    cases st with
    | intact => exact absurd h Bool.false_ne_true
    | broken all => cases sec <;> exact ⟨rfl, rfl⟩

def IndexLast (items : List InputItem) : Prop := ∀ st, .stored .index st ∉ items.dropLast

theorem IndexLast.tail (h : IndexLast (x :: items)) : IndexLast items := by
  intro st hst
  cases items with
  | nil => exact not_mem_nil hst
  | cons y items => exact h st (.tail _ hst)

theorem IndexLast.eq_nil {st : PayloadState}
    (h : IndexLast (.stored .index st :: items)) : items = [] := by
  cases items with
  | nil => rfl
  | cons y items => exact absurd (.head _) (h st)

theorem RecordInput.Damaged.indexLast {f : RecordFile} {input : RecordInput}
    (h : input.Damaged f) (hf : f.EndsWithIndex) : IndexLast input.items := by
  obtain ⟨l0, hsections, hl0⟩ := hf
  obtain ⟨l, hl, hitems⟩ := h.items
  have hmem : ∀ {l' : List (Section × PayloadState)}, l'.map Prod.fst <+: l0 →
      ∀ st, .stored .index st ∉ l'.map fun x => InputItem.stored x.1 x.2 := by
    intro l' hl' st hst
    obtain ⟨⟨sec, st'⟩, hx, heq⟩ := mem_map.1 hst
    cases heq
    exact hl0 (hl'.subset (mem_map_of_mem hx))
  rw [hsections] at hl hitems
  rcases hitems with hitems | ⟨hitems, hcut⟩
  · rw [hitems, IndexLast, ← map_dropLast]
    rw [map_dropLast]
    rcases prefix_concat_iff.1 hl with hl | hl
    all_goals grind
  · rw [hitems, IndexLast, dropLast_concat]
    exact hmem ((prefix_concat_iff.1 hl).resolve_left hcut)

namespace Recoverer

def Ok (s : Recoverer) : Prop := s.channelVec = (channelsIn s.calls).map Channel.name

structure Writes (s t : Recoverer) (ms : List SingleMessage) (cs : List Channel) : Prop where
  ok : t.Ok
  messages : messagesIn t.calls = messagesIn s.calls ++ ms
  channels : channelsIn t.calls = cs.foldl addDistinct (channelsIn s.calls)

variable {s t u : Recoverer}

theorem Writes.nothing (h : t.Ok) (hcalls : t.calls = s.calls) : Writes s t [] [] := by
  refine ⟨h, ?_, ?_⟩
  all_goals grind

theorem Writes.trans {ms ms' : List SingleMessage} {cs cs' : List Channel}
    (h : Writes s t ms cs) (h' : Writes t u ms' cs') : Writes s u (ms ++ ms') (cs ++ cs') := by
  refine ⟨h'.ok, ?_, ?_⟩
  · rw [h'.messages, h.messages, append_assoc]
  · rw [h'.channels, h.channels, foldl_append]

theorem addChannel_writes (h : s.Ok) (c : Channel) : Writes s (s.addChannel c) [] [c] := by
  unfold addChannel
  rw [h]
  split
  · rename_i hc
    refine ⟨h, (append_nil _).symm, ?_⟩
    rw [foldl_cons, foldl_nil, addDistinct, if_pos hc]
  · rename_i hc
    refine ⟨?_, ?_, ?_⟩
    · rw [Ok, channelsIn_append, map_append]
      rfl
    · exact messagesIn_append _ _
    · rw [channelsIn_append, foldl_cons, foldl_nil, addDistinct, if_neg hc]
      rfl

theorem addChannels_writes (h : s.Ok) (cs : List Channel) :
    Writes s (cs.foldl addChannel s) [] cs := by
  induction cs generalizing s with
  | nil => exact .nothing h rfl
  | cons c cs ih =>
    have hc := addChannel_writes h c
    exact hc.trans (ih hc.ok)

theorem addChannel_items (s : Recoverer) (c : Channel) :
    (s.addChannel c).items = s.items ∧ (s.addChannel c).endOfFile = s.endOfFile := by
  unfold addChannel
  grind

theorem addChannels_items (s : Recoverer) (cs : List Channel) :
    (cs.foldl addChannel s).items = s.items ∧ (cs.foldl addChannel s).endOfFile = s.endOfFile := by
  induction cs generalizing s with
  | nil => exact ⟨rfl, rfl⟩
  | cons c cs ih =>
    obtain ⟨hitems, heof⟩ := ih (s.addChannel c)
    exact ⟨hitems.trans (s.addChannel_items c).1, heof.trans (s.addChannel_items c).2⟩

theorem nextSection_spec {rest : List InputItem} (hs : s.Ok)
    (heof : s.endOfFile = false) (hitems : s.items = x :: rest) (hx : ∀ st, x ≠ .stored .index st) :
    ∃ t, nextSection s = .next t ∧ t.items = rest ∧ t.endOfFile = x.isConsumed ∧
      Writes s t x.messages x.channels := by
  rw [nextSection, hitems]
  cases x with
  | cutHead => exact ⟨_, rfl, rfl, heof, .nothing hs rfl⟩
  | stored sec st =>
    cases st with
    | broken all =>
      have hend : all = (InputItem.stored sec (.broken all)).isConsumed := by
        cases all with
        | false => rfl
        | true => rfl
      cases sec with
      | index => exact absurd rfl (hx (.broken all))
      | channel c => exact ⟨_, rfl, rfl, hend, .nothing hs rfl⟩
      | chunkHeader h => exact ⟨_, rfl, rfl, hend, .nothing hs rfl⟩
      | chunkBody ms => exact ⟨_, rfl, rfl, hend, .nothing hs rfl⟩
    | intact =>
      cases sec with
      | index => exact absurd rfl (hx .intact)
      | channel c =>
        have hwrites := addChannel_writes (s := { s with items := rest }) hs c
        obtain ⟨hrest, hend⟩ := addChannel_items { s with items := rest } c
        exact ⟨_, rfl, hrest, hend.trans heof, hwrites.ok, hwrites.messages, hwrites.channels⟩
      | chunkHeader h => exact ⟨_, rfl, rfl, heof, .nothing hs rfl⟩
      | chunkBody ms =>
        refine ⟨_, rfl, rfl, heof, ?_, ?_, ?_⟩
        · rw [Ok, channelsIn_append, channelsIn_messages, append_nil]
          exact hs
        · rw [messagesIn_append, messagesIn_messages]
          rfl
        · rw [channelsIn_append, channelsIn_messages, append_nil]
          rfl

theorem loop_spec (hs : s.Ok) (heof : s.endOfFile = false) (hlast : IndexLast s.items) :
    ∃ t, (∀ n, s.items.length + 1 < n → loop notAtEnd nextSection n s = some t) ∧
      Writes s t ((s.items.takeWhile (!·.isConsumed)).flatMap InputItem.messages)
        ((s.items.takeWhile (!·.isConsumed)).flatMap InputItem.channels) := by
  -- the list of items goes down, and `end_of_file_` needs one more pass at its end
  induction hitems : s.items generalizing s with
  | nil =>
    refine ⟨{ s with endOfFile := true }, loop_next (congrArg not heof) ?_ (loop_done rfl),
      .nothing hs rfl⟩
    rw [nextSection, hitems]
  | cons x rest ih =>
    rw [hitems] at hlast
    have hcond : s.notAtEnd = true := congrArg not heof
    by_cases hx : ∃ st, x = .stored .index st
    · obtain ⟨st, rfl⟩ := hx
      obtain rfl := hlast.eq_nil
      refine ⟨{ s with items := [] }, fun n hn => loop_brk hcond ?_ n (by omega), ?_⟩
      · rw [nextSection, hitems]
      · cases st with
        | intact => exact .nothing hs rfl
        | broken all =>
          cases all with
          | false => exact .nothing hs rfl
          | true => exact .nothing hs rfl
    · obtain ⟨t, hnext, hrest, hend, hwrites⟩ := nextSection_spec hs heof hitems (not_exists.1 hx)
      cases hcons : x.isConsumed with
      | true =>
        refine ⟨t, fun n hn => loop_next hcond hnext (loop_done ?_) n ?_, ?_⟩
        · rw [notAtEnd, hend, hcons]
          rfl
        · grind
        · rw [takeWhile_cons_of_neg (by rw [hcons]; exact Bool.false_ne_true)]
          obtain ⟨hms, hcs⟩ := InputItem.nothing_of_isConsumed hcons
          grind
      | false =>
        obtain ⟨u, hloop, hwrites'⟩ := ih hwrites.ok (hend.trans hcons) (hrest ▸ hlast.tail) hrest
        refine ⟨u, loop_next hcond hnext hloop, ?_⟩
        rw [takeWhile_cons_of_pos (by rw [hcons]; rfl)]
        exact hwrites.trans hwrites'

end Recoverer

namespace RecordInput

variable {input : RecordInput}

theorem proc_spec (hlast : IndexLast input.items) :
    ∃ calls, (∀ n, input.items.length + 1 < n → Recoverer.proc n input = some (true, calls)) ∧
      messagesIn calls = input.before.flatMap InputItem.messages ∧
      channelsIn calls = (input.indexedChannels ++ input.before.flatMap InputItem.channels).foldl
        addDistinct [] := by
  let s0 : Recoverer := ⟨input.items, false, [], []⟩
  have hstart : start input = input.indexedChannels.foldl addChannel s0 := by
    unfold start indexedChannels
    grind
  have hindex := addChannels_writes (s := s0) rfl input.indexedChannels
  obtain ⟨hitems, heof⟩ := s0.addChannels_items input.indexedChannels
  rw [← hstart] at hindex hitems heof
  obtain ⟨t, hloop, hwrites⟩ := loop_spec hindex.ok heof (hitems ▸ hlast)
  rw [hitems] at hloop hwrites
  have hall := hindex.trans hwrites
  refine ⟨t.calls, fun n hn => ?_, hall.messages, hall.channels⟩
  rw [Recoverer.proc, hloop n hn]
  rfl

/-- **What is recovered** is what comes before the first payload that cannot be parsed and is
consumed. -/
theorem recovers_iff (hlast : IndexLast input.items)
    (hlt : input.intactMessages.length < 2 ^ 64) {channels : List Channel} :
    input.Recovers channels ↔
      input.before.flatMap InputItem.messages = input.intactMessages ∧
      (input.indexedChannels ++ input.before.flatMap InputItem.channels).foldl addDistinct [] =
        channels := by
  obtain ⟨calls, hproc, hms, hcs⟩ := proc_spec hlast
  rw [← hms, ← hcs]
  constructor
  · rintro ⟨fuel, calls', hproc', hms', hfile⟩
    have heq := (hproc (fuel + input.items.length + 2) (by omega)).symm.trans
      (hproc' (fuel + input.items.length + 2) (by omega))
    cases heq
    obtain ⟨f, ops, hops, rfl⟩ := output_exists calls
    refine ⟨hms', ?_⟩
    rw [← (hfile ops hops).2.2, Recording.file_channels, hops]
  · rintro ⟨hms', rfl⟩
    refine ⟨input.items.length + 2, calls, hproc, hms', ?_⟩
    rintro ops rfl
    rw [← writtenBy_eq] at hms'
    rw [← hms'] at hlt ⊢
    exact ⟨Recording.file_messages _ hlt, (Recording.file_messages_inOrder _ hlt).1,
      Recording.file_channels _⟩

theorem messages_before_iff :
    input.before.flatMap InputItem.messages = input.intactMessages ↔
      input.behind.flatMap InputItem.messages = [] := by
  have hitems : input.before ++ input.behind = input.items := takeWhile_append_dropWhile
  rw [intactMessages, ← hitems, flatMap_append, self_eq_append_right]

theorem channels_before_iff :
    (input.indexedChannels ++ input.before.flatMap InputItem.channels).foldl addDistinct [] =
        input.knownChannels ↔
      ∀ c ∈ input.behind.flatMap InputItem.channels, c.name ∈
        (input.indexedChannels ++ input.before.flatMap InputItem.channels).map Channel.name := by
  have hitems : input.before ++ input.behind = input.items := takeWhile_append_dropWhile
  rw [eq_comm, knownChannels, intactChannels, ← hitems, flatMap_append, ← append_assoc, foldl_append,
    foldl_addDistinct_eq_iff]
  simp only [mem_names_foldl, nil_append]

/-- **A damaged file is recovered, with the channels that are known, just if nothing new comes
behind a payload that cannot be parsed and is consumed.** -/
theorem recovers_known_iff {f : RecordFile} (hf : f.EndsWithIndex) (hd : input.Damaged f)
    (hlt : input.intactMessages.length < 2 ^ 64) :
    input.Recovers input.knownChannels ↔ input.LosesNothing := by
  rw [recovers_iff (hd.indexLast hf) hlt, messages_before_iff, channels_before_iff]
  rfl

end RecordInput

theorem Recording.file_endsWithIndex (r : Recording) : r.file.EndsWithIndex := by
  obtain ⟨l, hl, -, hi, -⟩ := r.file_sections
  exact ⟨l, hl, hi⟩

def oneMessage : Recording :=
  ⟨HeaderBuilder.getHeader, [.channel ⟨"/test", "Test", []⟩, .message ⟨"/test", 1, [1]⟩ false]⟩

def damagedChannel (all : Bool) : RecordInput where
  header := oneMessage.file.header
  index := [⟨.channel, 2064, .channel 1 "/test" "Test" []⟩]
  items := oneMessage.file.sections.map fun s =>
    .stored s (if s = .channel ⟨"/test", "Test", []⟩ then .broken all else .intact)

theorem damagedChannel_damaged (all : Bool) : (damagedChannel all).Damaged oneMessage.file := by
  refine ⟨rfl, ?_, ?_⟩
  · rfl
  · refine ⟨oneMessage.file.sections.map fun s =>
      (s, if s = .channel ⟨"/test", "Test", []⟩ then .broken all else .intact), ?_, .inl ?_⟩
    · rw [map_map]
      exact map_id _ ▸ prefix_rfl
    · rfl

theorem recovers_known_damagedChannel :
    (damagedChannel false).Recovers (damagedChannel false).knownChannels ∧
      ¬ (damagedChannel true).Recovers (damagedChannel true).knownChannels :=
  ⟨(RecordInput.recovers_known_iff oneMessage.file_endsWithIndex (damagedChannel_damaged false)
      (by decide +kernel)).2 (by decide +kernel),
    fun h => absurd ((RecordInput.recovers_known_iff oneMessage.file_endsWithIndex
      (damagedChannel_damaged true) (by decide +kernel)).1 h) (by decide +kernel)⟩

/-- The channel of the damaged section is known from the index, and is written; and if the payload
is consumed, the message behind it is lost. -/
theorem not_recovers_intact :
    (damagedChannel false).Damaged oneMessage.file ∧
      ¬ (damagedChannel false).Recovers (damagedChannel false).intactChannels ∧
    (damagedChannel true).Damaged oneMessage.file ∧
      (damagedChannel true).intactMessages = [⟨"/test", 1, [1]⟩] ∧
      ¬ ∃ channels, (damagedChannel true).Recovers channels := by
  have hlast all := (damagedChannel_damaged all).indexLast oneMessage.file_endsWithIndex
  refine ⟨damagedChannel_damaged false, ?_, damagedChannel_damaged true, by decide +kernel, ?_⟩
  · rw [RecordInput.recovers_iff (hlast false) (by decide +kernel)]
    decide +kernel
  · rintro ⟨channels, h⟩
    have hms := ((RecordInput.recovers_iff (hlast true) (by decide +kernel)).1 h).1
    exact absurd hms (by decide +kernel)

end Record
