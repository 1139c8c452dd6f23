import CyberRT.Record.Proof.WriteOrder

/-!
# The segments of a recording

The maps of the writer have the channels that were written (`Knows`), so a new segment begins with
all of them, and the counters have the least time and the size of the messages in the segment
(`Counted`).
-/

namespace Record

open Lib List Option UInt64 SegmentRun

/-! ## The channels of calls -/

theorem declared_concat (calls : List RecordCall) (call : RecordCall) :
    declared (calls ++ [call]) = declaredBy (declared calls) call := by
  rw [declared, foldl_append]
  rfl

theorem acceptedFrom_concat (known : List Channel) (calls : List RecordCall) (call : RecordCall) :
    acceptedFrom known (calls ++ [call]) =
      acceptedFrom known calls ++ (accepted (calls.foldl declaredBy known) call).toList := by
  induction calls generalizing known with
  | nil => exact append_nil _
  | cons a calls ih =>
    rw [cons_append, acceptedFrom, ih, ← append_assoc]
    rfl

variable {c : Channel} {m : SingleMessage}

theorem declare_of_mem {known : List Channel} (h : c.name ∈ known.map Channel.name) :
    declare known c = known := if_pos h

theorem declare_of_notMem {known : List Channel}
    (h : c.name ∉ known.map Channel.name) : declare known c = known ++ [c] := if_neg h

theorem nodup_declare {known : List Channel} (h : (known.map Channel.name).Nodup) (c : Channel) :
    ((declare known c).map Channel.name).Nodup := by
  unfold declare
  grind

theorem nodup_declared (calls : List RecordCall) : ((declared calls).map Channel.name).Nodup := by
  induction calls using List.reverseRecOn with
  | nil => exact nodup_nil
  | append_singleton calls call ih =>
    rw [declared_concat]
    cases call with
    | channel c => exact nodup_declare ih c
    | typed name messageName fullName protoDesc content time inWriting => exact nodup_declare ih _
    | message name content time inWriting => exact ih
    | flush => exact ih

theorem accepted_positive {known : List Channel} {call : RecordCall}
    (h : accepted known call = some m) (hcall : call.Positive) : 0 < m.time := by
  cases call with
  | channel c => cases h
  | flush => cases h
  | message name content time inWriting =>
    obtain ⟨bs, -, rfl⟩ := map_eq_some_iff.1 h
    exact hcall
  | typed name messageName fullName protoDesc content time inWriting =>
    rw [accepted] at h
    split at h
    · obtain ⟨bs, -, rfl⟩ := map_eq_some_iff.1 h
      exact hcall
    · cases h

/-! ## The maps -/

namespace RecordWriter

structure Knows (w : RecordWriter) (known : List Channel) : Prop where
  names : w.channelMessageNumberMap.map Prod.fst = known.map Channel.name
  types : ∀ c ∈ known, w.channelMessageTypeMap c.name = some c.messageType
  descs : ∀ c ∈ known, w.channelProtoDescMap c.name = some c.protoDesc
  others : ∀ name ∉ known.map Channel.name, w.channelMessageTypeMap name = none

variable {w w' : RecordWriter} {known : List Channel} {o : MapOrder}

section
variable (h : Knows w known)
include h

theorem Knows.frame
    (hnames : w'.channelMessageNumberMap.map Prod.fst = w.channelMessageNumberMap.map Prod.fst)
    (htypes : w'.channelMessageTypeMap = w.channelMessageTypeMap)
    (hdescs : w'.channelProtoDescMap = w.channelProtoDescMap) : Knows w' known where
  names := hnames.trans h.names
  types := by
    rw [htypes]
    exact h.types
  descs := by
    rw [hdescs]
    exact h.descs
  others := by
    rw [htypes]
    exact h.others

theorem Knows.isNewChannel (name : String) :
    w.isNewChannel name = true ↔ name ∉ known.map Channel.name := by
  rw [RecordWriter.isNewChannel, h.names]
  simp

theorem Knows.onNewChannel (hnew : c.name ∉ known.map Channel.name) :
    Knows (w.onNewChannel c) (known ++ [c]) := by
  have hne : ∀ c' ∈ known, c'.name ≠ c.name := by grind
  refine ⟨?_, ?_, ?_, ?_⟩
  · rw [RecordWriter.onNewChannel, map_append, map_append, h.names]
    rfl
  · intro c' hc'
    rcases mem_append.1 hc' with hc' | hc'
    · exact (if_neg (hne c' hc')).trans (h.types c' hc')
    · obtain rfl := mem_singleton.1 hc'
      exact if_pos rfl
  · intro c' hc'
    rcases mem_append.1 hc' with hc' | hc'
    · exact (if_neg (hne c' hc')).trans (h.descs c' hc')
    · obtain rfl := mem_singleton.1 hc'
      exact if_pos rfl
  · intro name hname
    rw [map_append, mem_append, not_or] at hname
    refine (if_neg fun heq => hname.2 ?_).trans (h.others name hname.1)
    grind

theorem Knows.getMessageType_eq (hc : c ∈ known) : w.getMessageType c.name = c.messageType := by
  rw [getMessageType, h.types c hc]
  rfl

theorem Knows.mem_of_getMessageType {name : String}
    (hne : w.getMessageType name ≠ "") : ∃ c ∈ known, c.name = name := by
  by_contra hnone
  refine hne ?_
  rw [getMessageType, h.others name fun hmem => hnone (List.mem_map.1 hmem)]
  rfl

theorem Knows.channelOf_map : (w.channelMessageNumberMap.map fun e => w.channelOf e.1) = known := by
  have hself : ∀ c ∈ known, w.channelOf c.name = c := by
    intro c hc
    rw [channelOf, h.getMessageType_eq hc, h.descs c hc]
    rfl
  calc (w.channelMessageNumberMap.map fun e => w.channelOf e.1)
      = (w.channelMessageNumberMap.map Prod.fst).map w.channelOf := by rw [List.map_map]; rfl
    _ = known.map fun c => w.channelOf c.name := by rw [h.names, List.map_map]; rfl
    _ = known := by
      refine (map_congr_left hself).trans ?_
      exact List.map_id known

end

/-! ## A call before its message -/

def written (w : RecordWriter) : List SingleMessage := messagesIn (callsOf w.fileWriter.ops)
def given (w : RecordWriter) : List Channel := channelsIn (callsOf w.fileWriter.ops)

theorem written_give (w : RecordWriter) (op : WriterOp) :
    (w.give op).written = w.written ++ messagesIn (callsOf [op]) := by
  rw [written, give, callsOf, filterMap_append, messagesIn_append]
  rfl

theorem given_give (w : RecordWriter) (op : WriterOp) :
    (w.give op).given = w.given ++ channelsIn (callsOf [op]) := by
  rw [given, give, callsOf, filterMap_append, channelsIn_append]
  rfl

structure Prepared (w w' : RecordWriter) (known known' : List Channel) : Prop where
  knows : Knows w' known'
  header : w'.header = w.header
  segmentRawSize : w'.segmentRawSize = w.segmentRawSize
  segmentBeginTime : w'.segmentBeginTime = w.segmentBeginTime
  written : w'.written = w.written
  given : w.given.Perm known → w'.given.Perm known'

theorem Knows.prepared_self (h : Knows w known) : Prepared w w known known :=
  ⟨h, rfl, rfl, rfl, rfl, id⟩

theorem Knows.writeChannel (h : Knows w known) (c : Channel) :
    Prepared w (w.writeChannel c) known (declare known c) := by
  unfold RecordWriter.writeChannel
  split
  · rename_i hnew
    have hmem := (h.isNewChannel c.name).1 hnew
    rw [declare_of_notMem hmem]
    refine ⟨(h.onNewChannel hmem).frame rfl rfl rfl, rfl, rfl, rfl, ?_, fun hg => ?_⟩
    · rw [written_give]
      exact append_nil _
    · rw [given_give]
      exact hg.append_right [c]
  · rename_i hnew
    have hmem : c.name ∈ known.map Channel.name := by
      by_contra hnot
      exact hnew ((h.isNewChannel c.name).2 hnot)
    rw [declare_of_mem hmem]
    exact h.prepared_self

theorem Knows.prepare_spec (h : Knows w known) (call : RecordCall) :
    Prepared w (w.prepare call).1 known (declaredBy known call) ∧
      (w.prepare call).2.map Prod.fst = accepted known call := by
  cases call with
  | channel c => exact ⟨h.writeChannel c, rfl⟩
  | message name content time inWriting =>
    refine ⟨h.prepared_self, ?_⟩
    rw [prepare, accepted, Option.map_map]
    rfl
  | flush =>
    refine ⟨⟨h.frame rfl rfl rfl, rfl, rfl, rfl, ?_, fun hg => ?_⟩, rfl⟩
    · rw [prepare, written_give]
      exact append_nil _
    · rw [prepare, given_give]
      exact (append_nil w.given).symm ▸ hg
  | typed name messageName fullName protoDesc content time inWriting =>
    have hmap : (content.map fun content =>
        ((⟨name, time, content⟩ : SingleMessage), inWriting)).map Prod.fst =
          content.map fun content => ⟨name, time, content⟩ := by
      rw [Option.map_map]
      rfl
    unfold prepare accepted
    dsimp only
    split
    · rename_i htype
      refine ⟨h.writeChannel ⟨name, messageName, protoDesc⟩, hmap.trans (if_pos ?_).symm⟩
      intro c hc hname
      rw [← hname, h.getMessageType_eq hc] at htype
      exact .inl htype
    · rename_i htype
      -- the channel has a type
      obtain ⟨c, hc, rfl⟩ := h.mem_of_getMessageType htype
      have hmem : c.name ∈ known.map Channel.name := List.mem_map_of_mem hc
      have hdecl : declaredBy known
          (.typed c.name messageName fullName protoDesc content time inWriting) = known :=
        declare_of_mem (c := ⟨c.name, messageName, protoDesc⟩) hmem
      rw [hdecl, h.getMessageType_eq hc] at *
      split
      · refine ⟨h.prepared_self, (if_neg fun hall => ?_).symm⟩
        grind
      · rename_i hfull
        refine ⟨h.prepared_self, hmap.trans (if_pos ?_).symm⟩
        intro c' hc' hname
        rw [← h.getMessageType_eq hc', hname, h.getMessageType_eq hc]
        exact .inr (not_not.1 hfull).symm

/-! ## A message -/

theorem Knows.addMessage (h : Knows w known) (m : SingleMessage) (inWriting : Bool) :
    Knows (w.addMessage m inWriting) known := by
  refine h.frame ?_ rfl rfl
  rw [RecordWriter.addMessage, give, onNewMessage, List.map_map]
  refine map_congr_left fun e _ => ?_
  grind

theorem written_addMessage (w : RecordWriter) (m : SingleMessage) (inWriting : Bool) :
    (w.addMessage m inWriting).written = w.written ++ [m] :=
  written_give (w.onNewMessage m.channelName) (.message m inWriting)

theorem given_addMessage (w : RecordWriter) (m : SingleMessage) (inWriting : Bool) :
    (w.addMessage m inWriting).given = w.given :=
  (given_give (w.onNewMessage m.channelName) (.message m inWriting)).trans (append_nil _)

theorem Knows.splitOutfile (h : Knows w known) : Knows (w.splitOutfile o) known ∧
    (w.splitOutfile o).written = [] ∧ (w.splitOutfile o).given.Perm known := by
  refine ⟨h.frame rfl rfl rfl, ?_, ?_⟩
  · rw [written, RecordWriter.splitOutfile, callsOf, filterMap_map, messagesIn, filterMap_filterMap]
    exact filterMap_eq_nil_iff.2 fun _ _ => rfl
  · have hgiven : (w.splitOutfile o).given =
        (o.order w.channelMessageNumberMap).map fun e => w.channelOf e.1 := by
      rw [given, RecordWriter.splitOutfile, callsOf, filterMap_map, channelsIn, filterMap_filterMap]
      exact congrFun filterMap_eq_map _
    rw [hgiven]
    refine ((o.perm w.channelMessageNumberMap).map _).trans ?_
    rw [h.channelOf_map]

/-! ## The counters -/

structure Counted (w : RecordWriter) : Prop where
  positive : ⊥ ∉ w.written.map time
  beginTime : w.segmentBeginTime.toNat = (w.written.map time).foldl markedMin ⊥
  size : w.segmentRawSize = UInt64.ofNat (w.written.map fun m => m.content.length).sum
  interval : 0 < w.header.segmentInterval → w.written.Pairwise fun a b =>
    b.time.toNat ≤ a.time.toNat + w.header.segmentInterval.toNat
  rawSize : 0 < w.header.segmentRawSize → w.segmentRawSize ≤ w.header.segmentRawSize

theorem counted_of_nil (hw : w.written = []) (hb : w.segmentBeginTime = 0)
    (hs : w.segmentRawSize = 0) : Counted w where
  positive := by simp [hw]
  beginTime := by
    rw [hw, hb]
    rfl
  size := by
    rw [hw, hs]
    rfl
  interval _ := by
    rw [hw]
    exact .nil
  rawSize _ := by
    rw [hs]
    exact UInt64.zero_le

theorem Counted.frame (h : Counted w) (hheader : w'.header = w.header)
    (hsize : w'.segmentRawSize = w.segmentRawSize)
    (hbegin : w'.segmentBeginTime = w.segmentBeginTime) (hwritten : w'.written = w.written) :
    Counted w' where
  positive := by
    rw [hwritten]
    exact h.positive
  beginTime := by rw [hbegin, hwritten, h.beginTime]
  size := by rw [hsize, hwritten, h.size]
  interval := by
    rw [hheader, hwritten]
    exact h.interval
  rawSize := by
    rw [hheader, hsize]
    exact h.rawSize

theorem Counted.addMessage (h : Counted w) (hm : 0 < m.time) (inWriting : Bool)
    (hsplit : (w.addMessage m inWriting).needSplit m = false) :
    Counted (w.addMessage m inWriting) := by
  have hpositive : ⊥ ∉ (w.addMessage m inWriting).written.map time := by
    rw [written_addMessage, map_append, mem_append, not_or]
    refine ⟨h.positive, fun hmem => ?_⟩
    have hzero : 0 = m.time.toNat := mem_singleton.1 hmem
    have hlt := lt_iff_toNat_lt.1 hm
    grind
  have hbegin : (w.addMessage m inWriting).segmentBeginTime.toNat =
      ((w.addMessage m inWriting).written.map time).foldl markedMin ⊥ := by
    rw [written_addMessage, map_append, foldl_append, ← h.beginTime]
    exact addBegin_toNat w.segmentBeginTime m.time
  have hle := foldl_markedMin_le hpositive
  rw [← hbegin] at hle
  rw [needSplit, Bool.or_eq_false_iff] at hsplit
  refine ⟨hpositive, hbegin, ?_, fun hpos => ?_, fun hpos => ?_⟩
  · rw [written_addMessage, map_append, sum_append, ofNat_add, ← h.size]
    rfl
  · -- the message is not too late for the least time, so for none before it
    rw [written_addMessage] at hle ⊢
    refine pairwise_append.2 ⟨h.interval hpos, pairwise_singleton _ _, ?_⟩
    intro a ha b hb
    obtain rfl := mem_singleton.1 hb
    have ha := hle (time a) (List.mem_map_of_mem (mem_append_left _ ha))
    have hb := hle (time b) (List.mem_map_of_mem (mem_append_right _ mem_cons_self))
    have hpos' : (w.addMessage b inWriting).header.segmentInterval > 0 := hpos
    have hspan : b.time - (w.addMessage b inWriting).segmentBeginTime ≤
        (w.addMessage b inWriting).header.segmentInterval := by
      simpa [hpos'] using hsplit.1
    rw [le_iff_toNat_le, UInt64.toNat_sub_of_le _ _ (le_iff_toNat_le.2 hb)] at hspan
    change _ ≤ a.time.toNat at ha
    omega
  · grind

theorem Counted.within_iff (h : Counted w) :
    Within w.header w.written ↔ NoneLate w.header w.written := by
  constructor
  · intro hw
    refine ⟨fun hpos => ?_, fun hpos => ?_⟩
    · exact pairwise_of_forall_mem_list fun a ha b hb => hw.interval hpos b hb a ha
    · exact Nat.lt_of_le_of_lt (hw.rawSize hpos) (toNat_lt _)
  · intro hn
    refine ⟨fun hpos a ha b hb => ?_, fun hpos => ?_⟩
    · have hsymm : Std.Symm fun a b : SingleMessage =>
          a.time.toNat ≤ b.time.toNat + w.header.segmentInterval.toNat ∧
            b.time.toNat ≤ a.time.toNat + w.header.segmentInterval.toNat := ⟨fun _ _ => And.symm⟩
      have hboth := (hn.1 hpos).and (h.interval hpos)
      have hself : ∀ x : SingleMessage,
          x.time.toNat ≤ x.time.toNat + w.header.segmentInterval.toNat :=
        fun x => Nat.le_add_right _ _
      exact (hboth.forall_of_forall (fun x _ => ⟨hself x, hself x⟩) ha hb).2
    · have hle := le_iff_toNat_le.1 (h.rawSize hpos)
      rw [h.size, toNat_ofNat_of_lt' (hn.2 hpos)] at hle
      exact hle

end RecordWriter

theorem Within.of_append {header : SegmentHeader} {ms ms' : List SingleMessage}
    (h : Within header (ms ++ ms')) : Within header ms where
  interval hpos a ha b hb := h.interval hpos a (mem_append_left _ ha) b (mem_append_left _ hb)
  rawSize hpos := by
    have hsum := h.rawSize hpos
    grind

theorem Within.dropLast {header : SegmentHeader} {ms : List SingleMessage} (h : Within header ms) :
    Within header ms.dropLast := by
  obtain ⟨ms', hms⟩ := dropLast_prefix ms
  rw [← hms] at h
  exact h.of_append

/-! ## The steps -/

namespace SegmentRun

open RecordWriter

variable {o : MapOrder} {s : SegmentRun} {calls : List RecordCall} {call : RecordCall}

theorem step_cases (o : MapOrder) (s : SegmentRun) (call : RecordCall) :
    ((s.writer.prepare call).2 = none ∧
      s.step o call = ⟨(s.writer.prepare call).1, s.closed, s.calls ++ [call]⟩) ∨
    ∃ m inWriting w, (s.writer.prepare call).2 = some (m, inWriting) ∧
      w = (s.writer.prepare call).1.addMessage m inWriting ∧
      (w.needSplit m = false ∧ s.step o call = ⟨w, s.closed, s.calls ++ [call]⟩ ∨
        s.step o call =
          ⟨w.splitOutfile o, s.closed ++ [⟨s.calls ++ [call], w.fileWriter⟩], []⟩) := by
  unfold step RecordWriter.step
  obtain ⟨w, message⟩ := s.writer.prepare call
  cases message with
  | none => exact .inl ⟨rfl, rfl⟩
  | some message =>
    dsimp only [writeMessage]
    grind

structure Ok (header : SegmentHeader) (s : SegmentRun) (calls : List RecordCall) : Prop where
  header_eq : s.writer.header = header
  knows : s.writer.Knows (declared calls)
  given : s.writer.given.Perm (declared calls)
  calls_eq : s.segments.flatMap Segment.calls = calls
  order : s.segments.flatMap Segment.written = acceptedFrom [] calls
  closed : ∀ pre seg suf, s.closed = pre ++ seg :: suf →
    (channelsIn (callsOf seg.recording.ops)).Perm (declared ((pre ++ [seg]).flatMap Segment.calls))

variable {header : SegmentHeader}

theorem ok_init (header : SegmentHeader) : Ok header (init header) [] where
  header_eq := rfl
  knows := ⟨rfl, nofun, nofun, fun _ _ => rfl⟩
  given := .refl _
  calls_eq := rfl
  order := rfl
  closed pre seg suf h := absurd h (by simp [init])

theorem Ok.goOn (h : Ok header s calls) {w : RecordWriter} (hheader : w.header = s.writer.header)
    (hknows : w.Knows (declaredBy (declared calls) call))
    (hgiven : w.given.Perm (declaredBy (declared calls) call))
    (hwritten : w.written = s.writer.written ++ (accepted (declared calls) call).toList) :
    Ok header ⟨w, s.closed, s.calls ++ [call]⟩ (calls ++ [call]) where
  header_eq := hheader.trans h.header_eq
  knows := by
    rw [declared_concat]
    exact hknows
  given := by
    rw [declared_concat]
    exact hgiven
  calls_eq := by
    have hcalls := h.calls_eq
    rw [segments, flatMap_append, flatMap_singleton] at hcalls ⊢
    rw [← hcalls, append_assoc]
    rfl
  order := by
    have horder := h.order
    rw [segments, flatMap_append, flatMap_singleton] at horder ⊢
    rw [acceptedFrom_concat, ← horder, append_assoc]
    exact congrArg (_ ++ ·) hwritten
  closed := h.closed

theorem Ok.split (h : Ok header s calls) (o : MapOrder) :
    Ok header ⟨s.writer.splitOutfile o, s.closed ++ [s.current], []⟩ calls := by
  obtain ⟨hknows, hwritten, hgiven⟩ := h.knows.splitOutfile (o := o)
  refine ⟨h.header_eq, hknows, hgiven, ?_, ?_, ?_⟩
  · rw [segments, flatMap_append]
    exact (append_nil _).trans h.calls_eq
  · rw [segments, flatMap_append, flatMap_singleton]
    refine (congrArg (_ ++ ·) hwritten).trans ?_
    exact (append_nil _).trans h.order
  · intro pre seg suf hclosed
    rcases eq_nil_or_concat suf with rfl | ⟨suf, last, rfl⟩
    · -- the segment that was just closed
      obtain ⟨rfl, hseg⟩ := append_inj' hclosed rfl
      obtain rfl := singleton_inj.1 hseg
      rw [show s.closed ++ [s.current] = s.segments from rfl, h.calls_eq]
      exact h.given
    · refine h.closed pre seg suf ?_
      rw [concat_eq_append, ← cons_append, ← append_assoc] at hclosed
      exact (append_inj' hclosed rfl).1

structure Inv (header : SegmentHeader) (s : SegmentRun) (calls : List RecordCall) : Prop
    extends Ok header s calls where
  counted : s.writer.Counted

theorem inv_init (header : SegmentHeader) : Inv header (init header) [] :=
  ⟨ok_init header, counted_of_nil rfl rfl rfl⟩

theorem Inv.step (h : Inv header s calls) (hcall : call.Positive) (o : MapOrder) :
    Inv header (s.step o call) (calls ++ [call]) := by
  obtain ⟨hprep, haccepted⟩ := h.knows.prepare_spec call
  obtain ⟨hnone, hstep⟩ | ⟨m, inWriting, w, hsome, rfl, hw⟩ := step_cases o s call
  · rw [hnone] at haccepted
    rw [hstep]
    refine ⟨h.goOn hprep.header hprep.knows (hprep.given h.given) ?_, ?_⟩
    · rw [← haccepted, hprep.written]
      exact (append_nil _).symm
    · exact h.counted.frame hprep.header hprep.segmentRawSize hprep.segmentBeginTime hprep.written
  · rw [hsome] at haccepted
    have hpositive := accepted_positive haccepted.symm hcall
    have hcounted : (s.writer.prepare call).1.Counted :=
      h.counted.frame hprep.header hprep.segmentRawSize hprep.segmentBeginTime hprep.written
    have hok : Ok header
        ⟨(s.writer.prepare call).1.addMessage m inWriting, s.closed, s.calls ++ [call]⟩
          (calls ++ [call]) := by
      refine h.goOn hprep.header (hprep.knows.addMessage m inWriting) ?_ ?_
      · rw [given_addMessage]
        exact hprep.given h.given
      · rw [written_addMessage, hprep.written, ← haccepted]
        rfl
    rcases hw with ⟨hsplit, hstep⟩ | hstep
    · rw [hstep]
      exact ⟨hok, hcounted.addMessage hpositive inWriting hsplit⟩
    · rw [hstep]
      exact ⟨hok.split o, counted_of_nil hok.knows.splitOutfile.2.1 rfl rfl⟩

theorem run_inv (o : MapOrder) (header : SegmentHeader) {calls : List RecordCall}
    (hpos : ∀ call ∈ calls, call.Positive) :
    Inv header (calls.foldl (step o) (init header)) calls := by
  induction calls using List.reverseRecOn with
  | nil => exact inv_init header
  | append_singleton calls call ih =>
    rw [foldl_append]
    exact (ih fun c hc => hpos c (mem_append_left _ hc)).step
      (hpos call (mem_append_right _ mem_cons_self)) o

/-! ## The limits -/

def Limits (header : SegmentHeader) (s : SegmentRun) : Prop :=
  ∀ seg ∈ s.segments, Within header seg.written.dropLast

theorem limits_iff : Limits header s ↔ (∀ seg ∈ s.closed, Within header seg.written.dropLast) ∧
      Within header s.writer.written.dropLast := by
  unfold Limits segments
  rw [forall_mem_append, forall_mem_singleton]
  rfl

theorem Inv.limits_step (h : Inv header s calls) (o : MapOrder) (call : RecordCall) :
    Limits header (s.step o call) ↔ Limits header s ∧ s.InTime call := by
  obtain ⟨hprep, haccepted⟩ := h.knows.prepare_spec call
  obtain ⟨hnone, hstep⟩ | ⟨m, inWriting, w, hsome, rfl, hw⟩ := step_cases o s call
  · have htime : s.InTime call := by
      intro hsome
      rw [hnone] at hsome
      cases hsome
    rw [hstep, limits_iff, limits_iff, hprep.written]
    exact (and_iff_left htime).symm
  · have hwritten : ((s.writer.prepare call).1.addMessage m inWriting).written =
        s.writer.written ++ [m] := by rw [written_addMessage, hprep.written]
    -- the messages before this one are no longer without the last of them
    have hall : Limits header (s.step o call) ↔
        (∀ seg ∈ s.closed, Within header seg.written.dropLast) ∧
          Within header s.writer.written := by
      rcases hw with ⟨-, hstep⟩ | hstep
      · rw [hstep, limits_iff, hwritten, dropLast_concat]
      · have hknows := hprep.knows.addMessage m inWriting
        have hseg : (⟨s.calls ++ [call],
            ((s.writer.prepare call).1.addMessage m inWriting).fileWriter⟩ : Segment).written =
              s.writer.written ++ [m] := hwritten
        have hnil : Within header [] := ⟨fun _ => nofun, fun _ => Nat.zero_le _⟩
        rw [hstep, limits_iff, (hknows.splitOutfile).2.1, forall_mem_append,
          forall_mem_singleton, hseg, dropLast_concat]
        exact and_iff_left hnil
    have hin : s.InTime call ↔ Within header s.writer.written := by
      rw [← h.header_eq, h.counted.within_iff, InTime, hsome]
      exact forall_prop_of_true rfl
    rw [hall, limits_iff, hin, and_assoc]
    exact and_congr_right fun _ => ⟨fun hwithin => ⟨hwithin.dropLast, hwithin⟩, And.right⟩

end SegmentRun

/-! ## All calls -/

section
variable {header : SegmentHeader} {s : SegmentRun} {calls : List RecordCall} {seg : Segment}

theorem SegmentRun.Ok.stored (h : s.Ok header calls) (hlt : (acceptedFrom [] calls).length < 2 ^ 64)
    (hseg : seg ∈ s.segments) :
    seg.recording.file.messages.Perm seg.written ∧
      (seg.recording.AllInTurn → seg.recording.file.messages = seg.written) := by
  obtain ⟨pre, suf, hsegs⟩ := append_of_mem hseg
  have hle : seg.written.length ≤ (acceptedFrom [] calls).length := by
    rw [← h.order, hsegs, flatMap_append, flatMap_cons, length_append, length_append]
    omega
  rw [Segment.written, ← writtenBy_eq] at hle ⊢
  have hlt' := Nat.lt_of_le_of_lt hle hlt
  exact ⟨seg.recording.file_messages hlt', (seg.recording.file_messages_inOrder hlt').1⟩

theorem SegmentRun.Ok.channels (h : s.Ok header calls) {pre suf : List Segment}
    (hsegs : s.segments = pre ++ seg :: suf) :
    (seg.recording.file.channels.map Channel.name).Nodup ∧
      seg.recording.file.channels.Perm (declared ((pre ++ [seg]).flatMap Segment.calls)) := by
  have hperm : seg.recording.file.channels.Perm
      (declared ((pre ++ [seg]).flatMap Segment.calls)) := by
    rw [Recording.file_channels]
    rcases eq_nil_or_concat suf with rfl | ⟨suf, last, rfl⟩
    · rw [← hsegs, h.calls_eq]
      obtain ⟨-, hseg⟩ := append_inj' hsegs rfl
      obtain rfl := singleton_inj.1 hseg
      exact h.given
    · refine h.closed pre seg suf ?_
      rw [concat_eq_append, ← cons_append, ← append_assoc] at hsegs
      exact (append_inj' hsegs rfl).1
  exact ⟨(hperm.map Channel.name).nodup_iff.2 (nodup_declared _), hperm⟩

/-- **The segments are right exactly if no message before the last of a segment was late.** -/
theorem segments_right_iff (o : MapOrder) (header : SegmentHeader) (calls : List RecordCall)
    (hpos : ∀ call ∈ calls, call.Positive) (hlt : (acceptedFrom [] calls).length < 2 ^ 64) :
    SegmentsRight header calls
        (calls.foldl (step o) (init header)).segments ↔
      Along (step o) InTime (init header) calls := by
  have hinv := run_inv o header hpos
  have hlimits : Limits header
      (calls.foldl (step o) (init header)) ↔
        Limits header (init header) ∧
          Along (step o) InTime (init header) calls := by
    refine foldl_iff_along (I := fun s => ∃ pre, s.Inv header pre)
      ⟨[], inv_init header⟩ ?_ ?_
    · intro s call hcall hs
      obtain ⟨pre, hs⟩ := hs
      exact ⟨pre ++ [call], hs.step (hpos call hcall) o⟩
    · intro s call _ hs
      obtain ⟨pre, hs⟩ := hs
      exact hs.limits_step o call
  have hinit : Limits header (init header) :=
    limits_iff.2 ⟨nofun, fun _ => nofun, fun _ => Nat.zero_le _⟩
  rw [and_iff_right hinit] at hlimits
  refine ⟨fun h => hlimits.1 h.limits, fun h => ?_⟩
  exact ⟨hinv.calls_eq, hinv.order, fun seg hseg => hinv.stored hlt hseg,
    fun pre seg suf hsegs => hinv.channels hsegs, hlimits.2 h⟩

end

def callsAt (times : List UInt64) : List RecordCall :=
  .channel ⟨"/test/channel1", "Test", [7]⟩ ::
    times.map fun t => .message "/test/channel1" (some []) t false

def inOrder : MapOrder := ⟨id, fun _ => .refl _⟩

def tenHeader : SegmentHeader := ⟨HeaderBuilder.getHeader, 10, 0⟩

/-- Two segments, of which the second has its first messages out of order. -/
theorem segments_right_twoSegments : SegmentsRight tenHeader (callsAt [100, 105, 120, 135, 130])
    ((callsAt [100, 105, 120, 135, 130]).foldl (step inOrder)
      (init tenHeader)).segments :=
  (segments_right_iff inOrder tenHeader _ (by decide) (by decide)).2 (by decide +kernel)

/-- Messages that come ever earlier stay in one segment, which has 50 nanoseconds before its last
message. -/
theorem not_segments_right_ever_earlier : ¬ SegmentsRight tenHeader (callsAt [100, 50, 49])
    ((callsAt [100, 50, 49]).foldl (step inOrder)
      (init tenHeader)).segments := by
  intro h
  have hwritten : ((callsAt [100, 50, 49]).foldl (step inOrder)
      (init tenHeader)).segments.map (fun seg => seg.written.dropLast) =
        [[⟨"/test/channel1", 100, []⟩, ⟨"/test/channel1", 50, []⟩]] := by decide +kernel
  have hmem : [⟨"/test/channel1", 100, []⟩, ⟨"/test/channel1", 50, []⟩] ∈
      ((callsAt [100, 50, 49]).foldl (step inOrder)
        (init tenHeader)).segments.map (fun seg => seg.written.dropLast) := by
    grind
  obtain ⟨seg, hseg, hlast⟩ := List.mem_map.1 hmem
  have hlimit := (h.limits seg hseg).interval (by decide) ⟨"/test/channel1", 50, []⟩
    (by rw [hlast]; simp) ⟨"/test/channel1", 100, []⟩ (by rw [hlast]; simp)
  exact absurd hlimit (by decide)

end Record
