import Mathlib.Data.List.Induction
import CyberRT.Record.Recorder

/-!
# Writers that join while a recorder starts

A join that is registered after `Start` has looked at the writers, and notified before `Start` has
its listener in place, is seen by neither.
-/

namespace Record

open Base Discovery Function List

namespace Recorder

variable {cfg : RecorderConfig} {r : Recorder} {attr : RoleAttributes} {name : String}

@[simp] theorem writeChannel_readers (r : Recorder) (name messageType protoDesc : String) :
    (r.writeChannel name messageType protoDesc).channelReaderMap = r.channelReaderMap := by
  unfold writeChannel
  split <;> rfl

theorem findNewChannel_eq_self
    (h : ¬ WantedAttr cfg attr ∨ attr.getChannelName ∈ r.channelReaderMap) :
    r.findNewChannel cfg attr = r := by
  unfold findNewChannel
  dsimp only
  split_ifs with hname htype hdesc hmem hwhite hblack
  all_goals try rfl
  exfalso
  refine h.elim (fun hno => hno ⟨hname, htype, hdesc, ?_, by simpa using hblack⟩) hmem
  grind

theorem findNewChannel_new (h : WantedAttr cfg attr)
    (hnew : attr.getChannelName ∉ r.channelReaderMap) :
    r.findNewChannel cfg attr =
      (r.writeChannel attr.getChannelName attr.getMessageType attr.getProtoDesc).initReaderImpl
        attr.getChannelName := by
  have hwhite : ¬ ((!cfg.allChannels &&
      !channelMatch cfg.whiteChannels cfg.whiteChannelPatterns attr.getChannelName) = true) := by
    rcases h.white with hw | hw <;> simp [hw]
  simp only [findNewChannel, if_neg h.name, if_neg h.messageType, if_neg h.protoDesc, if_neg hnew,
    if_neg hwhite, h.black]
  rfl

theorem mem_findNewChannel :
    name ∈ (r.findNewChannel cfg attr).channelReaderMap ↔
      name ∈ r.channelReaderMap ∨ WantedAttr cfg attr ∧ name = attr.getChannelName := by
  by_cases h : ¬ WantedAttr cfg attr ∨ attr.getChannelName ∈ r.channelReaderMap
  · rw [findNewChannel_eq_self h]
    grind
  · rw [not_or, not_not] at h
    rw [findNewChannel_new h.1 h.2]
    simp [initReaderImpl, h.1]

def HasSections (r : Recorder) : Prop :=
  ∀ name ∈ r.channelReaderMap, ∃ sec ∈ r.sections, sec.1 = name

theorem HasSections.findNewChannel (h : r.HasSections) (cfg : RecorderConfig)
    (attr : RoleAttributes) : (r.findNewChannel cfg attr).HasSections := by
  by_cases hsame : ¬ WantedAttr cfg attr ∨ attr.getChannelName ∈ r.channelReaderMap
  · rwa [findNewChannel_eq_self hsame]
  · rw [not_or, not_not] at hsame
    rw [findNewChannel_new hsame.1 hsame.2]
    intro name hname
    simp only [initReaderImpl, writeChannel_readers, mem_append, mem_singleton] at hname
    simp only [initReaderImpl, writeChannel]
    rcases hname with hname | rfl
    · obtain ⟨sec, hsec, heq⟩ := h name hname
      grind
    · split
      · rename_i hany
        simpa using hany
      · exact ⟨_, mem_append_right _ (mem_singleton_self _), rfl⟩

theorem HasSections.topologyCallback (h : r.HasSections) (cfg : RecorderConfig) (msg : ChangeMsg) :
    (r.topologyCallback cfg msg).HasSections := by
  unfold Recorder.topologyCallback
  split
  · exact h
  · exact h.findNewChannel cfg _

end Recorder

namespace RecorderSystem

variable {ι : Type*} {cfg : RecorderConfig} {msgs : ι → ChangeMsg} {s : RecorderSystem ι}
  {C C' : ι → Prop} {i k : ι} {name : String} {rest : List RoleAttributes} {msg : ChangeMsg}
  {n : Nat}

theorem mem_topologyCallback {r : Recorder} :
    name ∈ (r.topologyCallback cfg msg).channelReaderMap ↔
      name ∈ r.channelReaderMap ∨ Wanted cfg msg ∧ name = msg.roleAttr.getChannelName := by
  unfold Recorder.topologyCallback Wanted
  by_cases h : msg.roleType = .writer
  · simp [h, Recorder.mem_findNewChannel]
  · simp [h]

def Due (msgs : ι → ChangeMsg) (s : RecorderSystem ι) (k : ι) : Prop :=
  s.start = .returned false ∨
    (BeforeSnapshot s.start ∧
      ∃ item ∈ s.manager.channelWriters, item.2.attributes = (msgs k).roleAttr) ∨
    (∃ rest, s.start = .find rest ∧ (msgs k).roleAttr ∈ rest) ∨
    msgs k ∈ s.pending ∨ (msgs k).roleAttr.getChannelName ∈ s.recorder.channelReaderMap

theorem due_before (h : BeforeSnapshot s.start) : s.Due msgs k ↔
    (∃ item ∈ s.manager.channelWriters, item.2.attributes = (msgs k).roleAttr) ∨
      msgs k ∈ s.pending ∨ (msgs k).roleAttr.getChannelName ∈ s.recorder.channelReaderMap := by
  rcases h with h | h <;> simp [Due, BeforeSnapshot, h]

theorem due_find (h : s.start = .find rest) : s.Due msgs k ↔
    (msgs k).roleAttr ∈ rest ∨ msgs k ∈ s.pending ∨
      (msgs k).roleAttr.getChannelName ∈ s.recorder.channelReaderMap := by
  simp [Due, BeforeSnapshot, h]

theorem due_behind (h : s.start = .connect ∨ s.start = .returned true) : s.Due msgs k ↔
    msgs k ∈ s.pending ∨ (msgs k).roleAttr.getChannelName ∈ s.recorder.channelReaderMap := by
  rcases h with h | h <;> simp [Due, BeforeSnapshot, h]

def OfWriter (msgs : ι → ChangeMsg) (C : ι → Prop) (attr : RoleAttributes) : Prop :=
  ∃ k, C k ∧ (msgs k).roleType = .writer ∧ attr = (msgs k).roleAttr

structure Inv (cfg : RecorderConfig) (msgs : ι → ChangeMsg) (C : ι → Prop) (s : RecorderSystem ι) :
    Prop where
  writers : BeforeSnapshot s.start →
    ∀ item ∈ s.manager.channelWriters, OfWriter msgs C item.2.attributes
  rest : ∀ rest, s.start = .find rest → ∀ attr ∈ rest, OfWriter msgs C attr
  pending : ∀ msg ∈ s.pending, ∃ k, C k ∧ msg = msgs k
  readers : ∀ name ∈ s.recorder.channelReaderMap,
    ∃ k, C k ∧ Wanted cfg (msgs k) ∧ name = (msgs k).roleAttr.getChannelName
  due : ∀ k, C k → Wanted cfg (msgs k) → s.Due msgs k
  sections : s.recorder.HasSections
  signal : s.signal = if s.start = .returned true then ⟨[⟨0, (), true⟩]⟩ else ⟨[]⟩

theorem OfWriter.mono {attr : RoleAttributes} (h : OfWriter msgs C attr) (hC : ∀ k, C k → C' k) :
    OfWriter msgs C' attr := by
  obtain ⟨k, hk, hrest⟩ := h
  exact ⟨k, hC k hk, hrest⟩

theorem Inv.init : Inv cfg msgs (fun _ => False) (init : RecorderSystem ι) where
  writers _ _ h := absurd h not_mem_nil
  rest _ h := by cases h
  pending _ h := absurd h not_mem_nil
  readers _ h := absurd h not_mem_nil
  due _ h := h.elim
  sections _ h := absurd h not_mem_nil
  signal := rfl

theorem disposeJoin_channelWriters (m : ChannelManager) (msg : ChangeMsg) (item : UInt64 × Role) :
    item ∈ (m.disposeJoin msg).channelWriters ↔ item ∈ m.channelWriters ∨
      msg.roleType = .writer ∧ item = (msg.roleAttr.getChannelId,
        { cls := .writer, attributes := msg.roleAttr, timestampNs := msg.timestamp }) := by
  unfold ChannelManager.disposeJoin
  by_cases h : msg.roleType = .writer
  · simp [h, MultiValueWarehouse.add]
  · simp [h]

section
variable [DecidableEq ι]

section
variable (h : Inv cfg msgs C s)
include h

theorem Inv.add (hi : s.joins i = .waiting)
    (hC : ∀ k, C' k ↔ C k ∨ k = i ∧ s.Learns i) : Inv cfg msgs C' (s.joinStep msgs i) := by
  have hmono : ∀ k, C k → C' k := fun k hk => (hC k).2 (.inl hk)
  have hstep : s.joinStep msgs i = { s with
      manager := s.manager.disposeJoin (msgs i)
      joins := update s.joins i .added } := by
    rw [joinStep, hi]
  have hnew : BeforeSnapshot s.start → C' i := fun hb => (hC i).2 (.inr ⟨rfl, .inl ⟨hi, hb⟩⟩)
  rw [hstep]
  refine ⟨fun hb item hitem => ?_, fun rest hr attr ha => (h.rest rest hr attr ha).mono hmono,
    fun msg hmsg => ?_, fun name hname => ?_, fun k hk hw => ?_, h.sections, h.signal⟩
  · rcases (disposeJoin_channelWriters _ _ _).1 hitem with hitem | ⟨hrole, rfl⟩
    · exact (h.writers hb item hitem).mono hmono
    · exact ⟨i, hnew hb, hrole, rfl⟩
  · obtain ⟨k, hk, heq⟩ := h.pending msg hmsg
    exact ⟨k, hmono k hk, heq⟩
  · obtain ⟨k, hk, heq⟩ := h.readers name hname
    exact ⟨k, hmono k hk, heq⟩
  · rcases (hC k).1 hk with hk | ⟨rfl, hlearns⟩
    · rcases h.due k hk hw with hd | ⟨hb, item, hitem, heq⟩ | hd
      · exact .inl hd
      · exact .inr (.inl ⟨hb, item, (disposeJoin_channelWriters _ _ _).2 (.inl hitem), heq⟩)
      · exact .inr (.inr hd)
    · rcases hlearns with ⟨-, hb⟩ | ⟨hadded, -⟩
      · exact .inr (.inl ⟨hb, _, (disposeJoin_channelWriters _ _ _).2 (.inr ⟨hw.1, rfl⟩), rfl⟩)
      · rw [hi] at hadded
        cases hadded

theorem Inv.notify (hi : s.joins i = .added)
    (hC : ∀ k, C' k ↔ C k ∨ k = i ∧ s.Learns i) : Inv cfg msgs C' (s.joinStep msgs i) := by
  have hmono : ∀ k, C k → C' k := fun k hk => (hC k).2 (.inl hk)
  have hsignal := h.signal
  have hlearns : s.Learns i ↔ s.start = .returned true := by simp [Learns, hi]
  have hstep : s.joinStep msgs i = { s with
      pending := s.pending ++ if s.start = .returned true then [msgs i] else []
      joins := update s.joins i .notified } := by
    rw [joinStep, hi]
    by_cases hret : s.start = .returned true
    · simp [hsignal, hret, Signal.emit, Signal.clearDisconnectedSlots]
    · simp [hsignal, hret, Signal.emit, Signal.clearDisconnectedSlots]
  rw [hstep]
  refine ⟨fun hb item hitem => (h.writers hb item hitem).mono hmono,
    fun rest hr attr ha => (h.rest rest hr attr ha).mono hmono, fun msg hmsg => ?_,
    fun name hname => ?_, fun k hk hw => ?_, h.sections, h.signal⟩
  · rcases mem_append.1 hmsg with hmsg | hmsg
    · obtain ⟨k, hk, heq⟩ := h.pending msg hmsg
      exact ⟨k, hmono k hk, heq⟩
    · grind
  · obtain ⟨k, hk, heq⟩ := h.readers name hname
    exact ⟨k, hmono k hk, heq⟩
  · rcases (hC k).1 hk with hk | ⟨rfl, hl⟩
    · rcases h.due k hk hw with hd | hd | hd | hd | hd
      · exact .inl hd
      · exact .inr (.inl hd)
      · exact .inr (.inr (.inl hd))
      · exact .inr (.inr (.inr (.inl (mem_append_left _ hd))))
      · exact .inr (.inr (.inr (.inr hd)))
    · refine .inr (.inr (.inr (.inl (mem_append_right _ ?_))))
      grind

theorem Inv.joinStep (hC : ∀ k, C' k ↔ C k ∨ k = i ∧ s.Learns i) :
    Inv cfg msgs C' (s.joinStep msgs i) := by
  cases hi : s.joins i with
  | waiting => exact h.add hi hC
  | added => exact h.notify hi hC
  | notified =>
    have hlearns : ¬ s.Learns i := by simp [Learns, hi]
    obtain rfl : C' = C := funext fun k => propext (by simp [hC, hlearns])
    rw [RecorderSystem.joinStep, hi]
    exact h

end

end

section
variable (h : Inv cfg msgs C s)
include h

theorem Inv.goto {pc : StartPc} (hw : BeforeSnapshot pc → BeforeSnapshot s.start)
    (hr : ∀ rest, pc = .find rest → ∀ attr ∈ rest, OfWriter msgs C attr)
    (hd : ∀ k, C k → s.Due msgs k → ({ s with start := pc } : RecorderSystem ι).Due msgs k)
    (hs : pc = .returned true ↔ s.start = .returned true) :
    Inv cfg msgs C { s with start := pc } where
  writers hb := h.writers (hw hb)
  rest := hr
  pending := h.pending
  readers := h.readers
  due k hk hk' := hd k hk (h.due k hk hk')
  sections := h.sections
  signal := by simpa only [hs] using h.signal

theorem Inv.find {attr : RoleAttributes} (hstart : s.start = .find (attr :: rest)) :
    Inv cfg msgs C
      { s with recorder := s.recorder.findNewChannel cfg attr, start := .find rest } := by
  refine ⟨fun hb => ?_, fun rest' hr a ha => ?_, h.pending, fun name hname => ?_, fun k hk hw => ?_,
    h.sections.findNewChannel cfg attr, ?_⟩
  · rcases hb with hb | hb <;> cases hb
  · obtain rfl : rest = rest' := by simpa using hr
    exact h.rest _ hstart a (mem_cons_of_mem attr ha)
  · rcases Recorder.mem_findNewChannel.1 hname with hname | ⟨hwanted, rfl⟩
    · exact h.readers name hname
    · obtain ⟨k, hk, hrole, rfl⟩ := h.rest _ hstart attr mem_cons_self
      exact ⟨k, hk, ⟨hrole, hwanted⟩, rfl⟩
  · rw [due_find rfl]
    rcases (due_find hstart).1 (h.due k hk hw) with hd | hd | hd
    · rcases mem_cons.1 hd with rfl | hd
      · exact .inr (.inr (Recorder.mem_findNewChannel.2 (.inr ⟨hw.2, rfl⟩)))
      · exact .inl hd
    · exact .inr (.inl hd)
    · exact .inr (.inr (Recorder.mem_findNewChannel.2 (.inl hd)))
  · have hsignal := h.signal
    grind

theorem Inv.startStep : Inv cfg msgs C (s.startStep cfg) := by
  unfold RecorderSystem.startStep
  cases hstart : s.start with
  | checkLists =>
    dsimp only
    split
    · refine h.goto (fun hb => ?_) nofun (fun k _ _ => .inl rfl) (by simp [hstart])
      rcases hb with hb | hb <;> cases hb
    · refine h.goto (fun _ => .inl hstart) nofun (fun k _ hd => ?_) (by simp [hstart])
      exact (due_before (.inr rfl)).2 ((due_before (.inl hstart)).1 hd)
  | getWriters =>
    refine h.goto (fun _ => .inr hstart) (fun rest hr attr ha => ?_) (fun k _ hd => ?_)
      (by simp [hstart])
    · obtain rfl := StartPc.find.inj hr
      obtain ⟨item, hitem, rfl⟩ := mem_map.1 ha
      exact h.writers (.inr hstart) item hitem
    · refine (due_find rfl).2 (((due_before (.inr hstart)).1 hd).imp_left ?_)
      grind
  | find rest =>
    cases rest with
    | cons attr rest => exact h.find hstart
    | nil =>
      refine h.goto (fun hb => ?_) nofun (fun k _ hd => ?_) (by simp [hstart])
      · rcases hb with hb | hb <;> cases hb
      · exact (due_behind (.inl rfl)).2 (((due_find hstart).1 hd).resolve_left not_mem_nil)
  | connect =>
    have hsignal := h.signal
    rw [hstart] at hsignal
    have hret : (s.signal.connect 0 ()).1.isConnected (s.signal.connect 0 ()).2 = true :=
      Signal.isConnected_connect s.signal 0 ()
    dsimp only
    rw [hret]
    refine ⟨fun hb => ?_, nofun, h.pending, h.readers, fun k hk hw => ?_, h.sections, ?_⟩
    · rcases hb with hb | hb <;> cases hb
    · exact (due_behind (.inr rfl)).2 ((due_behind (.inl hstart)).1 (h.due k hk hw))
    · rw [hsignal]
      rfl
  | returned ok => exact h

omit h in
theorem mem_eraseIdx_or {α : Type*} {l : List α} {x y : α} (hx : x ∈ l)
    (hy : l[n]? = some y) : x = y ∨ x ∈ l.eraseIdx n := by
  obtain ⟨m, hm⟩ := getElem?_of_mem hx
  by_cases hmn : m = n
  · grind
  · exact .inr (mem_eraseIdx_iff_getElem?.2 ⟨m, hmn, hm⟩)

theorem Inv.callback (hmsg : s.pending[n]? = some msg) :
    Inv cfg msgs C { s with
      recorder := s.recorder.topologyCallback cfg msg, pending := s.pending.eraseIdx n } := by
  refine ⟨h.writers, h.rest, fun msg' hmsg' => h.pending msg' (mem_of_mem_eraseIdx hmsg'),
    fun name hname => ?_, fun k hk hw => ?_, h.sections.topologyCallback cfg msg, h.signal⟩
  · rcases mem_topologyCallback.1 hname with hname | ⟨hwanted, rfl⟩
    · exact h.readers name hname
    · obtain ⟨k, hk, rfl⟩ := h.pending msg (mem_of_getElem? hmsg)
      exact ⟨k, hk, hwanted, rfl⟩
  · rcases h.due k hk hw with hd | hd | hd | hd | hd
    · exact .inl hd
    · exact .inr (.inl hd)
    · exact .inr (.inr (.inl hd))
    · rcases mem_eraseIdx_or hd hmsg with rfl | hd
      · exact .inr (.inr (.inr (.inr (mem_topologyCallback.2 (.inr ⟨hw, rfl⟩)))))
      · exact .inr (.inr (.inr (.inl hd)))
    · exact .inr (.inr (.inr (.inr (mem_topologyCallback.2 (.inl hd)))))

end

variable [DecidableEq ι]

section
variable (evs : List (RecorderEvent ι))
include evs

theorem run_append (ev : RecorderEvent ι) :
    run cfg msgs (evs ++ [ev]) = (run cfg msgs evs).step cfg msgs ev := by
  simp [run]

theorem covered_append (ev : RecorderEvent ι) (k : ι) :
    Covered cfg msgs (evs ++ [ev]) k ↔
      Covered cfg msgs evs k ∨ ev = .join k ∧ (run cfg msgs evs).Learns k := by
  constructor
  · rintro ⟨pre, suf, heq, hlearns⟩
    rcases eq_nil_or_concat suf with rfl | ⟨suf, ev', rfl⟩
    · obtain ⟨rfl, hev⟩ := append_inj' heq rfl
      exact .inr ⟨singleton_inj.1 hev, hlearns⟩
    · rw [concat_eq_append, ← cons_append, ← append_assoc] at heq
      exact .inl ⟨pre, suf, (append_inj' heq rfl).1, hlearns⟩
  · rintro (⟨pre, suf, rfl, hlearns⟩ | ⟨rfl, hlearns⟩)
    · exact ⟨pre, suf ++ [ev], by simp, hlearns⟩
    · exact ⟨evs, [], rfl, hlearns⟩

theorem inv_run : Inv cfg msgs (Covered cfg msgs evs) (run cfg msgs evs) := by
  induction evs using List.reverseRecOn with
  | nil =>
    have hnone : Covered cfg msgs [] = fun _ => False := by
      funext k
      refine propext ⟨?_, False.elim⟩
      rintro ⟨pre, suf, heq, -⟩
      exact absurd (congrArg List.length heq) (by simp)
    rw [hnone]
    exact Inv.init
  | append_singleton evs ev ih =>
    have hcov : ∀ k, Covered cfg msgs (evs ++ [ev]) k ↔
        Covered cfg msgs evs k ∨ ev = .join k ∧ (run cfg msgs evs).Learns k := covered_append evs ev
    rw [run_append]
    cases ev with
    | join i =>
      refine ih.joinStep (i := i) fun k => ?_
      grind
    | start =>
      have hsame : Covered cfg msgs (evs ++ [.start]) = Covered cfg msgs evs :=
        funext fun k => propext (by simp [hcov])
      rw [hsame]
      exact ih.startStep
    | callback n =>
      have hsame : Covered cfg msgs (evs ++ [.callback n]) = Covered cfg msgs evs :=
        funext fun k => propext (by simp [hcov])
      rw [hsame, step]
      cases hn : (run cfg msgs evs).pending[n]? with
      | none => exact ih
      | some msg => exact ih.callback hn

end

/-- **What a recorder records.** Once `Start` has returned and all callbacks have run, each wanted
channel of a joined writer has a reader and a section just if one of its joined writers was
registered before `Start` looked at the writers or notified when the listener was in place. -/
theorem complete_iff_channelsCovered (cfg : RecorderConfig) (msgs : ι → ChangeMsg)
    (evs : List (RecorderEvent ι)) (hq : (run cfg msgs evs).Quiescent) :
    Complete cfg msgs (run cfg msgs evs) ↔ ChannelsCovered cfg msgs evs := by
  have hinv : Inv cfg msgs (Covered cfg msgs evs) (run cfg msgs evs) := inv_run evs
  constructor
  · intro hc i hi hw
    obtain ⟨k, hk, hwanted, heq⟩ := hinv.readers _ (hc i hi hw).1
    exact ⟨k, hk, hwanted, heq.symm⟩
  · intro hcov i hi hw
    obtain ⟨k, hk, hwanted, heq⟩ := hcov i hi hw
    obtain ⟨hstart, hpending⟩ := hq
    have hmem : (msgs k).roleAttr.getChannelName ∈
        (run cfg msgs evs).recorder.channelReaderMap := by
      rcases (due_behind (.inr hstart)).1 (hinv.due k hk hwanted) with hd | hd
      all_goals grind
    rw [heq] at hmem
    exact ⟨hmem, hinv.sections _ hmem⟩

def aWriter : ChangeMsg where
  timestamp := 1
  operateType := .join
  roleType := .writer
  roleAttr := { channelName := some "c", channelId := some 1, id := some 2,
                messageType := some "t", protoDesc := some "d" }

def allChannels : RecorderConfig := ⟨true, [], [], [], []⟩

/-- The writer is registered before `Start`, and notified after it. -/
theorem complete_iff_channelsCovered_around :
    (run allChannels (fun _ : Unit => aWriter)
      [.join (), .start, .start, .start, .start, .start, .join (), .callback 0]).Quiescent ∧
    (Complete allChannels (fun _ : Unit => aWriter)
        (run allChannels (fun _ : Unit => aWriter)
          [.join (), .start, .start, .start, .start, .start, .join (), .callback 0]) ↔
      ChannelsCovered allChannels (fun _ : Unit => aWriter)
        [.join (), .start, .start, .start, .start, .start, .join (), .callback 0]) :=
  ⟨⟨rfl, rfl⟩, complete_iff_channelsCovered _ _ _ ⟨rfl, rfl⟩⟩

/-- The writer is registered after `Start` has looked at the writers, and notified before `Start`
listens. -/
theorem not_complete_between :
    (run allChannels (fun _ : Unit => aWriter)
      [.start, .start, .join (), .join (), .start, .start]).Quiescent ∧
    ¬ Complete allChannels (fun _ : Unit => aWriter)
      (run allChannels (fun _ : Unit => aWriter)
        [.start, .start, .join (), .join (), .start, .start]) := by
  refine ⟨⟨rfl, rfl⟩, fun h => ?_⟩
  have hwanted : Wanted allChannels aWriter :=
    ⟨rfl, by decide, by decide, by decide, .inl rfl, rfl⟩
  exact absurd (h () rfl hwanted).1 not_mem_nil

end RecorderSystem

end Record
