import CyberRT.Record.Proof.Writing

/-!
# `Close` and its flush thread

`Flush` blocks only with an empty chunk, and a swap of the chunks wakes it (`Inv.empty`).
-/

namespace Record

open Lib List

variable {P : WriterSys → Prop} {pc : CallerPc}

attribute [local simp] WriterSys.flusherStep

theorem RecordFileWriter.flush_empty (w : RecordFileWriter) : w.flush.chunkFlush.empty = true := by
  unfold RecordFileWriter.flush
  split
  · rfl
  · grind

def CallerPc.running : CallerPc → Bool
  | .idle | .swapping | .waitFlush | .lastSwap | .waitLast | .stopping => true
  | .notifying | .joining | .done => false

namespace WriterSys

variable {s t : WriterSys} {op : WriterSysOp}

attribute [local simp] callerStep FlushPc.locked

structure Inv (s : WriterSys) : Prop where
  waits : () ∈ s.cond.waiting → s.flusher = .waiting
  single : s.cond.waiting.length ≤ 1
  empty : s.flusher = .blocking ∨ () ∈ s.cond.waiting → s.writer.chunkFlush.empty = true
  exited : s.flusher = .exited → s.isWriting = false
  flag : s.isWriting = s.caller.running

theorem Inv.init (header : Header) : (init header).Inv :=
  ⟨nofun, Nat.zero_le _, nofun, nofun, rfl⟩

theorem waiting_eq_nil (h : () ∉ s.cond.waiting) : s.cond.waiting = [] :=
  eq_nil_iff_forall_not_mem.2 fun _ hu => h hu

section
variable (h : s.Inv)
include h

theorem Inv.call (hidle : s.caller = .idle) (c : WriterCall) : (s.call c).Inv := by
  have hflag := h.flag
  rw [hidle] at hflag
  cases c with
  | channel c => exact ⟨h.waits, h.single, h.empty, h.exited, h.flag⟩
  | message m =>
    refine ⟨h.waits, h.single, h.empty, h.exited, hflag.trans ?_⟩
    rw [WriterSys.call]
    split
    · rfl
    · rfl

theorem Inv.swap (hfree : s.flusher.locked = false)
    (hpc : s.isWriting = pc.running) : Inv { s.swap with caller := pc } := by
  have hnil : (s.cond.notifyOne 0).waiting = [] := CondVar.waiting_notifyOne_eq_nil h.single
  refine ⟨fun hu => ?_, ?_, fun hb => ?_, h.exited, hpc⟩
  · rw [WriterSys.swap, hnil] at hu
    cases hu
  · rw [WriterSys.swap, hnil]
    exact Nat.zero_le 1
  · rcases hb with hb | hu
    · have hblocking : s.flusher = .blocking := hb
      rw [hblocking] at hfree
      cases hfree
    · rw [WriterSys.swap, hnil] at hu
      cases hu

theorem Inv.goto (hpc : s.isWriting = pc.running) :
    Inv { s with caller := pc } := ⟨h.waits, h.single, h.empty, h.exited, hpc⟩

theorem Inv.callerStep : s.callerStep.Inv := by
  have hflag := h.flag
  unfold WriterSys.callerStep
  cases hpc : s.caller with
  | idle | done => exact h
  | swapping | lastSwap =>
    rw [hpc] at hflag
    dsimp only
    split
    · exact h
    · rename_i hfree
      exact h.swap (by simpa using hfree) hflag
  | waitFlush | waitLast =>
    rw [hpc] at hflag
    dsimp only
    split
    · exact h
    · split
      · exact h.goto hflag
      · exact h
  | stopping => exact ⟨h.waits, h.single, h.empty, fun _ => rfl, rfl⟩
  | notifying =>
    rw [hpc] at hflag
    refine ⟨nofun, Nat.zero_le 1, fun hb => ?_, h.exited, hflag⟩
    rcases hb with hb | hu
    · exact h.empty (.inl hb)
    · cases hu
  | joining =>
    rw [hpc] at hflag
    dsimp only
    split
    · exact ⟨h.waits, h.single, h.empty, h.exited, hflag⟩
    · exact h

theorem Inv.moveTo (hnot : () ∉ s.cond.waiting) {pc : FlushPc}
    (hblocking : pc = .blocking → s.writer.chunkFlush.empty = true)
    (hexited : pc = .exited → s.isWriting = false) : Inv { s with flusher := pc } where
  waits hu := absurd hu hnot
  single := h.single
  empty hb := by grind
  exited := hexited
  flag := h.flag

theorem Inv.flusherStep : s.flusherStep.Inv := by
  have hnot : s.flusher ≠ .waiting → () ∉ s.cond.waiting := fun hne hu => hne (h.waits hu)
  unfold WriterSys.flusherStep
  cases hpc : s.flusher with
  | top =>
    rw [hpc] at hnot
    dsimp only
    split
    · exact h.moveTo (hnot (by simp)) (by simp) (by simp)
    · rename_i hw
      exact h.moveTo (hnot (by simp)) (by simp) fun _ => by simpa using hw
  | locking =>
    rw [hpc] at hnot
    exact h.moveTo (hnot (by simp)) (by simp) (by simp)
  | checking =>
    rw [hpc] at hnot
    dsimp only
    split
    · exact h.moveTo (hnot (by simp)) (by simp) (by simp)
    · rename_i hpred
      rw [Bool.or_eq_true, not_or] at hpred
      refine h.moveTo (hnot (by simp)) (fun _ => ?_) (by simp)
      grind
  | blocking =>
    rw [hpc] at hnot
    refine ⟨fun _ => rfl, ?_, fun _ => h.empty (.inl hpc), by simp, h.flag⟩
    rw [CondVar.wait, waiting_eq_nil (hnot (by simp))]
    exact Nat.le_refl 1
  | waiting =>
    dsimp only
    split
    · exact h
    · rename_i hu
      exact h.moveTo hu (by simp) (by simp)
  | woken =>
    rw [hpc] at hnot
    dsimp only
    split
    · rename_i hw
      exact h.moveTo (hnot (by simp)) (by simp) fun _ => by simpa using hw
    · split
      · exact h.moveTo (hnot (by simp)) (by simp) (by simp)
      · have hmove : Inv { s with flusher := .writing } := h.moveTo (hnot (by simp)) (by simp) (by simp)
        exact ⟨hmove.waits, hmove.single, hmove.empty, hmove.exited, hmove.flag⟩
  | writing =>
    rw [hpc] at hnot
    have hmove : Inv { s with flusher := .top } := h.moveTo (hnot (by simp)) (by simp) (by simp)
    exact ⟨hmove.waits, hmove.single, fun _ => s.writer.flush_empty, hmove.exited, hmove.flag⟩
  | exited => exact h

theorem Inv.step (op : WriterSysOp) : (s.step op).Inv := by
  cases op with
  | call c =>
    rw [WriterSys.step]
    split
    · rename_i hidle
      exact h.call hidle c
    · exact h
  | close =>
    rw [WriterSys.step]
    split
    · rename_i hidle
      have hflag : s.isWriting = true := by
        rw [h.flag, hidle]
        rfl
      rw [if_pos hflag]
      exact h.goto hflag
    · exact h
  | caller => exact h.callerStep
  | flusher => exact h.flusherStep

end

theorem flusherStep_locking (hpc : s.flusher = .locking) :
    s.flusherStep = { s with flusher := .checking } := by
  simp only [flusherStep, hpc]

theorem flusherStep_blocking (hpc : s.flusher = .blocking) :
    s.flusherStep = { s with cond := s.cond.wait (), flusher := .waiting } := by
  simp only [flusherStep, hpc]

theorem flusherStep_released (hpc : s.flusher = .waiting) (hu : () ∉ s.cond.waiting) :
    s.flusherStep = { s with flusher := .checking } := by
  simp [hpc, hu]

theorem flusherStep_writing (hpc : s.flusher = .writing) :
    s.flusherStep = { s with writer := s.writer.flush, inWriting := false, flusher := .top } := by
  simp only [flusherStep, hpc]

theorem flusherStep_frame (s : WriterSys) :
    s.flusherStep.caller = s.caller ∧ s.flusherStep.isWriting = s.isWriting := by
  unfold WriterSys.flusherStep
  grind

def Comes (P : WriterSys → Prop) (s : WriterSys) : Prop :=
  ∃ t, Reaches step s t ∧ t.caller = s.caller ∧ t.isWriting = s.isWriting ∧ P t

theorem Comes.here (h : P s) : Comes P s := ⟨s, .refl s, rfl, rfl, h⟩

theorem Comes.next (heq : s.flusherStep = t) (h : Comes P t) : Comes P s := by
  subst heq
  obtain ⟨u, hr, hc, hw, hu⟩ := h
  obtain ⟨hc', hw'⟩ := s.flusherStep_frame
  exact ⟨u, .head .flusher hr, hc.trans hc', hw.trans hw', hu⟩

theorem Comes.step (h : s.Inv) (heq : s.flusherStep = t)
    (hnext : t.Inv → Comes P t) : Comes P s := by
  have hinv := h.flusherStep
  rw [heq] at hinv
  exact .next heq (hnext hinv)

structure Parked (s : WriterSys) : Prop where
  inv : s.Inv
  waiting : s.flusher = .waiting
  empty : s.writer.chunkFlush.empty = true

section
variable (h : s.Inv) (hw : s.isWriting = true)
include h

theorem parks_blocking (hpc : s.flusher = .blocking) : Comes Parked s := by
  refine .step h (flusherStep_blocking hpc) fun hinv => ?_
  exact .here ⟨hinv, rfl, h.empty (.inl hpc)⟩

include hw

theorem parks_checking_empty (hpc : s.flusher = .checking)
    (he : s.writer.chunkFlush.empty = true) : Comes Parked s := by
  have heq : s.flusherStep = { s with flusher := .blocking } := by simp [hpc, hw, he]
  exact .step h heq fun hinv => parks_blocking hinv rfl

theorem parks_top_empty (hpc : s.flusher = .top)
    (he : s.writer.chunkFlush.empty = true) : Comes Parked s := by
  have heq : s.flusherStep = { s with flusher := .locking } := by simp [hpc, hw]
  refine .step h heq fun hinv => ?_
  refine .step hinv (flusherStep_locking rfl) fun hinv => ?_
  exact parks_checking_empty hinv hw rfl he

theorem parks_writing (hpc : s.flusher = .writing) : Comes Parked s := by
  refine .step h (flusherStep_writing hpc) fun hinv => ?_
  exact parks_top_empty hinv hw rfl s.writer.flush_empty

theorem parks_woken (hpc : s.flusher = .woken) : Comes Parked s := by
  cases he : s.writer.chunkFlush.empty with
  | true =>
    have heq : s.flusherStep = { s with flusher := .top } := by simp [hpc, hw, he]
    exact .step h heq fun hinv => parks_top_empty hinv hw rfl he
  | false =>
    have heq : s.flusherStep = { s with inWriting := true, flusher := .writing } := by
      simp [hpc, hw, he]
    exact .step h heq fun hinv => parks_writing hinv hw rfl

theorem parks_checking (hpc : s.flusher = .checking) : Comes Parked s := by
  cases he : s.writer.chunkFlush.empty with
  | true => exact parks_checking_empty h hw hpc he
  | false =>
    have heq : s.flusherStep = { s with flusher := .woken } := by simp [hpc, he]
    exact .step h heq fun hinv => parks_woken hinv hw rfl

theorem parks_locking (hpc : s.flusher = .locking) : Comes Parked s :=
  .step h (flusherStep_locking hpc) fun hinv => parks_checking hinv hw rfl

theorem parks : Comes Parked s := by
  cases hpc : s.flusher with
  | top =>
    have heq : s.flusherStep = { s with flusher := .locking } := by simp [hpc, hw]
    exact .step h heq fun hinv => parks_locking hinv hw rfl
  | locking => exact parks_locking h hw hpc
  | checking => exact parks_checking h hw hpc
  | blocking => exact parks_blocking h hpc
  | waiting =>
    by_cases hu : () ∈ s.cond.waiting
    · exact .here ⟨h, hpc, h.empty (.inr hu)⟩
    · exact .step h (flusherStep_released hpc hu) fun hinv => parks_checking hinv hw rfl
  | woken => exact parks_woken h hw hpc
  | writing => exact parks_writing h hw hpc
  | exited =>
    have hoff := h.exited hpc
    rw [hw] at hoff
    cases hoff

end

section
variable (hw : s.isWriting = false)
include hw

theorem exits_top (hpc : s.flusher = .top) : Comes (·.flusher = .exited) s := by
  have heq : s.flusherStep = { s with flusher := .exited } := by simp [hpc, hw]
  exact .next heq (.here rfl)

theorem exits_woken (hpc : s.flusher = .woken) : Comes (·.flusher = .exited) s := by
  have heq : s.flusherStep = { s with flusher := .exited } := by simp [hpc, hw]
  exact .next heq (.here rfl)

theorem exits_checking (hpc : s.flusher = .checking) : Comes (·.flusher = .exited) s := by
  have heq : s.flusherStep = { s with flusher := .woken } := by simp [hpc, hw]
  exact .next heq (exits_woken hw rfl)

theorem exits (hblocking : s.flusher ≠ .blocking) (hnot : () ∉ s.cond.waiting) :
    Comes (·.flusher = .exited) s := by
  cases hpc : s.flusher with
  | top => exact exits_top hw hpc
  | locking => exact .next (flusherStep_locking hpc) (exits_checking hw rfl)
  | checking => exact exits_checking hw hpc
  | blocking => exact absurd hpc hblocking
  | waiting => exact .next (flusherStep_released hpc hnot) (exits_checking hw rfl)
  | woken => exact exits_woken hw hpc
  | writing => exact .next (flusherStep_writing hpc) (exits_top hw rfl)
  | exited => exact .here hpc

end

theorem CanClose.reaches (h : t.CanClose) (hr : Reaches step s t) : s.CanClose := by
  obtain ⟨more, hm⟩ := h
  obtain ⟨l, rfl⟩ := hr
  exact ⟨l ++ more, by rwa [foldl_append]⟩

theorem CanClose.caller (heq : s.callerStep = t) (h : t.CanClose) : s.CanClose := by
  subst heq
  exact h.reaches ⟨[.caller], rfl⟩

theorem canClose_joining (hpc : s.caller = .joining) (hw : s.isWriting = false)
    (hblocking : s.flusher ≠ .blocking) (hnot : () ∉ s.cond.waiting) : s.CanClose := by
  obtain ⟨t, hr, hc, -, hex⟩ := exits hw hblocking hnot
  refine CanClose.reaches ?_ hr
  rw [hpc] at hc
  have heq : t.callerStep = { t with caller := .done, file := some (finish t.writer) } := by
    simp [hc, hex]
  exact .caller heq ⟨[], rfl⟩

theorem canClose_notifying_free (hpc : s.caller = .notifying) (hw : s.isWriting = false)
    (hblocking : s.flusher ≠ .blocking) : s.CanClose := by
  have heq : s.callerStep = { s with cond := s.cond.notifyAll, caller := .joining } := by
    simp only [callerStep, hpc]
  exact .caller heq (canClose_joining rfl hw hblocking not_mem_nil)

theorem canClose_notifying (hpc : s.caller = .notifying) (hw : s.isWriting = false) :
    s.CanClose := by
  by_cases hblocking : s.flusher = .blocking
  · refine CanClose.reaches ?_ ⟨[.flusher], flusherStep_blocking hblocking⟩
    exact canClose_notifying_free hpc hw nofun
  · exact canClose_notifying_free hpc hw hblocking

theorem canClose_stopping (hpc : s.caller = .stopping) : s.CanClose := by
  have heq : s.callerStep = { s with isWriting := false, caller := .notifying } := by
    simp only [callerStep, hpc]
  exact .caller heq (canClose_notifying rfl rfl)

section
variable (h : s.Inv)
include h

theorem canClose_parked (hpc : s.caller = pc) (hrun : pc.running = true)
    (hparked : ∀ t : WriterSys, t.Parked → t.caller = pc → t.isWriting = true → t.CanClose) :
    s.CanClose := by
  have hw : s.isWriting = true := by rw [h.flag, hpc, hrun]
  obtain ⟨t, hr, hc, hwt, hp⟩ := parks h hw
  exact (hparked t hp (hc.trans hpc) (hwt.trans hw)).reaches hr

theorem canClose_waitLast (hpc : s.caller = .waitLast) : s.CanClose := by
  refine canClose_parked h hpc rfl fun t hp hc _ => ?_
  have heq : t.callerStep = { t with caller := .stopping } := by simp [hc, hp.waiting, hp.empty]
  exact .caller heq (canClose_stopping rfl)

theorem canClose_lastSwap (hpc : s.caller = .lastSwap) : s.CanClose := by
  refine canClose_parked h hpc rfl fun t hp hc hwt => ?_
  have heq : t.callerStep = { t.swap with caller := .waitLast } := by simp [hc, hp.waiting]
  have hfree : t.flusher.locked = false := by rw [hp.waiting]; rfl
  exact .caller heq (canClose_waitLast (hp.inv.swap hfree hwt) rfl)

theorem canClose_waitFlush (hpc : s.caller = .waitFlush) : s.CanClose := by
  refine canClose_parked h hpc rfl fun t hp hc hwt => ?_
  have heq : t.callerStep = { t with caller := .lastSwap } := by simp [hc, hp.waiting, hp.empty]
  exact .caller heq (canClose_lastSwap (hp.inv.goto hwt) rfl)

theorem canClose_idle (hpc : s.caller = .idle) : s.CanClose := by
  have hw : s.isWriting = true := by rw [h.flag, hpc]; rfl
  have heq : s.step .close = { s with caller := .waitFlush } := by
    rw [WriterSys.step, if_pos hpc, if_pos hw]
  refine CanClose.reaches ?_ ⟨[.close], heq⟩
  exact canClose_waitFlush (h.goto hw) rfl

theorem canClose_swapping (hpc : s.caller = .swapping) : s.CanClose := by
  refine canClose_parked h hpc rfl fun t hp hc hwt => ?_
  have heq : t.callerStep = { t.swap with caller := .idle } := by simp [hc, hp.waiting]
  have hfree : t.flusher.locked = false := by rw [hp.waiting]; rfl
  exact .caller heq (canClose_idle (hp.inv.swap hfree hwt) rfl)

end

def Joins (s : WriterSys) : Prop :=
  s.caller = .joining → s.flusher ≠ .blocking ∧ () ∉ s.cond.waiting

theorem Inv.canClose (h : s.Inv) (hj : s.Joins) : s.CanClose := by
  cases hpc : s.caller with
  | idle => exact canClose_idle h hpc
  | swapping => exact canClose_swapping h hpc
  | waitFlush => exact canClose_waitFlush h hpc
  | lastSwap => exact canClose_lastSwap h hpc
  | waitLast => exact canClose_waitLast h hpc
  | stopping => exact canClose_stopping hpc
  | notifying => exact canClose_notifying hpc (by rw [h.flag, hpc]; rfl)
  | joining =>
    obtain ⟨hblocking, hnot⟩ := hj hpc
    exact canClose_joining hpc (by rw [h.flag, hpc]; rfl) hblocking hnot
  | done => exact ⟨[], hpc⟩

theorem callerStep_joining (hpc : s.callerStep.caller = .joining) :
    s.caller = .notifying ∧ s.callerStep = { s with cond := s.cond.notifyAll, caller := .joining } ∨
      s.caller = .joining ∧ s.callerStep = s := by
  unfold WriterSys.callerStep at hpc ⊢
  grind

theorem Joins.flusherStep (hj : s.Joins) (h : s.Inv) : s.flusherStep.Joins := by
  intro hc
  rw [s.flusherStep_frame.1] at hc
  have hw : s.isWriting = false := by rw [h.flag, hc]; rfl
  obtain ⟨hblocking, hnot⟩ := hj hc
  unfold WriterSys.flusherStep
  grind

theorem Joins.step (hj : s.Joins) (h : s.Inv) (hop : s.NotifiesInTime op) : (s.step op).Joins := by
  cases op with
  | call c =>
    rw [WriterSys.step]
    split
    · rename_i hidle
      intro hc
      cases c with
      | channel c => exact absurd (hidle.symm.trans hc) nofun
      | message m =>
        rw [WriterSys.call] at hc
        grind
    · exact hj
  | close =>
    rw [WriterSys.step]
    split
    · intro hc
      grind
    · exact hj
  | caller =>
    intro hc
    rcases callerStep_joining hc with ⟨hpc, heq⟩ | ⟨hpc, heq⟩
    · rw [WriterSys.step, heq]
      exact ⟨hop rfl hpc, not_mem_nil⟩
    · rw [WriterSys.step, heq]
      exact hj hpc
  | flusher => exact hj.flusherStep h

def Doomed (s : WriterSys) : Prop :=
  s.caller = .joining ∧ (s.flusher = .blocking ∨ s.flusher = .waiting ∧ () ∈ s.cond.waiting)

theorem Doomed.step (h : s.Doomed) (op : WriterSysOp) : (s.step op).Doomed := by
  obtain ⟨hpc, hf⟩ := h
  have hidle : s.caller ≠ .idle := by
    rw [hpc]
    exact nofun
  cases op with
  | call c =>
    rw [WriterSys.step, if_neg hidle]
    exact ⟨hpc, hf⟩
  | close =>
    rw [WriterSys.step, if_neg hidle]
    exact ⟨hpc, hf⟩
  | caller =>
    have hex : s.flusher ≠ .exited := by grind
    rw [WriterSys.step, callerStep, hpc]
    dsimp only
    rw [if_neg hex]
    exact ⟨hpc, hf⟩
  | flusher =>
    rw [WriterSys.step, flusherStep]
    rcases hf with hf | ⟨hf, hu⟩
    · rw [hf]
      exact ⟨hpc, .inr ⟨rfl, CondVar.mem_wait.2 (.inr rfl)⟩⟩
    · rw [hf]
      dsimp only
      rw [if_pos hu]
      exact ⟨hpc, .inr ⟨hf, hu⟩⟩

theorem Doomed.not_canClose (h : s.Doomed) : ¬ s.CanClose := by
  rintro ⟨more, hdone⟩
  have hdoomed : (more.foldl WriterSys.step s).Doomed :=
    List.foldlRecOn more WriterSys.step h fun _ hu op _ => hu.step op
  rw [hdoomed.1] at hdone
  cases hdone

theorem doomed_of_not_inTime (h : ¬ s.NotifiesInTime op) : (s.step op).Doomed := by
  unfold NotifiesInTime at h
  push Not at h
  obtain ⟨rfl, hpc, hf⟩ := h
  rw [WriterSys.step, callerStep, hpc]
  exact ⟨rfl, .inl hf⟩

theorem Joins.not_lost (hj : s.Joins) : ¬ s.Lost := fun hl => (hj hl.1).2 hl.2.2.1

/-- **`Close` never waits for ever if its notification is in time**, and only then. -/
theorem closes_iff (header : Header) (ops : List WriterSysOp) :
    Always step (fun s => ¬ s.Lost ∧ s.CanClose) (init header) ops ↔
      Along step NotifiesInTime (init header) ops := by
  have hinv0 := Inv.init header
  have hj0 : (init header).Joins := nofun
  apply always_iff_along_of_inv (P := fun s => s.Inv ∧ s.Joins) ⟨hinv0, hj0⟩
  · intro s hs
    exact ⟨hs.2.not_lost, hs.1.canClose hs.2⟩
  · intro s op hs hop
    exact ⟨hs.1.step op, hs.2.step hs.1 hop⟩
  · intro s op _ hafter
    by_contra hop
    exact (doomed_of_not_inTime hop).not_canClose hafter.2

def lostWakeup : List WriterSysOp :=
  [.close, .caller, .caller, .caller, .flusher, .flusher, .flusher, .caller, .caller, .flusher]

theorem not_closes_lostWakeup :
    (lostWakeup.foldl step (init ⟨0, 0, 0, 0, 0, 0, 0, false⟩)).Lost ∧
      ¬ (lostWakeup.foldl step (init ⟨0, 0, 0, 0, 0, 0, 0, false⟩)).CanClose := by
  have hlost : (lostWakeup.foldl step (init ⟨0, 0, 0, 0, 0, 0, 0, false⟩)).Lost := by
    decide +kernel
  exact ⟨hlost, Doomed.not_canClose ⟨hlost.1, .inr ⟨hlost.2.1, hlost.2.2.1⟩⟩⟩

end WriterSys

end Record
