import CyberRT.Record.Proof.ViewerMessages
import CyberRT.Record.Proof.PlayTasks

/-!
# The order of the tasks

A task that is not before any other in time is pushed behind all of them, so the buffer is what was
pushed and not played, in the order of the pushes (`InOrder`).
-/

namespace Record

open Lib List UInt64 RecordViewer

def RecordViewer.todo (v : RecordViewer) : List SingleMessage := v.pending.filter v.selected

namespace PlayTaskProducer

section
variable {p : PlayTaskProducer} {s t : Player} {m : SingleMessage} {n : Nat}
  {itr : Option SingleMessage} {v : RecordViewer} {task : PlayTask}

def Within (p : PlayTaskProducer) (m : SingleMessage) : Prop :=
  p.beginTimeNs.toNat ≤ m.time.toNat ∧ m.time.toNat ≤ p.endTimeNs.toNat

structure Live (p : PlayTaskProducer) (v : RecordViewer) : Prop where
  inv : v.Inv
  within : ∀ m ∈ v.todo, p.Within m

theorem live_reset (hlast : p.viewer.endTime.toNat + stepNanoSec < 2 ^ 64) :
    p.Live p.viewer.reset where
  inv := inv_viewer _ _ _ _ hlast
  within m hm := by
    have hpending := (pending_viewer _ _ _ _).subset (mem_of_mem_filter hm)
    obtain ⟨r, -, hr⟩ := mem_flatMap.1 hpending
    obtain ⟨o, ho, rfl⟩ := mem_map.1 hr
    have hread := of_decide_eq_true (mem_filter.1 ho).2
    obtain ⟨hb, he⟩ := ReadableIn.between _ _ _ _ hread
    exact ⟨le_iff_toNat_le.1 hb, le_iff_toNat_le.1 he⟩

theorem Live.update {v' : RecordViewer} (h : p.Live v) (hu : v.update n = some (some m, v')) :
    m ∈ v.todo ∧ p.Live v' ∧ ∀ x ∈ v'.todo, m.time.toNat ≤ x.time.toNat := by
  have hupd := update_spec h.inv hu
  obtain ⟨hperm, hle, -⟩ := hupd.some m rfl
  have hsub : ∀ x ∈ m :: v'.todo, x ∈ v.todo := fun x hx => hperm.symm.subset hx
  refine ⟨hsub m mem_cons_self, ⟨hupd.inv, fun x hx => ?_⟩, fun x hx => ?_⟩
  · exact h.within x (hsub x (mem_cons_of_mem m hx))
  · exact le_iff_toNat_le.1 (hle x (mem_of_mem_filter hx))

def offset (p : PlayTaskProducer) (s : Player) : Nat := s.loopNum.toNat * p.loopTimeNs.toNat

def PushedUpTo (s : Player) (n : Nat) : Prop := ∀ task ∈ s.pushed, task.msgPlayTimeNs.toNat ≤ n

def WithinLoop (p : PlayTaskProducer) (s : Player) : Prop :=
  s.pushed ≠ [] → p.beginTimeNs.toNat ≤ p.endTimeNs.toNat ∧
    PushedUpTo s (p.endTimeNs.toNat + p.offset s)

def StandsAt (p : PlayTaskProducer) (s : Player) : Option SingleMessage → Prop
  | none => WithinLoop p s
  | some m => p.Live s.viewer ∧ p.Within m ∧ (∀ x ∈ s.viewer.todo, m.time.toNat ≤ x.time.toNat) ∧
      PushedUpTo s (m.time.toNat + p.offset s)

def Placed (p : PlayTaskProducer) (s : Player) : Prop :=
  match s.producer with
  | .top => s.pushed ≠ [] → p.beginTimeNs.toNat ≤ p.endTimeNs.toNat ∧
      PushedUpTo s (p.beginTimeNs.toNat + p.offset s)
  | .next itr | .fill itr => p.StandsAt s itr
  | .wait m | .push m => p.StandsAt s (some m)
  | .advance => p.Live s.viewer ∧ WithinLoop p s ∧
      ∀ x ∈ s.viewer.todo, PushedUpTo s (x.time.toNat + p.offset s)
  | .stopped => True

theorem PushedUpTo.of_ne_nil (h : s.pushed ≠ [] → PushedUpTo s n) : PushedUpTo s n := by
  intro task htask
  exact h (ne_nil_of_mem htask) task htask

theorem PushedUpTo.mono {n n' : Nat} (h : PushedUpTo s n) (hn : n ≤ n') : PushedUpTo s n' :=
  fun task htask => Nat.le_trans (h task htask) hn

theorem placed_congr (hk : KeepsProducer s t) : Placed p t ↔ Placed p s := by
  obtain ⟨hproducer, hviewer, -, hloop, hpushed⟩ := hk
  unfold Placed StandsAt WithinLoop PushedUpTo offset
  rw [hproducer, hviewer, hloop, hpushed]

theorem standsAt_begin (hlast : p.viewer.endTime.toNat + stepNanoSec < 2 ^ 64)
    (hreset : s.viewer.reset = p.viewer.reset) (hpc : s.producer = .top) (h : Placed p s)
    (hv : s.viewer.beginIterator n = some (itr, v)) :
    StandsAt p { s with viewer := v, producer := .next itr } itr := by
  simp only [Placed, hpc] at h
  cases itr with
  | none =>
    intro hne
    obtain ⟨hle, hup⟩ := h hne
    exact ⟨hle, hup.mono (Nat.add_le_add_right hle _)⟩
  | some m =>
    have hu : p.viewer.reset.update n = some (some m, v) := by
      by_cases hvalid : s.viewer.reset.isValid = true
      · rw [beginIterator_of_valid hvalid, hreset] at hv
        exact hv
      · rw [beginIterator_of_not_valid hvalid] at hv
        cases hv
    obtain ⟨hm, hlive, hle⟩ := (live_reset hlast).update hu
    have hwithin := (live_reset hlast).within m hm
    refine ⟨hlive, hwithin, hle, PushedUpTo.of_ne_nil fun hne => ?_⟩
    exact (h hne).2.mono (Nat.add_le_add_right hwithin.1 _)

theorem standsAt_advance (hpc : s.producer = .advance) (h : Placed p s)
    (hv : s.viewer.update n = some (itr, v)) :
    StandsAt p { s with viewer := v, producer := .fill itr } itr := by
  simp only [Placed, hpc] at h
  obtain ⟨hlive, hloop, hup⟩ := h
  cases itr with
  | none => exact hloop
  | some m =>
    obtain ⟨hm, hlive', hle⟩ := hlive.update hv
    exact ⟨hlive', hlive.within m hm, hle, hup m hm⟩

theorem placed_loop (h : WithinLoop p s) (hwrap : s.loopNum.toNat + 1 < 2 ^ 32) :
    Placed p { s with loopNum := s.loopNum + 1, producer := .top } := by
  intro hne
  obtain ⟨hle, hup⟩ := h hne
  have hnum : (s.loopNum + 1).toNat = s.loopNum.toNat + 1 := by exact Nat.mod_eq_of_lt hwrap
  have htime : p.loopTimeNs.toNat = p.endTimeNs.toNat - p.beginTimeNs.toNat :=
    UInt64.toNat_sub_of_le _ _ (le_iff_toNat_le.2 hle)
  refine ⟨hle, fun task htask => Nat.le_trans (hup task htask) ?_⟩
  rw [offset, offset, hnum, Nat.succ_mul, htime]
  omega

section
variable (hmode : p.preloadFillBufferMode = false)
include hmode

theorem toNat_playTime (hwrap : m.time.toNat + p.offset s < 2 ^ 64) :
    (m.time + p.plusTimeNs s.loopNum).toNat = m.time.toNat + p.offset s := by
  have hplus : (p.plusTimeNs s.loopNum).toNat = p.offset s := by
    rw [plusTimeNs, hmode, if_neg Bool.false_ne_true, UInt64.toNat_mul, UInt32.toNat_toUInt64]
    exact Nat.mod_eq_of_lt (Nat.lt_of_le_of_lt (Nat.le_add_left _ _) hwrap)
  rw [UInt64.toNat_add, hplus]
  exact Nat.mod_eq_of_lt hwrap

omit hmode in
theorem mem_pushed (h : s.InOrder) (ht : task ∈ s.taskBuffer) : task ∈ s.pushed := by
  have hcons := h.2
  split at hcons
  · grind
  · grind
  · obtain ⟨hpushed, hhead, hplayed⟩ := hcons
    obtain ⟨rest, hrest⟩ := head?_eq_some_iff.1 hhead
    grind

omit hmode in
theorem inOrder_push (h : s.InOrder)
    (hle : ∀ task' ∈ s.pushed, task'.msgPlayTimeNs ≤ task.msgPlayTimeNs) :
    Player.InOrder { s with
      taskBuffer := PlayTaskBuffer.push task s.taskBuffer, pushed := s.pushed ++ [task] } := by
  have hbuffer : PlayTaskBuffer.push task s.taskBuffer = s.taskBuffer ++ [task] :=
    PlayTaskBuffer.push_eq_append fun task' ht => hle task' (mem_pushed h ht)
  obtain ⟨hsorted, hcons⟩ := h
  refine ⟨pairwise_append.2 ⟨hsorted, pairwise_singleton _ _, ?_⟩, ?_⟩
  all_goals grind

theorem placed_push (h : p.StandsAt s (some m))
    (hwrap : m.channelName ∈ p.writers → m.time.toNat + p.offset s < 2 ^ 64) :
    Placed p { p.pushMessage s m with producer := .advance } := by
  obtain ⟨hlive, hwithin, hle, hup⟩ := h
  have hbounds : p.beginTimeNs.toNat ≤ p.endTimeNs.toNat := Nat.le_trans hwithin.1 hwithin.2
  have hoffset : p.offset { p.pushMessage s m with producer := .advance } = p.offset s := by
    unfold offset pushMessage
    split <;> rfl
  have hup' : PushedUpTo { p.pushMessage s m with producer := .advance }
      (m.time.toNat + p.offset s) := by
    intro task htask
    unfold pushMessage at htask
    split at htask
    · rename_i hw
      rcases mem_append.1 htask with ht | ht
      · exact hup task ht
      · rw [mem_singleton.1 ht]
        exact Nat.le_of_eq (toNat_playTime hmode (hwrap hw))
    · exact hup task htask
  refine ⟨?_, fun _ => ⟨hbounds, ?_⟩, fun x hx => ?_⟩
  · simpa using hlive
  · rw [hoffset]
    exact hup'.mono (Nat.add_le_add_right hwithin.2 _)
  · rw [hoffset]
    exact hup'.mono (Nat.add_le_add_right (hle x (by simpa using hx)) _)

theorem inOrder_pushMessage (h : p.StandsAt s (some m)) (ho : s.InOrder)
    (hwrap : m.channelName ∈ p.writers → m.time.toNat + p.offset s < 2 ^ 64) :
    (p.pushMessage s m).InOrder := by
  unfold pushMessage
  split
  · rename_i hw
    refine inOrder_push ho fun task htask => le_iff_toNat_le.2 ?_
    rw [toNat_playTime hmode (hwrap hw)]
    exact h.2.2.2 task htask
  · exact ho

end

structure Ordered (p : PlayTaskProducer) (s : Player) : Prop where
  reset : s.viewer.reset = p.viewer.reset
  placed : Placed p s
  inOrder : s.InOrder

theorem ordered_init : Ordered p p.init :=
  ⟨rfl, fun hne => absurd rfl hne, .nil, rfl⟩

theorem inOrder_consume (h : s.InOrder) : s.consume.InOrder := by
  have hcons := h.2
  unfold Player.consume
  cases hc : s.consumer with
  | front =>
    simp only [hc] at hcons
    dsimp only
    split
    · exact h
    · rename_i task hfront
      exact ⟨h.1, hcons, hfront⟩
  | play task =>
    simp only [hc] at hcons
    obtain ⟨hpushed, hhead⟩ := hcons
    obtain ⟨rest, hrest⟩ := head?_eq_some_iff.1 hhead
    refine ⟨h.1, ?_, hhead, getLast?_concat⟩
    grind
  | popFront task =>
    simp only [hc] at hcons
    exact ⟨h.1, hcons.1⟩

theorem inOrder_iterate (h : s.InOrder) (n : Nat) : (Player.consume^[n] s).InOrder := by
  induction n with
  | zero => exact h
  | succ n ih =>
    rw [Function.iterate_succ_apply']
    exact inOrder_consume ih

theorem ordered_consume (h : Ordered p s) : Ordered p s.consume where
  reset := by rw [s.keepsProducer_consume.viewer, h.reset]
  placed := (placed_congr s.keepsProducer_consume).2 h.placed
  inOrder := inOrder_consume h.inOrder

theorem ordered_produce (hmode : p.preloadFillBufferMode = false)
    (hlast : p.viewer.endTime.toNat + stepNanoSec < 2 ^ 64) (h : Ordered p s)
    (hwrap : p.NoWrap s .produce) : Ordered p (p.produce s) := by
  obtain ⟨hreset, hplaced, ho⟩ := h
  have hwrap := hwrap rfl
  unfold produce
  cases hpc : s.producer with
  | top =>
    dsimp only
    rw [hmode, if_neg Bool.false_ne_true]
    split
    · exact ⟨hreset, hplaced, ho⟩
    · rename_i itr v hv
      exact ⟨(reset_beginIterator hv).trans hreset,
        standsAt_begin hlast hreset hpc hplaced hv, ho⟩
  | next itr =>
    simp only [Placed, hpc] at hplaced
    simp only [hpc] at hwrap
    cases itr with
    | none =>
      dsimp only
      split
      · exact ⟨hreset, trivial, ho⟩
      · exact ⟨hreset, placed_loop hplaced hwrap, ho⟩
    | some m => exact ⟨hreset, hplaced, ho⟩
  | wait m =>
    dsimp only
    split
    · exact ⟨hreset, hplaced, ho⟩
    · simp only [Placed, hpc] at hplaced
      exact ⟨hreset, hplaced, ho⟩
  | fill itr =>
    simp only [Placed, hpc] at hplaced
    cases itr with
    | none => exact ⟨hreset, hplaced, ho⟩
    | some m =>
      dsimp only
      split
      · exact ⟨hreset, hplaced, ho⟩
      · exact ⟨hreset, hplaced, ho⟩
  | push m =>
    simp only [Placed, hpc] at hplaced
    simp only [hpc] at hwrap
    refine ⟨?_, placed_push hmode hplaced hwrap, inOrder_pushMessage hmode hplaced ho hwrap⟩
    simpa using hreset
  | advance =>
    dsimp only
    split
    · exact ⟨hreset, hplaced, ho⟩
    · rename_i itr v hv
      exact ⟨(reset_update hv).trans hreset, standsAt_advance hpc hplaced hv, ho⟩
  | stopped => exact ⟨hreset, hplaced, ho⟩

theorem ordered_step (hmode : p.preloadFillBufferMode = false)
    (hlast : p.viewer.endTime.toNat + stepNanoSec < 2 ^ 64) (event : PlayEvent) (h : Ordered p s)
    (hwrap : p.NoWrap s event) : Ordered p (p.step s event) := by
  cases event with
  | produce => exact ordered_produce hmode hlast h hwrap
  | consume => exact ordered_consume h

end

/-- **The tasks are played in the order in which they are pushed.** At each moment of a run in which
no number goes round, what was pushed is what was played and what is in the buffer, in the order of
the play times, and the task that is removed is the one just played; and the consumer comes to play
all that was pushed. -/
theorem plays_in_order (p : PlayTaskProducer) (hmode : p.preloadFillBufferMode = false)
    (hlast : p.viewer.endTime.toNat + stepNanoSec < 2 ^ 64) (events : List PlayEvent)
    (hwrap : Along p.step p.NoWrap p.init events) :
    Always p.step Player.InOrder p.init events ∧
      ∃ n, (p.run p.init (events ++ List.replicate n .consume)).played =
        (p.run p.init events).pushed := by
  have halways := hwrap.always ordered_init fun s event => ordered_step hmode hlast event
  refine ⟨halways.imp fun s h => h.inOrder, ?_⟩
  obtain ⟨n, hempty, hfront⟩ := (p.run p.init events).drain
  refine ⟨n, ?_⟩
  rw [run_append, run_consume]
  -- the consumer keeps the order to the end, where the buffer is empty
  have hend : (Player.consume^[n] (p.run p.init events)).InOrder :=
    inOrder_iterate halways.last.inOrder n
  have hpushed := hend.2
  simp only [hfront, hempty, append_nil] at hpushed
  rw [← hpushed, ((p.run p.init events).keepsProducer_iterate n).pushed]

end PlayTaskProducer

def loopPlayback (times : List UInt64) (beginTimeNs endTimeNs : UInt64) : PlayTaskProducer :=
  ⟨[recordingAt times], beginTimeNs, endTimeNs, [], true, ["/test/channel1"], false, 500, 20⟩

def twoLoops : List PlayEvent :=
  List.replicate 8 .produce ++ [.consume, .consume] ++ List.replicate 11 .produce ++
    [.consume, .consume, .consume]

theorem plays_in_order_twoLoops :
    Always (loopPlayback [1000000000, 3000000000] 1000000000 3000000000).step Player.InOrder
      (loopPlayback [1000000000, 3000000000] 1000000000 3000000000).init twoLoops :=
  (PlayTaskProducer.plays_in_order (loopPlayback [1000000000, 3000000000] 1000000000 3000000000) rfl
    (by decide +kernel) twoLoops (by decide +kernel)).1

def latePlayback : PlayTaskProducer :=
  loopPlayback [18446744063709551616, 18446744068709551616] 18446744063709551616
    18446744068709551616

/-- In the second loop the task for the second message has the play time 0. -/
theorem not_in_order_late :
    ¬ Always latePlayback.step Player.InOrder latePlayback.init twoLoops ∧
    (latePlayback.run latePlayback.init twoLoops).pushed.map (·.id) = [0, 1, 2, 3] ∧
    (latePlayback.run latePlayback.init twoLoops).played.map (·.id) = [0, 0] ∧
    (latePlayback.run latePlayback.init twoLoops).taskBuffer.map (·.id) = [0, 1, 2] := by
  decide +kernel

/-! ## Starting and stopping a producer -/

namespace ProducerControl

/-- **When `Stop` has returned, the thread has ended** and is joined, so that it pushes nothing more
and the producer can be destroyed. -/
def StopEnds (s : ProducerControl) : Prop := s.quiet = true → s.produceTh = none

def FindsStopped (s : ProducerControl) : ControlEvent → Prop
  | .stop => s.terminated = false → s.joining = false → s.isStopped = true ∨ s.produceTh = none
  | _ => True

variable {s : ProducerControl}

section
variable (h : s.StopEnds)
include h

theorem StopEnds.start : s.start.StopEnds := by
  grind [ProducerControl.start, StopEnds]

theorem StopEnds.threadStep (choice : ThreadChoice) : (s.threadStep choice).StopEnds := by
  unfold ProducerControl.threadStep
  grind [StopEnds]

theorem StopEnds.stop_iff : s.stop.StopEnds ↔ s.isStopped = true ∨ s.produceTh = none := by
  unfold stop
  grind [StopEnds]

theorem StopEnds.step_iff (ev : ControlEvent) : s.FindsStopped ev ↔ (s.step ev).StopEnds := by
  cases ev with
  | stop =>
    have := h.stop_iff
    grind [FindsStopped, step]
  | thread choice =>
    refine iff_of_true trivial ?_
    have := h.threadStep choice
    grind [step]
  | start =>
    refine iff_of_true trivial ?_
    have := h.start
    grind [step]
  | init => grind [FindsStopped, step, StopEnds]
  | setStopped => grind [FindsStopped, step, StopEnds]
  | join => grind [FindsStopped, step, join, StopEnds]

end

/-- **Stopping a producer**, over every interleaving of the calls and the thread: when `Stop` has
returned the thread has ended, exactly if every `Stop` finds the flag set already (by the thread at
its end, or by `set_stopped`) or nothing started. -/
theorem stop_ends_iff (evs : List ControlEvent) :
    Always step StopEnds new evs ↔ Along step FindsStopped new evs :=
  always_iff_along (fun h => absurd h Bool.false_ne_true) fun _ ev h => h.step_iff ev

/-- A producer that is stopped while it is running: `Stop` returns, and the thread has not ended. -/
theorem not_stop_ends_running :
    ¬ Always step StopEnds new [.init, .start, .thread .message, .stop, .thread .nothing] :=
  fun h => absurd (h.last rfl) (by decide)

end ProducerControl

end Record
