import CyberRT.Lib.Run
import CyberRT.Logger.AsyncLogger

/-!
# What becomes of a message

What was appended is what was handed over, then the flushing buffer, then the active one
(`Inv.order`).
-/

namespace Logger

open Function Lib List

variable {ι : Type*}

variable {p : List (ι × Line)} {s' : LoggerSys ι} {ev : LoggerEvent ι} {i : ι}

def WritePc.pending : WritePc → Option Line
  | .spinning line | .appending line => some line
  | .idle | .clearing => none

def WritePc.has : WritePc → Bool
  | .appending _ | .clearing => true
  | .idle | .spinning _ => false

def RunPc.has : RunPc → Bool
  | .swapping | .clearing => true
  | .top | .spinning | .flushing | .exited => false

def StopPc.joined : StopPc → Bool
  | .draining | .checking | .done => true
  | .notCalled | .joining => false

def StopPc.drained : StopPc → Bool
  | .checking | .done => true
  | .notCalled | .joining | .draining => false

namespace LoggerSys

def Finished (s : LoggerSys ι) : Prop :=
  s.aborted = true ∨ s.stopper = .done ∧ ∀ i, s.writers i = .idle

/-- **Every message whose `Write` has seen `RUNNING` has been handed over once, in the order of the
appends.** -/
def HandedOver (s : LoggerSys ι) : Prop :=
  s.handed <+: s.appended ∧ s.handed.Perm s.observed

def StopOk (s : LoggerSys ι) (ev : LoggerEvent ι) : Prop :=
  s.aborted = false → ev = .stopper → s.stopper = .draining → s.activeBuf = [] →
    ∀ i, (s.writers i).pending = none

structure Pending (s : LoggerSys ι) (p : List (ι × Line)) : Prop where
  nodup : p.Nodup
  mem : ∀ i line, (i, line) ∈ p ↔ (s.writers i).pending = some line
  perm : s.observed.Perm (s.appended ++ p.map fun q => q.2.msg)

def has (s : LoggerSys ι) : LoggerThread ι → Bool
  | .writer i => (s.writers i).has
  | .runner => s.runner.has

structure Inv (s : LoggerSys ι) : Prop where
  order : s.appended = s.handed ++ s.flushingBuf ++ s.activeBuf
  emptied : s.runner ≠ .clearing → s.runner ≠ .flushing → s.flushingBuf = []
  joined : s.stopper.joined = true → s.runner = .exited
  stopped : s.stopper ≠ .notCalled → s.state ≠ .running
  aborts : s.aborted = true → s.activeBuf ≠ []
  pending : ∃ p, s.Pending p
  held : HeldBy s.flag s.has

variable {s : LoggerSys ι}

theorem inv_init : (init : LoggerSys ι).Inv where
  order := rfl
  emptied _ _ := rfl
  joined := nofun
  stopped h := absurd rfl h
  aborts := nofun
  pending := ⟨[], nodup_nil, fun _ _ => iff_of_false not_mem_nil nofun, List.Perm.refl _⟩
  held thread := by cases thread <;> exact iff_of_false nofun nofun

variable [DecidableEq ι] {pc : WritePc}

theorem Pending.congr (h : s.Pending p) (hwriters : s'.writers = update s.writers i pc)
    (hpc : pc.pending = (s.writers i).pending) (hobserved : s'.observed = s.observed)
    (happended : s'.appended = s.appended) : s'.Pending p where
  nodup := h.nodup
  mem j line := by
    rw [h.mem, hwriters]
    grind
  perm := by
    rw [hobserved, happended]
    exact h.perm

theorem Pending.write (h : s.Pending p) (line : Line)
    (hidle : s.writers i = .idle) (hrun : s.state = .running) :
    (s.write i line).Pending ((i, line) :: p) := by
  rw [LoggerSys.write, if_pos ⟨hidle, hrun⟩]
  have hnot : ∀ l, (i, l) ∉ p := fun l hl => by
    have := (h.mem i l).1 hl
    rw [hidle] at this
    cases this
  refine ⟨nodup_cons.2 ⟨hnot line, h.nodup⟩, fun j l => ?_, ?_⟩
  · dsimp only
    rw [mem_cons, h.mem]
    by_cases hj : j = i
    · subst hj
      rw [update_self, hidle]
      simp [WritePc.pending, eq_comm]
    · simp [hj]
  · refine (h.perm.append_right _).trans ?_
    grind

theorem Pending.append (h : s.Pending p) {line : Line} (hpc : s.writers i = .appending line) :
    (s.writerStep i).Pending (p.erase (i, line)) := by
  have hmem : (i, line) ∈ p := (h.mem i line).2 (by rw [hpc]; rfl)
  rw [writerStep, hpc]
  refine ⟨h.nodup.erase _, fun j l => ?_, ?_⟩
  · rw [h.nodup.mem_erase_iff, h.mem]
    dsimp only
    by_cases hj : j = i
    · subst hj
      rw [update_self, hpc]
      simp [WritePc.pending, eq_comm]
    · simp [hj]
  · refine h.perm.trans ?_
    rw [append_assoc]
    exact ((perm_cons_erase hmem).map _).append_left _

theorem held_writer (hwriters : s'.writers = update s.writers i pc) (hrunner : s'.runner = s.runner)
    (h : HeldBy s'.flag (update s.has (.writer i) pc.has)) : HeldBy s'.flag s'.has := by
  have hhas : s'.has = update s.has (.writer i) pc.has := by
    funext thread
    cases thread with
    | runner => simp [has, hrunner]
    | writer j =>
      by_cases hj : j = i
      · subst hj
        simp [has, hwriters]
      · simp [has, hwriters, hj]
  rw [hhas]
  exact h

theorem held_runner (s : LoggerSys ι) (hwriters : s'.writers = s.writers)
    (h : HeldBy s'.flag (update s.has .runner s'.runner.has)) : HeldBy s'.flag s'.has := by
  have hhas : s'.has = update s.has .runner s'.runner.has := by
    funext thread
    cases thread with
    | runner => simp [has]
    | writer j => simp [has, hwriters]
  rw [hhas]
  exact h

theorem Inv.write (h : s.Inv) (i : ι) (line : Line) : (s.write i line).Inv := by
  by_cases hcall : s.writers i = .idle ∧ s.state = .running
  · obtain ⟨p, hp⟩ := h.pending
    have hpending := hp.write line hcall.1 hcall.2
    rw [LoggerSys.write, if_pos hcall] at hpending ⊢
    refine ⟨h.order, h.emptied, h.joined, h.stopped, h.aborts, ⟨_, hpending⟩, ?_⟩
    exact held_writer rfl rfl (h.held.keep (by simp [has, hcall.1, WritePc.has]))
  · rw [LoggerSys.write, if_neg hcall]
    exact h

theorem Inv.writerStep (h : s.Inv) (i : ι) : (s.writerStep i).Inv := by
  obtain ⟨p, hp⟩ := h.pending
  cases hpc : s.writers i with
  | idle =>
    rw [LoggerSys.writerStep, hpc]
    exact h
  | spinning line =>
    rw [LoggerSys.writerStep, hpc]
    dsimp only
    split
    · exact h
    · rename_i hfree
      refine ⟨h.order, h.emptied, h.joined, h.stopped, h.aborts, ⟨p, ?_⟩, ?_⟩
      · exact hp.congr rfl (by rw [hpc]; rfl) rfl rfl
      · exact held_writer rfl rfl (h.held.lock (Option.not_isSome_iff_eq_none.1 hfree) _)
  | appending line =>
    have hpending := hp.append hpc
    rw [LoggerSys.writerStep, hpc] at hpending ⊢
    refine ⟨?_, h.emptied, h.joined, h.stopped, fun _ => append_ne_nil_of_right_ne_nil _ nofun,
      ⟨_, hpending⟩, ?_⟩
    · dsimp only
      rw [h.order, append_assoc]
    · exact held_writer rfl rfl (h.held.keep (by simp [has, hpc, WritePc.has]))
  | clearing =>
    rw [LoggerSys.writerStep, hpc]
    refine ⟨h.order, h.emptied, h.joined, h.stopped, h.aborts, ⟨p, ?_⟩, ?_⟩
    · exact hp.congr rfl (by rw [hpc]; rfl) rfl rfl
    · exact held_writer rfl rfl (h.held.unlock (by simp [has, hpc, WritePc.has]))

omit [DecidableEq ι] in
theorem Pending.frame (h : s.Pending p)
    (hwriters : s'.writers = s.writers) (hobserved : s'.observed = s.observed)
    (happended : s'.appended = s.appended) : s'.Pending p := by
  refine ⟨h.nodup, fun i line => ?_, ?_⟩
  · rw [hwriters]
    exact h.mem i line
  · rw [hobserved, happended]
    exact h.perm

omit [DecidableEq ι] in
theorem Inv.flushed_of_exited (h : s.Inv) (hexit : s.runner = .exited) : s.flushingBuf = [] :=
  h.emptied (by simp [hexit]) (by simp [hexit])

theorem Inv.of_runner (h : s.Inv) (hrun : s.runner ≠ .exited) {flag : Option (LoggerThread ι)}
    {active flushing handed : List Msg} {pc : RunPc}
    (horder : s.appended = handed ++ flushing ++ active)
    (hemptied : pc ≠ .clearing → pc ≠ .flushing → flushing = [])
    (haborts : s.aborted = true → active ≠ []) (hheld : HeldBy flag (update s.has .runner pc.has)) :
    Inv { s with
      flag := flag, activeBuf := active, flushingBuf := flushing, handed := handed,
      runner := pc } := by
  obtain ⟨p, hp⟩ := h.pending
  exact ⟨horder, hemptied, fun hj => absurd (h.joined hj) hrun, h.stopped, haborts,
    ⟨p, hp.frame rfl rfl rfl⟩, held_runner s rfl hheld⟩

theorem Inv.runnerStep (h : s.Inv) (hab : s.aborted = false) : s.runnerStep.Inv := by
  cases hpc : s.runner with
  | top =>
    have hempty := h.emptied (by simp [hpc]) (by simp [hpc])
    rw [LoggerSys.runnerStep, hpc]
    refine h.of_runner (by simp [hpc]) h.order (fun _ _ => hempty) h.aborts (h.held.keep ?_)
    rw [has, hpc]
    split <;> rfl
  | spinning =>
    have hempty := h.emptied (by simp [hpc]) (by simp [hpc])
    rw [LoggerSys.runnerStep, hpc]
    dsimp only
    split
    · exact h
    · rename_i hfree
      apply h.of_runner (by simp [hpc]) h.order (fun _ _ => hempty) h.aborts
      exact h.held.lock (Option.not_isSome_iff_eq_none.1 hfree) _
  | swapping =>
    have hempty := h.emptied (by simp [hpc]) (by simp [hpc])
    have horder := h.order
    rw [LoggerSys.runnerStep, hpc]
    refine h.of_runner (by simp [hpc]) ?_ (fun hc _ => absurd rfl hc) ?_
      (h.held.keep (by simp [has, hpc, RunPc.has]))
    all_goals grind
  | clearing =>
    rw [LoggerSys.runnerStep, hpc]
    apply h.of_runner (by simp [hpc]) h.order (fun _ hf => absurd rfl hf) h.aborts
    exact h.held.unlock (by simp [has, hpc, RunPc.has])
  | flushing =>
    have hkeep : ∀ pc : RunPc, pc.has = false →
        HeldBy s.flag (update s.has .runner pc.has) := by
      intro pc hnot
      rw [hnot]
      exact h.held.keep (by simp [has, hpc, RunPc.has])
    cases hbuf : s.flushingBuf with
    | nil =>
      rw [LoggerSys.runnerStep, hpc, hbuf]
      exact h.of_runner (by simp [hpc]) (hbuf ▸ h.order) (fun _ _ => rfl) h.aborts (hkeep _ rfl)
    | cons msg rest =>
      have horder := h.order
      rw [LoggerSys.runnerStep, hpc, hbuf]
      apply h.of_runner (by simp [hpc]) _ (fun _ hf => absurd rfl hf) h.aborts (hkeep _ rfl)
      grind
  | exited =>
    rw [LoggerSys.runnerStep, hpc]
    exact h

omit [DecidableEq ι] in
theorem Inv.stop (h : s.Inv) : s.stop.Inv := by
  obtain ⟨p, hp⟩ := h.pending
  unfold LoggerSys.stop
  split
  · exact ⟨h.order, h.emptied, nofun, nofun, h.aborts, ⟨p, hp.frame rfl rfl rfl⟩, h.held⟩
  · exact h

omit [DecidableEq ι] in
theorem Inv.of_stopper (h : s.Inv) (hcalled : s.stopper ≠ .notCalled) (hexit : s.runner = .exited)
    {active handed : List Msg} {pc : StopPc} {aborted : Bool}
    (horder : s.appended = handed ++ active)
    (haborts : aborted = true → active ≠ []) :
    Inv { s with activeBuf := active, handed := handed, stopper := pc, aborted := aborted } := by
  obtain ⟨p, hp⟩ := h.pending
  refine ⟨?_, h.emptied, fun _ => hexit, fun _ => h.stopped hcalled, haborts,
    ⟨p, hp.frame rfl rfl rfl⟩, h.held⟩
  rw [h.flushed_of_exited hexit, append_nil, horder]

omit [DecidableEq ι] in
theorem Inv.stopperStep (h : s.Inv) (hab : s.aborted = false) : s.stopperStep.Inv := by
  have horder : s.runner = .exited → s.appended = s.handed ++ s.activeBuf := fun hexit => by
    rw [h.order, h.flushed_of_exited hexit, append_nil]
  cases hpc : s.stopper with
  | notCalled | done =>
    rw [LoggerSys.stopperStep, hpc]
    exact h
  | joining =>
    rw [LoggerSys.stopperStep, hpc]
    dsimp only
    split
    · rename_i hexit
      exact h.of_stopper (by simp [hpc]) hexit (horder hexit) h.aborts
    · exact h
  | draining =>
    have hexit := h.joined (by rw [hpc]; rfl)
    have horder := horder hexit
    cases hbuf : s.activeBuf with
    | nil =>
      rw [hbuf] at horder
      rw [LoggerSys.stopperStep, hpc, hbuf]
      exact h.of_stopper (by simp [hpc]) hexit horder (by simp [hab])
    | cons msg rest =>
      rw [LoggerSys.stopperStep, hpc, hbuf]
      apply h.of_stopper (by simp [hpc]) hexit _ (by simp [hab])
      grind
  | checking =>
    have hexit := h.joined (by rw [hpc]; rfl)
    rw [LoggerSys.stopperStep, hpc]
    dsimp only
    split
    · exact h.of_stopper (by simp [hpc]) hexit (horder hexit) h.aborts
    · rename_i hleft
      refine h.of_stopper (by simp [hpc]) hexit (horder hexit) fun _ hnil => hleft ?_
      rw [hnil, h.flushed_of_exited hexit]
      rfl

theorem step_of_not_aborted (hab : s.aborted = false) (ev : LoggerEvent ι) :
    s.step ev =
      match ev with
      | .write i line => s.write i line
      | .writer i => s.writerStep i
      | .runner => s.runnerStep
      | .stop => s.stop
      | .stopper => s.stopperStep := by
  refine (if_neg (by simp [hab])).trans ?_
  cases ev <;> rfl

theorem step_of_aborted (hab : s.aborted = true) (ev : LoggerEvent ι) : s.step ev = s := by
  unfold LoggerSys.step
  rw [if_pos hab]

theorem Inv.step (h : s.Inv) (ev : LoggerEvent ι) : (s.step ev).Inv := by
  cases hab : s.aborted with
  | true =>
    rw [step_of_aborted hab]
    exact h
  | false =>
    rw [step_of_not_aborted hab]
    cases ev with
    | write i line => exact h.write i line
    | writer i => exact h.writerStep i
    | runner => exact h.runnerStep hab
    | stop => exact h.stop
    | stopper => exact h.stopperStep hab

structure Clean (s : LoggerSys ι) : Prop where
  inv : s.Inv
  empty : s.stopper.drained = true → s.activeBuf = []
  settled : s.stopper.drained = true → ∀ i, (s.writers i).pending = none
  alive : s.aborted = false

structure Lost (s : LoggerSys ι) : Prop where
  inv : s.Inv
  drained : s.stopper.drained = true
  left : s.activeBuf ≠ [] ∨ ∃ i, (s.writers i).pending ≠ none

omit [DecidableEq ι] in
theorem Inv.exited_of_drained (h : s.Inv) (hd : s.stopper.drained = true) : s.runner = .exited := by
  apply h.joined
  cases hpc : s.stopper <;> rw [hpc] at hd <;> first | rfl | cases hd

omit [DecidableEq ι] in
theorem Inv.state_of_drained (h : s.Inv) (hd : s.stopper.drained = true) : s.state ≠ .running := by
  apply h.stopped
  intro hpc
  rw [hpc] at hd
  cases hd

theorem Inv.step_drained (h : s.Inv) (hab : s.aborted = false) (hd : s.stopper.drained = true) :
    (∀ i line, s.step (.write i line) = s) ∧ s.step .runner = s ∧ s.step .stop = s := by
  refine ⟨fun i line => ?_, ?_, ?_⟩ <;> rw [step_of_not_aborted hab]
  · exact if_neg fun hcall => h.state_of_drained hd hcall.2
  · rw [LoggerSys.runnerStep, h.exited_of_drained hd]
  · dsimp only [LoggerSys.stop]
    split
    · rename_i hpc
      rw [hpc] at hd
      cases hd
    · rfl

omit [DecidableEq ι] in
theorem clean_init : (init : LoggerSys ι).Clean := ⟨inv_init, nofun, nofun, rfl⟩

theorem writerStep_of_pending_none (hi : (s.writers i).pending = none) :
    (s.writerStep i).activeBuf = s.activeBuf ∧
      ∀ j, ((s.writerStep i).writers j).pending = (s.writers j).pending := by
  cases hpc : s.writers i with
  | spinning | appending =>
    rw [hpc] at hi
    cases hi
  | idle =>
    rw [writerStep, hpc]
    exact ⟨rfl, fun _ => rfl⟩
  | clearing =>
    rw [writerStep, hpc]
    refine ⟨rfl, fun j => ?_⟩
    dsimp only
    by_cases hj : j = i
    · subst hj
      rw [update_self, hpc]
      rfl
    · rw [update_of_ne hj]

theorem stopper_writerStep (s : LoggerSys ι) (i : ι) :
    (s.writerStep i).stopper = s.stopper ∧ (s.writerStep i).aborted = s.aborted := by
  unfold writerStep
  grind

omit [DecidableEq ι] in
theorem runnerStep_keeps (s : LoggerSys ι) :
    s.runnerStep.writers = s.writers ∧ s.runnerStep.stopper = s.stopper ∧
      s.runnerStep.aborted = s.aborted := by
  unfold LoggerSys.runnerStep
  grind

theorem step_of_ne_stopper (hab : s.aborted = false) (hne : ev ≠ .stopper) :
    (s.step ev).stopper.drained = s.stopper.drained ∧ (s.step ev).aborted = false := by
  rw [step_of_not_aborted hab]
  cases ev with
  | write i line =>
    dsimp only [LoggerSys.write]
    split <;> exact ⟨rfl, hab⟩
  | writer i =>
    obtain ⟨hstop, hsame⟩ := stopper_writerStep s i
    exact ⟨congrArg _ hstop, hsame.trans hab⟩
  | runner =>
    obtain ⟨-, hstop, hsame⟩ := runnerStep_keeps s
    exact ⟨congrArg _ hstop, hsame.trans hab⟩
  | stop =>
    dsimp only [LoggerSys.stop]
    split
    · rename_i hpc
      exact ⟨by rw [hpc]; rfl, hab⟩
    · exact ⟨rfl, hab⟩
  | stopper => exact absurd rfl hne

theorem Clean.step_stopper (h : s.Clean) (hok : s.StopOk .stopper) : (s.step .stopper).Clean := by
  have hinv := h.inv.step .stopper
  rw [step_of_not_aborted h.alive] at hinv ⊢
  cases hpc : s.stopper with
  | notCalled | done =>
    rw [stopperStep, hpc]
    exact h
  | joining =>
    rw [stopperStep, hpc] at hinv ⊢
    dsimp only at hinv ⊢
    split
    · rename_i hexit
      rw [if_pos hexit] at hinv
      exact ⟨hinv, nofun, nofun, h.alive⟩
    · exact h
  | draining =>
    cases hbuf : s.activeBuf with
    | nil =>
      rw [stopperStep, hpc, hbuf] at hinv ⊢
      exact ⟨hinv, fun _ => rfl, fun _ => hok h.alive rfl hpc hbuf, h.alive⟩
    | cons msg rest =>
      rw [stopperStep, hpc, hbuf] at hinv ⊢
      exact ⟨hinv, nofun, nofun, h.alive⟩
  | checking =>
    have hd : s.stopper.drained = true := by rw [hpc]; rfl
    have hempty := h.inv.flushed_of_exited (h.inv.exited_of_drained hd)
    rw [stopperStep, hpc, h.empty hd, hempty] at hinv ⊢
    exact ⟨hinv, fun _ => rfl, fun _ => h.settled hd, h.alive⟩

theorem Clean.step (h : s.Clean) (hok : s.StopOk ev) : (s.step ev).Clean := by
  by_cases hne : ev = .stopper
  · subst hne
    exact h.step_stopper hok
  have hinv := h.inv.step ev
  obtain ⟨hsame, hab⟩ := step_of_ne_stopper h.alive hne
  cases hd : s.stopper.drained with
  | false =>
    have hnot : ∀ {P : Prop}, (s.step ev).stopper.drained = true → P := fun ht => by
      rw [hsame, hd] at ht
      cases ht
    exact ⟨hinv, hnot, hnot, hab⟩
  | true =>
    have hnone := h.inv.step_drained h.alive hd
    cases ev with
    | write i line => exact (hnone.1 i line).symm ▸ h
    | runner => exact hnone.2.1.symm ▸ h
    | stop => exact hnone.2.2.symm ▸ h
    | stopper => exact absurd rfl hne
    | writer i =>
      obtain ⟨hbuf, hpend⟩ := writerStep_of_pending_none (h.settled hd i)
      refine ⟨hinv, fun _ => ?_, fun _ j => ?_, hab⟩ <;> rw [step_of_not_aborted h.alive]
      · exact hbuf.trans (h.empty hd)
      · exact (hpend j).trans (h.settled hd j)

theorem Clean.lost (h : s.Clean) (hnot : ¬ s.StopOk ev) : (s.step ev).Lost := by
  unfold StopOk at hnot
  push Not at hnot
  obtain ⟨hab, rfl, hpc, hbuf, i, hi⟩ := hnot
  have hinv := h.inv.step .stopper
  rw [step_of_not_aborted hab] at hinv ⊢
  rw [stopperStep, hpc, hbuf] at hinv ⊢
  exact ⟨hinv, rfl, .inr ⟨i, hi⟩⟩

theorem Lost.writerStep (h : s.Lost) (i : ι) :
    (s.writerStep i).activeBuf ≠ [] ∨ ∃ j, ((s.writerStep i).writers j).pending ≠ none := by
  cases hpc : s.writers i with
  | idle | clearing =>
    obtain ⟨hbuf, hpend⟩ := writerStep_of_pending_none (i := i) (by rw [hpc]; rfl)
    rw [hbuf]
    exact h.left.imp id fun hex => hex.imp fun j hj => by rwa [hpend]
  | spinning line =>
    refine .inr ⟨i, ?_⟩
    rw [LoggerSys.writerStep, hpc]
    dsimp only
    split
    · rw [hpc]
      nofun
    · simp [WritePc.pending]
  | appending line =>
    left
    rw [LoggerSys.writerStep, hpc]
    exact append_ne_nil_of_right_ne_nil _ nofun

theorem Lost.step (h : s.Lost) (ev : LoggerEvent ι) : (s.step ev).Lost := by
  have hinv := h.inv.step ev
  cases hab : s.aborted with
  | true =>
    rw [step_of_aborted hab]
    exact h
  | false =>
    have hnone := h.inv.step_drained hab h.drained
    cases ev with
    | write i line => exact (hnone.1 i line).symm ▸ h
    | runner => exact hnone.2.1.symm ▸ h
    | stop => exact hnone.2.2.symm ▸ h
    | writer i =>
      have hne : LoggerEvent.writer i ≠ .stopper := nofun
      refine ⟨hinv, (step_of_ne_stopper hab hne).1.trans h.drained, ?_⟩
      rw [step_of_not_aborted hab]
      exact h.writerStep i
    | stopper =>
      have hd := h.drained
      rw [step_of_not_aborted hab] at hinv ⊢
      cases hpc : s.stopper with
      | notCalled | joining | draining =>
        rw [hpc] at hd
        cases hd
      | done =>
        rw [stopperStep, hpc]
        exact h
      | checking =>
        rw [stopperStep, hpc] at hinv ⊢
        dsimp only at hinv ⊢
        split at hinv
        · rename_i hnil
          rw [if_pos hnil]
          exact ⟨hinv, rfl, h.left⟩
        · rename_i hleft
          rw [if_neg hleft]
          exact ⟨hinv, rfl, h.left⟩

omit [DecidableEq ι] in
theorem Clean.handedOver (h : s.Clean) (hfin : s.Finished) : s.HandedOver := by
  obtain hab | ⟨hpc, hidle⟩ := hfin
  · rw [h.alive] at hab
    cases hab
  · have hd : s.stopper.drained = true := by rw [hpc]; rfl
    have hempty := h.inv.flushed_of_exited (h.inv.exited_of_drained hd)
    have horder := h.inv.order
    rw [h.empty hd, hempty, append_nil, append_nil] at horder
    obtain ⟨p, hp⟩ := h.inv.pending
    have hnil : p = [] := eq_nil_iff_forall_not_mem.2 fun q hq => by
      have hq' := (hp.mem q.1 q.2).1 hq
      rw [hidle] at hq'
      cases hq'
    have hperm := hp.perm
    rw [hnil, map_nil, append_nil, horder] at hperm
    exact ⟨horder ▸ prefix_refl _, hperm.symm⟩

omit [DecidableEq ι] in
theorem Lost.not_handedOver (h : s.Lost) (hfin : s.Finished) : ¬ s.HandedOver := by
  have hleft : s.activeBuf ≠ [] := by
    obtain hab | ⟨-, hidle⟩ := hfin
    · exact h.inv.aborts hab
    · refine h.left.resolve_right fun hex => ?_
      obtain ⟨i, hi⟩ := hex
      rw [hidle] at hi
      exact hi rfl
  intro hover
  -- more was appended than was handed over, and no more than was observed
  obtain ⟨p, hp⟩ := h.inv.pending
  have hlen := hover.2.length_eq.trans hp.perm.length_eq
  rw [length_append, h.inv.order, length_append, length_append] at hlen
  have hpos := length_pos_iff.2 hleft
  omega

/-- **A run that has come to its end has handed over every message once and in order, exactly if no
append was to come when `Stop` found the active buffer empty.** -/
theorem handedOver_iff (evs : List (LoggerEvent ι)) (hfin : (evs.foldl step init).Finished) :
    (evs.foldl step init).HandedOver ↔ Along step StopOk init evs := by
  have hkeep : ∀ (s : LoggerSys ι) ev, s.Clean → s.StopOk ev → (s.step ev).Clean :=
    fun _ _ h hok => h.step hok
  have hlose : ∀ (s : LoggerSys ι) ev, s.Clean → ¬ s.StopOk ev → (s.step ev).Lost :=
    fun _ _ h hnot => h.lost hnot
  rcases along_or clean_init hkeep hlose (fun _ ev h => h.step ev) with
    ⟨hok, hclean⟩ | ⟨hnot, hlost⟩
  · exact iff_of_true (hclean.handedOver hfin) hok
  · exact iff_of_false (hlost.not_handedOver hfin) hnot

def hello : Line := ⟨1, .info, "hello".toList⟩

def writeThenStop : List (LoggerEvent Unit) :=
  [.write () hello, .writer (), .writer (), .writer (), .stop, .runner, .stopper, .stopper,
    .stopper, .stopper]

theorem handedOver_iff_writeThenStop :
    (writeThenStop.foldl step init).Finished ∧
      ((writeThenStop.foldl step init).HandedOver ↔ Along step StopOk init writeThenStop) :=
  have hfin : (writeThenStop.foldl step init).Finished := .inr ⟨by decide, fun () => by decide⟩
  ⟨hfin, handedOver_iff writeThenStop hfin⟩

def writeAcrossStop : List (LoggerEvent Unit) :=
  [.write () hello, .stop, .runner, .stopper, .stopper, .stopper, .writer (), .writer (),
    .writer ()]

/-- Its message stays in the active buffer. -/
theorem not_handedOver_writeAcrossStop :
    (writeAcrossStop.foldl step init).Finished ∧
      ¬ (writeAcrossStop.foldl step init).HandedOver :=
  ⟨.inr ⟨by decide, fun () => by decide⟩, fun h => absurd h.2.length_eq (by decide)⟩

end LoggerSys

end Logger
