import CyberRT.Croutine.CRoutine
import CyberRT.Lib.Run

/-!
# The routine of a data visitor is not left asleep

The routine enters `DATA_WAIT` *before* it looks for a message. A notifier whose `Fill` came too
late for that look finds it waiting, and leaves an update.
-/

namespace Croutine

open Data Lib

namespace DataSys

variable {T : Type*} {s : DataSys T}

def Answered (s : DataSys T) : Prop :=
  s.routine.Alert ∨ s.pc = .fetching ∨ s.pc = .fetched ∨
    .readDataWait ∈ s.notifiers ∨ .setFlag ∈ s.notifiers

structure Inv (s : DataSys T) : Prop where
  noIo : s.routine.state ≠ .ioWait
  runs : s.routine.holder ≠ .running → s.pc = .top
  answered : s.Unfetched → s.Answered

theorem inv_init [Inhabited T] (size : Nat) : Inv (init size : DataSys T) where
  noIo := by simp [init, CRoutine.new]
  runs _ := rfl
  answered _ := .inl (.inl rfl)

theorem tryFetch_none {v v' : DataVisitor T} (h : v.tryFetch = (none, v')) :
    v'.tryFetch.1.isSome = false := by
  unfold DataVisitor.tryFetch at h
  split at h
  · cases h
  · rename_i index hf
    obtain ⟨-, rfl⟩ := h
    -- the index is as it was
    have hindex : index = v.nextMsgIndex := by
      unfold CacheBuffer.fetch at hf
      grind
    subst hindex
    simp only [DataVisitor.tryFetch, hf]
    rfl

theorem Inv.dispatch (h : Inv s) (m : T) : Inv (s.dispatch m) where
  noIo := h.noIo
  runs := h.runs
  answered _ := .inr (.inr (.inr (.inl (List.mem_append_right _ (List.mem_singleton_self _)))))

theorem Answered.set (h : s.Answered) {k : Nat} {pc : NotifyPc} (hk : s.notifiers[k]? = some pc)
    (hread : pc ≠ .readDataWait) (hset : pc ≠ .setFlag) (pc' : NotifyPc) :
    Answered { s with notifiers := s.notifiers.set k pc' } := by
  rcases h with ha | ha | ha | ha | ha
  · exact .inl ha
  · exact .inr (.inl ha)
  · exact .inr (.inr (.inl ha))
  · exact .inr (.inr (.inr (.inl ((mem_set_or_eq hk ha pc').resolve_left hread.symm))))
  · exact .inr (.inr (.inr (.inr ((mem_set_or_eq hk ha pc').resolve_left hset.symm))))

section
variable (h : Inv s)
include h

theorem Inv.notify (k : Nat) : Inv (s.notify k) := by
  unfold DataSys.notify
  cases hk : s.notifiers[k]? with
  | none => exact h
  | some pc =>
    cases pc with
    | readDataWait =>
      refine ⟨h.noIo, h.runs, fun _ => ?_⟩
      by_cases hw : s.routine.state = .dataWait
      · simp only [notifyProcessor, if_pos hw]
        obtain ⟨hlt, -⟩ := List.getElem?_eq_some_iff.1 hk
        exact .inr (.inr (.inr (.inr (List.mem_set hlt _))))
      · -- not waiting: the routine is to look for a message again
        exact .inl (.inl (RoutineState.waits_eq_false hw h.noIo))
    | readIoWait =>
      refine ⟨h.noIo, h.runs, fun hu => ?_⟩
      exact (h.answered hu).set hk (by decide) (by decide) _
    | setFlag => exact ⟨h.noIo, h.runs, fun _ => .inl (.inr (CRoutine.pending_setUpdateFlag _))⟩
    | done => exact ⟨h.noIo, h.runs, fun hu => (h.answered hu).set hk (by decide) (by decide) _⟩

theorem Inv.processor : Inv (s.step .processor) := by
  refine ⟨?_, fun hp => ?_, fun hu => ?_⟩
  · exact CRoutine.processor_state_ne (by decide) h.noIo
  · by_cases hr : s.routine.holder = .running
    · exact absurd (by simp [DataSys.step, hr]) hp
    · exact h.runs hr
  · rcases h.answered hu with ha | ha
    · exact .inl ha.processor
    · exact .inr ha

theorem Inv.swapOut (hr : s.routine.holder = .running) (hpc : s.pc ≠ .fetching)
    (hpc' : s.pc ≠ .fetched) : Inv { s with routine := s.routine.swapOut, pc := .top } := by
  refine ⟨h.noIo, fun _ => rfl, fun hu => ?_⟩
  rcases h.answered hu with ha | ha | ha | ha
  · exact .inl (ha.swapOut hr)
  · exact absurd ha hpc
  · exact absurd ha hpc'
  · exact .inr (.inr (.inr ha))

theorem Inv.runRoutine : Inv s.runRoutine := by
  unfold DataSys.runRoutine
  split
  · exact h
  · rename_i hr
    have hr : s.routine.holder = .running := by simpa using hr
    split
    · exact ⟨by simp [CRoutine.setState], fun hp => absurd hr hp, fun _ => .inr (.inl rfl)⟩
    · split
      · exact ⟨h.noIo, fun hp => absurd hr hp, fun _ => .inr (.inr (.inl rfl))⟩
      · rename_i visitor hf
        refine ⟨h.noIo, fun hp => absurd hr hp, fun hu => ?_⟩
        have hu' : visitor.tryFetch.1.isSome = true := hu
        rw [tryFetch_none hf] at hu'
        cases hu'
    · exact ⟨by simp [CRoutine.setState], fun hp => absurd hr hp, fun _ => .inl (.inl rfl)⟩
    · rename_i hpc
      exact h.swapOut hr (by simp [hpc]) (by simp [hpc])
    · rename_i hpc
      exact h.swapOut hr (by simp [hpc]) (by simp [hpc])

theorem Inv.step (a : DataStep T) : Inv (s.step a) := by
  cases a with
  | dispatch m => exact h.dispatch m
  | notify k => exact h.notify k
  | processor => exact h.processor
  | routine => exact h.runRoutine

theorem Inv.not_stuck : ¬ s.Stuck := by
  rintro ⟨hp, hw, hn, hd, hu⟩
  have htop := h.runs hp
  rcases h.answered hu with (ha | ha) | ha | ha | ha | ha
  · rw [hw] at ha
    cases ha
  all_goals grind

end

/-- **No lost wakeup**: in every interleaving of dispatches, notifiers, processors and the routine,
for every buffer size, no state is reached in which the routine is parked waiting with a message to
fetch and nobody to wake it. -/
theorem never_stuck [Inhabited T] (size : Nat) (steps : List (DataStep T)) :
    Always DataSys.step (fun s => ¬ s.Stuck) (init size : DataSys T) steps := by
  apply always_of_inv (inv_init size)
  · intro s a h
    exact h.step a
  · intro s h
    exact h.not_stuck

end DataSys

end Croutine
