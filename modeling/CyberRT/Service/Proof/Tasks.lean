import CyberRT.Service.Service

/-!
# No wakeup of a service is lost

`destroy` writes `inited_` without the mutex.
-/

namespace Service

open Function Lib List

variable {ι α : Type*}

attribute [local simp] WorkerPc.inHand WorkerPc.hasMutex ReceiverPc.hasMutex
  ServiceTasks.workerStep ServiceTasks.receiverStep

section
variable [DecidableEq ι] (receivers : ι → ReceiverPc α) (worker : WorkerPc α) (owner : OwnerPc)

theorem hasMutex_receiver (i : ι) (pc : ReceiverPc α) :
    hasMutex (update receivers i pc) worker owner =
      update (hasMutex receivers worker owner) (.receiver i) pc.hasMutex := by
  funext r
  cases r with
  | receiver j =>
    by_cases hj : j = i
    · simp [hasMutex, hj]
    · simp [hasMutex, hj]
  | worker => simp [hasMutex]
  | owner => simp [hasMutex]

theorem hasMutex_worker (pc : WorkerPc α) :
    hasMutex receivers pc owner = update (hasMutex receivers worker owner) .worker pc.hasMutex := by
  funext r
  cases r <;> simp [hasMutex]

theorem hasMutex_owner (pc : OwnerPc) :
    hasMutex receivers worker pc =
      update (hasMutex receivers worker owner) .owner (decide (pc = .locked)) := by
  funext r
  cases r <;> simp [hasMutex]

end

namespace ServiceTasks

variable {s : ServiceTasks ι α}

structure Inv (s : ServiceTasks ι α) : Prop where
  mutex : HeldBy s.mutex (hasMutex s.receivers s.worker s.owner)
  waiters : s.cond.waiting ≠ [] → s.worker = .waiting ∧ s.cond.waiting.length ≤ 1
  blocking : s.worker = .blocking → s.tasks = [] ∧ (s.inited = false → s.owner = .clearing)
  waiting : s.cond.waiting ≠ [] →
    (s.tasks ≠ [] → ∃ i, s.receivers i = .pushed) ∧ (s.inited = false → s.owner.willNotify = true)
  order : (s.handled ++ s.worker.inHand ++ s.tasks).Sublist s.arrived
  joined : s.joinable = false → s.worker = .unstarted ∨ s.worker = .exited
  unstarted : s.worker = .unstarted → s.joinable = false
  destroying : s.owner.destroying = true → s.inited = false

theorem Inv.init : Inv (init : ServiceTasks ι α) where
  mutex r := by cases r <;> simp [ServiceTasks.init, hasMutex]
  waiters h := absurd rfl h
  blocking h := nomatch h
  waiting h := absurd rfl h
  order := List.Sublist.refl []
  joined _ := .inl rfl
  unstarted _ := rfl
  destroying h := nomatch h

section
variable (h : Inv s)
include h

theorem Inv.ne_blocking (hmutex : s.mutex ≠ some .worker) : s.worker ≠ .blocking := by
  intro hpc
  refine hmutex (h.mutex.eq_some ?_)
  simp [hasMutex, hpc]

theorem Inv.waiting_eq_nil (hpc : s.worker ≠ .waiting) : s.cond.waiting = [] := by
  by_contra hne
  exact hpc (h.waiters hne).1

theorem Inv.notified : (s.cond.notifyOne 0).waiting = [] := by
  apply CondVar.waiting_notifyOne_eq_nil
  by_cases hne : s.cond.waiting = []
  · simp [hne]
  · exact (h.waiters hne).2

theorem Inv.not_stranded : ¬ s.Stranded := by
  intro hs
  obtain ⟨⟨-, hmem⟩, htasks, hnone⟩ := hs
  exact hnone (.inl ((h.waiting (ne_nil_of_mem hmem)).1 htasks))

theorem Inv.not_blocked (ho : s.owner = .joining) : s.cond.waiting = [] := by
  by_contra hne
  have hinited : s.inited = false := h.destroying (by rw [ho]; rfl)
  have hnotify := (h.waiting hne).2 hinited
  simp [ho, OwnerPc.willNotify] at hnotify

theorem Inv.not_leftInJoin : ¬ s.LeftInJoin := by
  intro hs
  obtain ⟨ho, -, hmem⟩ := hs
  simp [h.not_blocked ho] at hmem

theorem Inv.handled_sublist : s.handled.Sublist s.arrived := by
  refine List.Sublist.trans ?_ h.order
  grind

end

section
variable [DecidableEq ι] {i : ι} {pc : ReceiverPc α}

theorem pushed_update (hpc : s.receivers i ≠ .pushed)
    (h : ∃ j, s.receivers j = .pushed) : ∃ j, update s.receivers i pc j = .pushed := by
  obtain ⟨j, hj⟩ := h
  have hne : j ≠ i := by
    rintro rfl
    exact hpc hj
  exact ⟨j, by rw [update_of_ne hne, hj]⟩

section
variable (h : Inv s) {mutex : Option (Role ι)}
include h

theorem Inv.receiverMove (hpc : s.receivers i ≠ .pushed)
    (hmutex : HeldBy mutex (update (hasMutex s.receivers s.worker s.owner) (.receiver i)
      pc.hasMutex)) : Inv { s with receivers := update s.receivers i pc, mutex } := by
  refine { h with mutex := ?_, waiting := fun hne => ⟨fun ht => ?_, (h.waiting hne).2⟩ }
  · rwa [hasMutex_receiver]
  · exact pushed_update hpc ((h.waiting hne).1 ht)

theorem Inv.receiverStep (i : ι) : Inv (s.receiverStep i) := by
  unfold ServiceTasks.receiverStep
  cases hpc : s.receivers i with
  | idle => exact h
  | locking task =>
    dsimp only
    split
    · rename_i hfree
      exact h.receiverMove (by simp [hpc]) (h.mutex.lock (by simpa using hfree) _)
    · exact h
  | locked task =>
    have hhas : hasMutex s.receivers s.worker s.owner (.receiver i) = true := by
      simp [hasMutex, hpc]
    have hmutex : s.mutex ≠ some .worker := by simp [h.mutex.eq_some hhas]
    refine { h with
      mutex := ?_
      blocking := fun hb => absurd hb (h.ne_blocking hmutex)
      waiting := fun hne => ⟨fun _ => ⟨i, update_self i _ _⟩, (h.waiting hne).2⟩
      order := ?_ }
    · rw [hasMutex_receiver]
      exact h.mutex.keep hhas.symm
    · rw [← append_assoc]
      exact h.order.append (List.Sublist.refl [task])
  | pushed =>
    refine { h with
      mutex := ?_
      waiters := fun hne => absurd h.notified hne
      waiting := fun hne => absurd h.notified hne }
    rw [hasMutex_receiver]
    exact h.mutex.keep (by simp [hasMutex, hpc])
  | notified => exact h.receiverMove (by simp [hpc]) (h.mutex.unlock (by simp [hasMutex, hpc]))

theorem Inv.workerMove {pc : WorkerPc α}
    {tasks handled : List α} {old : WorkerPc α} (hold : s.worker = old)
    (hlive : old ≠ .waiting ∧ old ≠ .unstarted ∧ old ≠ .exited) (hnew : pc ≠ .unstarted)
    (hmutex : HeldBy mutex (update (hasMutex s.receivers s.worker s.owner) .worker
      pc.hasMutex)) (hblock : pc = .blocking → tasks = [] ∧ s.inited = true)
    (horder : (handled ++ pc.inHand ++ tasks) = s.handled ++ s.worker.inHand ++ s.tasks) :
    Inv { s with worker := pc, mutex := mutex, tasks := tasks, handled := handled } where
  mutex := by
    rw [hasMutex_worker s.receivers s.worker]
    exact hmutex
  waiters hne := absurd (h.waiting_eq_nil (hold ▸ hlive.1)) hne
  blocking hb := ⟨(hblock hb).1, fun hi => by simp [(hblock hb).2] at hi⟩
  waiting hne := absurd (h.waiting_eq_nil (hold ▸ hlive.1)) hne
  order := by
    rw [horder]
    exact h.order
  joined hj := by
    rcases h.joined hj with hw | hw
    all_goals grind
  unstarted hw := absurd hw hnew
  destroying := h.destroying

theorem Inv.workerStep : Inv s.workerStep := by
  unfold ServiceTasks.workerStep
  cases hpc : s.worker with
  | unstarted => exact h
  | exited => exact h
  | top =>
    refine h.workerMove hpc (by simp) ?_ (h.mutex.keep ?_) ?_ ?_
    · split <;> simp
    · split <;> simp [hasMutex, hpc]
    · split <;> simp
    · split <;> simp [hpc]
  | locking =>
    dsimp only
    split
    · rename_i hfree
      exact h.workerMove hpc (by simp) (by simp)
        (h.mutex.lock (by simpa using hfree) _) (by simp) (by simp [hpc])
    · exact h
  | checking =>
    refine h.workerMove hpc (by simp) ?_ (h.mutex.keep ?_) ?_ ?_
    · split <;> simp
    · split <;> simp [hasMutex, hpc]
    · grind
    · split <;> simp [hpc]
  | blocking =>
    obtain ⟨htasks, hclearing⟩ := h.blocking hpc
    have hnil : s.cond.waiting = [] := h.waiting_eq_nil (by simp [hpc])
    refine { h with
      mutex := ?_
      waiters := fun _ => ⟨rfl, by simp [CondVar.wait, hnil]⟩
      blocking := by simp
      waiting := fun _ => ⟨fun hne => absurd htasks hne, fun hi => by simp [hclearing hi,
        OwnerPc.willNotify]⟩
      order := ?_
      joined := fun hj => ?_
      unstarted := by simp }
    · rw [hasMutex_worker s.receivers s.worker]
      exact h.mutex.unlock (by simp [hasMutex, hpc])
    · simpa [hpc] using h.order
    · simpa [hpc] using h.joined hj
  | waiting =>
    dsimp only
    split
    · rename_i hwoken
      have hnil : s.cond.waiting = [] := eq_nil_iff_forall_not_mem.2 fun _ => hwoken.1
      refine { h with
        mutex := ?_
        waiters := fun hne => absurd hnil hne
        blocking := by simp
        waiting := fun hne => absurd hnil hne
        order := ?_
        joined := fun hj => ?_
        unstarted := by simp }
      · rw [hasMutex_worker s.receivers s.worker]
        exact h.mutex.lock (by simpa using hwoken.2) _
      · simpa [hpc] using h.order
      · simpa [hpc] using h.joined hj
    · exact h
  | woken =>
    have hunlock : HeldBy none (update (hasMutex s.receivers s.worker s.owner) .worker
        false) := h.mutex.unlock (by simp [hasMutex, hpc])
    dsimp only
    split
    · exact h.workerMove hpc (by simp) (by simp) hunlock (by simp) (by simp [hpc])
    · split
      · exact h.workerMove hpc (by simp) (by simp) hunlock (by simp) (by simp [hpc])
      · rename_i task tasks htasks
        exact h.workerMove hpc (by simp) (by simp) hunlock (by simp) (by simp [hpc, htasks])
  | running task =>
    exact h.workerMove hpc (by simp) (by simp)
      (h.mutex.keep (by simp [hasMutex, hpc])) (by simp)
      (by simp [hpc])

theorem Inv.ownerMove {owner : OwnerPc} {inited : Bool}
    (hlock : decide (owner = .locked) = decide (s.owner = .locked))
    (hflag : inited = false → owner = .clearing ∨ s.inited = false ∧ s.owner.willNotify = false)
    (hdestroy : owner.destroying = true → inited = false) : Inv { s with owner, inited } := by
  refine { h with
    mutex := ?_
    blocking := fun hb => ⟨(h.blocking hb).1, fun hi => ?_⟩
    waiting := fun hne => ⟨(h.waiting hne).1, fun hi => ?_⟩
    destroying := hdestroy }
  · rw [hasMutex_owner s.receivers s.worker s.owner]
    exact h.mutex.keep hlock
  · rcases hflag hi with ho | ⟨hs, ho⟩
    · exact ho
    · simp [(h.blocking hb).2 hs, OwnerPc.willNotify] at ho
  · rcases hflag hi with rfl | ⟨hs, ho⟩
    · rfl
    · simp [(h.waiting hne).2 hs] at ho

theorem Inv.ownerStep : Inv s.ownerStep := by
  unfold ServiceTasks.ownerStep
  cases hpc : s.owner with
  | quiet => exact h
  | initing => exact h.ownerMove (by simp [hpc]) nofun nofun
  | starting =>
    dsimp only
    split
    · exact h
    · rename_i hjoin
      have hidle := h.joined (by simpa using hjoin)
      have hnil : s.cond.waiting = [] :=
        h.waiting_eq_nil (by rcases hidle with hw | hw <;> simp [hw])
      refine { h with
        mutex := ?_
        waiters := fun hne => absurd hnil hne
        blocking := nofun
        waiting := fun hne => absurd hnil hne
        order := ?_
        joined := nofun
        unstarted := nofun
        destroying := nofun }
      · rw [hasMutex_owner s.receivers _ s.owner, hasMutex_worker s.receivers s.worker]
        have hworker : WorkerPc.hasMutex (.top : WorkerPc α) = s.worker.hasMutex := by
          rcases hidle with hw | hw <;> rw [hw] <;> rfl
        refine HeldBy.keep (h.mutex.keep hworker) ?_
        simp [hasMutex, hpc]
      · have hhand : s.worker.inHand = [] := by rcases hidle with hw | hw <;> rw [hw] <;> rfl
        have horder := h.order
        rw [hhand] at horder
        exact horder
  | clearing =>
    dsimp only
    split
    · rename_i hfree
      have hnone : s.mutex = none := by simpa using hfree
      refine { h with
        mutex := ?_
        blocking := fun hb => absurd hb (h.ne_blocking (by simp [hnone]))
        waiting := fun hne => ⟨(h.waiting hne).1, fun _ => rfl⟩
        destroying := fun _ => h.destroying (by rw [hpc]; rfl) }
      rw [hasMutex_owner s.receivers s.worker s.owner]
      exact h.mutex.lock hnone _
    · exact h
  | locked =>
    refine { h with
      mutex := ?_
      blocking := fun hb => ⟨rfl, fun hi => ?_⟩
      waiting := fun hne => ⟨fun ht => absurd rfl ht, fun _ => rfl⟩
      order := ?_
      destroying := fun _ => h.destroying (by rw [hpc]; rfl) }
    · rw [hasMutex_owner s.receivers s.worker s.owner]
      exact h.mutex.unlock (by simp [hasMutex, hpc])
    · simpa [hpc] using (h.blocking hb).2 hi
    · refine List.Sublist.trans ?_ h.order
      exact (List.Sublist.refl _).append (nil_sublist _)
  | notifying =>
    refine { h with
      mutex := ?_
      waiters := fun hne => absurd rfl hne
      blocking := fun hb => ⟨(h.blocking hb).1, fun hi => ?_⟩
      waiting := fun hne => absurd rfl hne
      destroying := fun _ => h.destroying (by rw [hpc]; rfl) }
    · rw [hasMutex_owner s.receivers s.worker s.owner]
      exact h.mutex.keep (by simp [hasMutex, hpc])
    · simpa [hpc] using (h.blocking hb).2 hi
  | joining =>
    have hquiet : Inv { s with owner := .quiet } :=
      h.ownerMove (by simp [hpc]) (fun hi => .inr ⟨hi, by rw [hpc]; rfl⟩) nofun
    dsimp only
    split
    · split
      · rename_i hexit
        exact { hquiet with joined := fun _ => .inr hexit, unstarted := fun _ => rfl }
      · exact h
    · exact hquiet

theorem Inv.step (ev : TasksEvent ι α) : Inv (s.step ev) := by
  cases ev with
  | init made =>
    simp only [ServiceTasks.step]
    split
    · rename_i hquiet
      have hmove : Inv { s with owner := .initing } :=
        h.ownerMove (by simp [hquiet.1]) (fun hi => .inr ⟨hi, by rw [hquiet.1]; rfl⟩) nofun
      exact { hmove with }
    · exact h
  | destroy =>
    simp only [ServiceTasks.step]
    split
    · rename_i hquiet
      exact h.ownerMove (by simp [hquiet]) (fun _ => .inl rfl) fun _ => rfl
    · exact h
  | owner => exact h.ownerStep
  | enqueue i task =>
    simp only [ServiceTasks.step]
    split
    · rename_i hpc
      split
      · exact h.receiverMove (by simp [hpc]) (h.mutex.keep (by simp [hasMutex, hpc]))
      · exact h
    · exact h
  | receiver i => exact h.receiverStep i
  | worker => exact h.workerStep
  | wake =>
    exact { h with waiters := fun hne => absurd rfl hne, waiting := fun hne => absurd rfl hne }
  | shutdown => exact { h with }

end

theorem Returns.head {ev : TasksEvent ι α}
    (hev : ev = .owner ∨ ev = .worker ∨ ∃ i, ev = .receiver i) (h : (s.step ev).Returns) :
    s.Returns := by
  obtain ⟨more, hall, hquiet⟩ := h
  exact ⟨ev :: more, forall_mem_cons.2 ⟨hev, hall⟩, hquiet⟩

theorem Returns.worker (h : s.workerStep.Returns) : s.Returns := Returns.head (.inr (.inl rfl)) h

theorem Returns.receiver (h : (s.receiverStep i).Returns) : s.Returns :=
  Returns.head (.inr (.inr ⟨i, rfl⟩)) h

section
variable (ho : s.owner = .joining) {task : α}
include ho

theorem returns_exited (hw : s.worker = .exited) : s.Returns := by
  refine Returns.head (.inl rfl) ⟨[], nofun, ?_⟩
  simp only [foldl_nil, step, ownerStep, ho, hw]
  split <;> rfl

theorem returns_unstarted (h : Inv s) (hw : s.worker = .unstarted) : s.Returns := by
  refine Returns.head (.inl rfl) ⟨[], nofun, ?_⟩
  simp [step, ownerStep, ho, h.unstarted hw]

section
variable (hi : s.inited = false)
include hi

theorem returns_woken (hw : s.worker = .woken) : s.Returns := by
  apply Returns.worker
  apply returns_exited
  · simp [hw, hi, ho]
  · simp [hw, hi]

theorem returns_checking (hw : s.worker = .checking) : s.Returns := by
  apply Returns.worker
  apply returns_woken
  · simp [hw, ho]
  · simp [hw, hi]
  · simp [hw, hi]

theorem returns_locking (hfree : s.mutex = none) (hw : s.worker = .locking) : s.Returns := by
  apply Returns.worker
  apply returns_checking
  · simp [hw, hfree, ho]
  · simp [hw, hfree, hi]
  · simp [hw, hfree]

theorem returns_top (hfree : s.mutex = none) (hw : s.worker = .top) : s.Returns := by
  apply Returns.worker
  by_cases hdown : s.shutdown = true
  · apply returns_exited
    · simp [hw, ho]
    · simp [hw, hdown]
  · apply returns_locking
    · simp [hw, ho]
    · simp [hw, hi]
    · simp [hw, hfree]
    · simp [hw, hdown]

end

theorem returns_waiting (h : Inv s) (hi : s.inited = false) (hfree : s.mutex = none)
    (hw : s.worker = .waiting) : s.Returns := by
  have hnil := h.not_blocked ho
  apply Returns.worker
  apply returns_checking
  · simp [hw, hfree, hnil, ho]
  · simp [hw, hfree, hnil, hi]
  · simp [hw, hfree, hnil]

theorem returns_running (hi : s.inited = false) (hfree : s.mutex = none)
    (hw : s.worker = .running task) : s.Returns := by
  apply Returns.worker
  apply returns_top
  · simp [hw, ho]
  · simp [hw, hi]
  · simp [hw, hfree]
  · simp [hw]

theorem returns_of_free (h : Inv s) (hfree : s.mutex = none) : s.Returns := by
  have hi : s.inited = false := h.destroying (by rw [ho]; rfl)
  cases hw : s.worker with
  | unstarted => exact returns_unstarted ho h hw
  | top => exact returns_top ho hi hfree hw
  | locking => exact returns_locking ho hi hfree hw
  | checking => exact returns_checking ho hi hw
  | blocking => exact absurd hw (h.ne_blocking (by simp [hfree]))
  | waiting => exact returns_waiting ho h hi hfree hw
  | woken => exact returns_woken ho hi hw
  | running task => exact returns_running ho hi hfree hw
  | exited => exact returns_exited ho hw

theorem returns_notified (h : Inv s) (hpc : s.receivers i = .notified) : s.Returns := by
  apply Returns.receiver (i := i)
  apply returns_of_free _ (h.receiverStep i)
  · simp [hpc]
  · simp [hpc, ho]

theorem returns_pushed (h : Inv s) (hpc : s.receivers i = .pushed) : s.Returns := by
  apply Returns.receiver (i := i)
  apply returns_notified _ (h.receiverStep i) (i := i)
  · simp [hpc]
  · simp [hpc, ho]

theorem returns_locked (h : Inv s) (hpc : s.receivers i = .locked task) : s.Returns := by
  apply Returns.receiver (i := i)
  apply returns_pushed _ (h.receiverStep i) (i := i)
  · simp [hpc]
  · simp [hpc, ho]

end

theorem Inv.canReturn (h : Inv s) : s.CanReturn := by
  intro ho
  have hi : s.inited = false := h.destroying (by rw [ho]; rfl)
  cases hmutex : s.mutex with
  | none => exact returns_of_free ho h hmutex
  | some r =>
    have hhas := (h.mutex r).1 hmutex
    cases r with
    | owner => simp [hasMutex, ho] at hhas
    | worker =>
      cases hw : s.worker with
      | checking => exact returns_checking ho hi hw
      | woken => exact returns_woken ho hi hw
      | blocking => simpa [ho] using (h.blocking hw).2 hi
      | _ => simp [hasMutex, hw] at hhas
    | receiver i =>
      cases hpc : s.receivers i with
      | locked task => exact returns_locked ho h hpc
      | pushed => exact returns_pushed ho h hpc
      | notified => exact returns_notified ho h hpc
      | _ => simp [hasMutex, hpc] at hhas

/-- **The queue of a service** over any run: the requests are handled in the order of their arrival,
each once at most; the worker does not wait with a request in the queue and no notification to come;
and a `destroy` that waits in `join` does not wait for a worker that waits, and can return. -/
theorem always_served (evs : List (TasksEvent ι α)) :
    Always ServiceTasks.step (fun s => s.handled.Sublist s.arrived ∧ ¬ s.Stranded ∧ ¬ s.LeftInJoin ∧
      s.CanReturn) (ServiceTasks.init : ServiceTasks ι α) evs := by
  apply always_of_inv Inv.init
  · intro s ev h
    exact h.step ev
  · intro s h
    exact ⟨h.handled_sublist, h.not_stranded, h.not_leftInJoin, h.canReturn⟩

end

end ServiceTasks

end Service
