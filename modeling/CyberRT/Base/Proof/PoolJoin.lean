import CyberRT.Base.BoundedQueue

/-!
# A waiting worker is notified

A `Dequeue` reports an empty queue only when there is no element at its load of `commit_`; so the
worker that is about to wait has missed nothing, and an element that comes later brings a
notification.
-/

namespace Base

open Lib BoundedQueue

def DequeuePc.Sound {T : Type*} (head commit : Nat) : DequeuePc T → Prop
  | .loadHead => True
  | .loadCommit oldHead => oldHead ≤ head
  | .read oldHead | .casHead oldHead _ => oldHead ≤ head ∧ oldHead + 1 < commit
  | .returned _ => False

theorem DequeuePc.Sound.mono {T : Type*} {pc : DequeuePc T} {head head' commit commit' : Nat}
    (h : pc.Sound head commit) (hh : head ≤ head') (hc : commit ≤ commit') :
    pc.Sound head' commit' := by
  cases pc with
  | loadHead => trivial
  | loadCommit _ => exact Nat.le_trans h hh
  | read _ | casHead _ _ => exact ⟨Nat.le_trans h.1 hh, Nat.lt_of_lt_of_le h.2 hc⟩
  | returned _ => exact h

namespace ThreadPool

variable {n m : Nat} {T : Type*} {s : ThreadPool n m T} {i i' : Fin n} {destructor : DestructorPc}
  {pc : WorkerPc T} {breakers : Nat} {weak : Bool} {j : Fin m}

attribute [local simp] ThreadPool.goto ThreadPool.produce

def Notifying (s : ThreadPool n m T) : Prop := (∃ j, s.producers j = .notify) ∨ s.Breaking

def Asleep (s : ThreadPool n m T) (i : Fin n) : Prop :=
  i ∈ s.cond.waiting ∨ s.workers i = .enterWait

def PastCheck (s : ThreadPool n m T) (i : Fin n) : Prop :=
  i ∈ s.cond.waiting ∨ (s.workers i).checked = true

theorem Asleep.pastCheck (h : s.Asleep i) : s.PastCheck i := by
  rcases h with h | h
  · exact .inl h
  · exact .inr (by rw [h]; rfl)

structure ElementInv (s : ThreadPool n m T) : Prop where
  order : s.queue.head + 1 ≤ s.queue.commit
  sound : ∀ i pc, s.workers i = .dequeue pc → pc.Sound s.queue.head s.queue.commit
  element : s.queue.Holds → ∀ i, s.Asleep i → s.Notifying

def FlagInv (s : ThreadPool n m T) : Prop :=
  s.queue.breakAllWait = true → ∀ i, s.PastCheck i → s.Breaking

theorem elementInv_init [Inhabited T] (maxTaskNum : Nat) :
    (init maxTaskNum : ThreadPool n m T).ElementInv where
  order := Nat.le_refl 1
  sound _ _ := nofun
  element h := absurd rfl h

theorem flagInv_init [Inhabited T] (maxTaskNum : Nat) :
    (init maxTaskNum : ThreadPool n m T).FlagInv := nofun

section
variable (h : s.ElementInv)
include h

theorem ElementInv.goto (hsound : ∀ d, pc = .dequeue d → d.Sound s.queue.head s.queue.commit)
    (hempty : pc = .enterWait → ¬ s.queue.Holds) : (s.goto i pc).ElementInv where
  order := h.order
  sound i' d hd := by
    by_cases hi : i' = i
    · subst hi
      exact hsound d (by simpa using hd)
    · exact h.sound i' d (by simpa [hi] using hd)
  element hh i' hs := by
    rcases hs with hs | hs
    · exact h.element hh i' (.inl hs)
    · by_cases hi : i' = i
      · subst hi
        exact absurd hh (hempty (by simpa using hs))
      · exact h.element hh i' (.inr (by simpa [hi] using hs))

theorem ElementInv.take (hlt : s.queue.head + 1 < s.queue.commit) :
    ElementInv { s with queue := { s.queue with head := s.queue.head + 1 } } where
  order := hlt
  sound i pc hpc := (h.sound i pc hpc).mono (Nat.le_succ _) (Nat.le_refl _)
  element _ i hs := h.element (Nat.ne_of_lt hlt) i hs

theorem ElementInv.dequeue {pc : DequeuePc T}
    (hpc : s.workers i = .dequeue pc) (weak : Bool) : (s.work i weak).ElementInv := by
  have hsound := h.sound i pc hpc
  simp only [work, hpc]
  cases pc with
  | loadHead =>
    refine h.goto (fun d hd => ?_) nofun
    cases hd
    exact Nat.le_refl _
  | loadCommit oldHead =>
    have hle : oldHead ≤ s.queue.head := hsound
    have horder := h.order
    by_cases hempty : oldHead + 1 = s.queue.commit
    · -- the queue is empty at this load
      simp only [dequeueStep, if_pos hempty]
      refine h.goto nofun fun _ hh => hh ?_
      omega
    · simp only [dequeueStep, if_neg hempty]
      refine h.goto (fun d hd => ?_) nofun
      cases hd
      exact ⟨hle, by omega⟩
  | read oldHead =>
    refine h.goto (fun d hd => ?_) nofun
    cases hd
    exact hsound
  | casHead oldHead x =>
    by_cases hcas : s.queue.head = oldHead ∧ weak = false
    · simp only [dequeueStep, if_pos hcas]
      obtain ⟨rfl, -⟩ := hcas
      exact (h.take hsound.2).goto nofun nofun
    · simp only [dequeueStep, if_neg hcas]
      refine h.goto (fun d hd => ?_) nofun
      cases hd
      exact Nat.le_refl _
  | returned _ => exact absurd hsound id

theorem ElementInv.enterWait (hpc : s.workers i = .enterWait) :
    ({ s with cond := s.cond.wait i }.goto i .waiting).ElementInv := by
  have hw : ElementInv { s with cond := s.cond.wait i } := by
    refine ⟨h.order, h.sound, fun hh i' hs => ?_⟩
    rcases hs with hs | hs
    · rcases CondVar.mem_wait.1 hs with hs | rfl
      · exact h.element hh i' (.inl hs)
      · exact h.element hh i' (.inr hpc)
    · exact h.element hh i' (.inr hs)
  exact hw.goto nofun nofun

theorem ElementInv.work (i : Fin n) (weak : Bool) : (s.work i weak).ElementInv := by
  cases hpc : s.workers i with
  | dequeue pc => exact h.dequeue hpc weak
  | top =>
    simp only [ThreadPool.work, hpc]
    split <;> exact h.goto nofun nofun
  | readBreak =>
    simp only [ThreadPool.work, hpc]
    split
    · exact h.goto nofun nofun
    · refine h.goto (fun d hd => ?_) nofun
      cases hd
      trivial
  | enterWait =>
    simp only [ThreadPool.work, hpc]
    exact h.enterWait hpc
  | waiting =>
    simp only [ThreadPool.work, hpc]
    split
    · exact h
    · exact h.goto nofun nofun
  | working _ =>
    simp only [ThreadPool.work, hpc]
    exact h.goto nofun nofun
  | exited =>
    simp only [ThreadPool.work, hpc]
    exact h

end

theorem pastCheck_goto (h : (s.goto i pc).PastCheck i')
    (hpc : pc.checked = true → s.PastCheck i) : s.PastCheck i' := by
  rcases h with h | h
  · exact .inl h
  · by_cases hi : i' = i
    · subst hi
      exact hpc (by simpa [goto] using h)
    · exact .inr (by simpa [goto, hi] using h)

theorem pastCheck_work (hb : s.queue.breakAllWait = true)
    (h : (s.work i weak).PastCheck i') : s.PastCheck i' := by
  cases hpc : s.workers i with
  | top =>
    simp only [work, hpc] at h
    exact pastCheck_goto h (by split <;> nofun)
  | readBreak =>
    simp only [work, hpc, if_pos hb] at h
    exact pastCheck_goto h nofun
  | dequeue pc =>
    have hi : s.PastCheck i := .inr (by rw [hpc]; rfl)
    simp only [work, hpc] at h
    generalize s.queue.dequeueStep weak pc = r at h
    obtain ⟨pc', queue⟩ := r
    cases pc' with
    | returned x => cases x <;> exact pastCheck_goto (s := s) h fun _ => hi
    | loadHead | loadCommit _ | read _ | casHead _ _ => exact pastCheck_goto (s := s) h fun _ => hi
  | enterWait =>
    have hi : s.PastCheck i := .inr (by rw [hpc]; rfl)
    simp only [work, hpc] at h
    rcases pastCheck_goto h nofun with h | h
    · rcases CondVar.mem_wait.1 h with h | rfl
      · exact .inl h
      · exact hi
    · exact .inr h
  | waiting =>
    simp only [work, hpc] at h
    split at h
    · exact h
    · exact pastCheck_goto h nofun
  | working _ =>
    simp only [work, hpc] at h
    exact pastCheck_goto h nofun
  | exited =>
    simp only [work, hpc] at h
    exact h

variable (q : BoundedQueue T)

theorem enqueueStep_cases (weak : Bool) {pc : EnqueuePc T} (hpc : pc ≠ .notify) :
    (q.enqueueStep weak pc).2.head = q.head ∧
      ((q.enqueueStep weak pc).2.commit = q.commit ∨
        (q.enqueueStep weak pc).2.commit = q.commit + 1 ∧ (q.enqueueStep weak pc).1 = .notify) := by
  cases pc with
  | idle _ | loadTail _ | store _ _ => exact ⟨rfl, .inl rfl⟩
  | loadHead _ _ | casTail _ _ =>
    simp only [enqueueStep]
    split <;> exact ⟨rfl, .inl rfl⟩
  | casCommit oldTail =>
    simp only [enqueueStep]
    grind
  | notify => exact absurd rfl hpc

theorem enqueueStep_breakAllWait (weak : Bool) (pc : EnqueuePc T) :
    (q.enqueueStep weak pc).2.breakAllWait = q.breakAllWait := by
  cases pc with
  | idle _ | loadTail _ | store _ _ | notify => rfl
  | loadHead _ _ | casTail _ _ | casCommit _ =>
    simp only [enqueueStep]
    split <;> rfl

theorem ElementInv.produce (h : s.ElementInv) (hpc : s.producers j ≠ .notify)
    (weak : Bool) (woken : Nat) : (s.produce j weak woken).ElementInv := by
  have hcond : (s.produce j weak woken).cond = s.cond := by simp only [ThreadPool.produce]
  obtain ⟨hhead, hcommit⟩ := enqueueStep_cases s.queue weak hpc
  have hle : s.queue.commit ≤ (s.produce j weak woken).queue.commit := by
    rcases hcommit with hc | ⟨hc, -⟩
    · exact Nat.le_of_eq hc.symm
    · exact Nat.le_of_lt (by rw [ThreadPool.produce, hc]; exact Nat.lt_succ_self _)
  refine ⟨?_, fun i pc hi => ?_, fun hh i hs => ?_⟩
  · exact Nat.le_trans (by rw [ThreadPool.produce, hhead]; exact h.order) hle
  · exact (h.sound i pc hi).mono (Nat.le_of_eq hhead.symm) hle
  · rcases hcommit with hc | ⟨-, hn⟩
    · -- nothing has changed for the workers, and other producers are where they were
      have hh : s.queue.Holds := by
        have hh' : (s.queue.enqueueStep weak (s.producers j)).2.Holds := hh
        rwa [Holds, hhead, hc] at hh'
      have hs : s.Asleep i := by rwa [Asleep, hcond] at hs
      rcases h.element hh i hs with ⟨j', hj'⟩ | hbr
      · refine .inl ⟨j', ?_⟩
        have hne : j' ≠ j := by
          rintro rfl
          exact hpc hj'
        simpa [hne] using hj'
      · exact .inr hbr
    · exact .inl ⟨j, by simpa using hn⟩

theorem ElementInv.notify (h : s.ElementInv) (hpc : s.producers j = .notify)
    {woken : Nat} (hok : s.NotifiesInTime (.producer j weak woken)) :
    (s.produce j weak woken).ElementInv := by
  have hcond : (s.produce j weak woken).cond = s.cond.notifyOne woken := by
    simp only [ThreadPool.produce, hpc]
  have hqueue : (s.produce j weak woken).queue = s.queue := by
    simp only [ThreadPool.produce, hpc, enqueueStep]
  refine ⟨?_, fun i pc hi => ?_, fun hh i hs => ?_⟩
  · rw [hqueue]
    exact h.order
  · rw [hqueue]
    exact h.sound i pc hi
  · rw [hqueue] at hh
    rcases hok hpc with ⟨j', hne, hj'⟩ | hbr | hnone | ⟨hwin, hone⟩
    · refine .inl ⟨j', ?_⟩
      simpa [hne] using hj'
    · exact .inr hbr
    · exact absurd hh hnone
    · -- the only one that waits is woken, and nobody is about to wait
      rcases hs with hs | hs
      · rw [hcond, CondVar.waiting_notifyOne_eq_nil hone] at hs
        cases hs
      · exact absurd hs (hwin i)

theorem FlagInv.produce (h : s.FlagInv) (j : Fin m) (weak : Bool) (woken : Nat) :
    (s.produce j weak woken).FlagInv := by
  intro hb i hs
  have hb : s.queue.breakAllWait = true := by
    rw [← enqueueStep_breakAllWait s.queue weak (s.producers j)]
    exact hb
  refine h hb i ?_
  rcases hs with hs | hs
  · simp only [ThreadPool.produce] at hs
    split at hs
    · exact .inl (CondVar.mem_of_mem_notifyOne hs)
    · exact .inl hs
  · exact .inr hs

theorem ElementInv.start (h : s.ElementInv) (j : Fin m) (task : T) :
    (s.enqueue j task).ElementInv := by
  unfold ThreadPool.enqueue
  split
  · refine ⟨h.order, h.sound, fun hh i hs => ?_⟩
    rcases h.element hh i hs with ⟨j', hj'⟩ | hb
    · refine .inl ⟨j', ?_⟩
      grind
    · exact .inr hb
  · exact h

theorem not_pastCheck_notifyAll (hwin : ∀ i, (s.workers i).checked = false) (i : Fin n) :
    ¬ PastCheck { s with cond := s.cond.notifyAll, breakers, destructor } i := by
  rintro (hs | hs)
  · cases hs
  · exact absurd hs (by simp [hwin i])

theorem ElementInv.notifyAll (h : s.ElementInv) (hwin : ∀ i, (s.workers i).checked = false) :
    ElementInv { s with cond := s.cond.notifyAll, breakers, destructor } := by
  refine ⟨h.order, h.sound, fun _ i hs => ?_⟩
  exact absurd hs.pastCheck (not_pastCheck_notifyAll hwin i)

theorem destroy_cases (s : ThreadPool n m T) :
    (∃ stop destructor, s.destructor ≠ .breaking ∧ s.destroy = { s with stop, destructor }) ∨
      s.destroy = { s.setBreak with destructor := .breaking } ∨
        s.destructor = .breaking ∧
          s.destroy = { s with cond := s.cond.notifyAll, destructor := .joining 0 } := by
  unfold ThreadPool.destroy
  cases hd : s.destructor with
  | idle => exact .inl ⟨_, _, nofun, rfl⟩
  | stopped => exact .inr (.inl rfl)
  | breaking => exact .inr (.inr ⟨rfl, rfl⟩)
  | joining k =>
    refine .inl ?_
    dsimp only
    split
    · split
      all_goals grind
    · exact ⟨_, _, nofun, rfl⟩
  | done => exact .inl ⟨s.stop, s.destructor, nofun, rfl⟩

theorem breaking_of_ne {stop : Bool} (hd : s.destructor ≠ .breaking)
    (hb : s.Breaking) : Breaking { s with stop, destructor } :=
  .inl (hb.resolve_right hd)

theorem ElementInv.destroy (h : s.ElementInv) (hok : s.BreaksInTime .destructor) :
    s.destroy.ElementInv := by
  rcases s.destroy_cases with ⟨stop, destructor, hd, heq⟩ | heq | ⟨hd, heq⟩
  · rw [heq]
    exact ⟨h.order, h.sound, fun hh i hs => (h.element hh i hs).imp id (breaking_of_ne hd)⟩
  · rw [heq]
    exact ⟨h.order, h.sound, fun _ _ _ => .inr (.inr rfl)⟩
  · rw [heq]
    exact h.notifyAll (hok hd)

theorem FlagInv.destroy (h : s.FlagInv) (hok : s.BreaksInTime .destructor) : s.destroy.FlagInv := by
  rcases s.destroy_cases with ⟨stop, destructor, hd, heq⟩ | heq | ⟨hd, heq⟩
  · rw [heq]
    exact fun hb i hs => breaking_of_ne hd (h hb i hs)
  · rw [heq]
    exact fun _ _ _ => .inr rfl
  · rw [heq]
    exact fun _ i hs => absurd hs (not_pastCheck_notifyAll (hok hd) i)

theorem NotifiesInTime.breaksInTime {a : PoolStep n m T} (h : s.NotifiesInTime a) :
    s.BreaksInTime a := by
  cases a with
  | producer => trivial
  | enqueue | worker | breakAllWait | breakNotify | destructor => exact h

theorem ElementInv.step (h : s.ElementInv) (a : PoolStep n m T) (hok : s.NotifiesInTime a) :
    (s.step a).ElementInv := by
  cases a with
  | enqueue j task => exact h.start j task
  | producer j weak woken =>
    by_cases hpc : s.producers j = .notify
    · exact h.notify hpc hok
    · exact h.produce hpc weak woken
  | worker i weak => exact h.work i weak
  | breakAllWait => exact ⟨h.order, h.sound, fun _ _ _ => .inr (.inl (Nat.succ_pos _))⟩
  | breakNotify =>
    simp only [ThreadPool.step]
    split
    · exact h
    · next hb => exact h.notifyAll (hok.breaksInTime (Nat.pos_of_ne_zero hb))
  | destructor => exact h.destroy hok.breaksInTime

/-!
## The destructor can join the workers

With `stop_` and `break_all_wait_` set, a worker that runs on its own comes to its exit or into
`EmptyWait` (`settles`).
-/

open Function List

variable {t u : ThreadPool n m T} {k : Nat}

attribute [local simp] work dequeueStep

def Stopping (s : ThreadPool n m T) : Prop := s.stop = true ∧ s.queue.breakAllWait = true

def Settled (s : ThreadPool n m T) (i : Fin n) : Prop :=
  s.workers i = .exited ∨ s.workers i = .waiting

structure Moves (i : Fin n) (s t : ThreadPool n m T) : Prop where
  others : ∀ i', i' ≠ i → t.workers i' = s.workers i'
  stop : t.stop = s.stop
  breakAllWait : t.queue.breakAllWait = s.queue.breakAllWait
  breakers : t.breakers = s.breakers
  destructor : t.destructor = s.destructor
  flag : s.FlagInv → t.FlagInv

theorem Moves.refl (i : Fin n) (s : ThreadPool n m T) : Moves i s s :=
  ⟨fun _ _ => rfl, rfl, rfl, rfl, rfl, id⟩

theorem Moves.trans (h : Moves i s t) (h' : Moves i t u) : Moves i s u where
  others i' hi := (h'.others i' hi).trans (h.others i' hi)
  stop := h'.stop.trans h.stop
  breakAllWait := h'.breakAllWait.trans h.breakAllWait
  breakers := h'.breakers.trans h.breakers
  destructor := h'.destructor.trans h.destructor
  flag := h'.flag ∘ h.flag

theorem Moves.stopping (h : Moves i s t) (hs : s.Stopping) : t.Stopping :=
  ⟨h.stop.trans hs.1, h.breakAllWait.trans hs.2⟩

theorem dequeueStep_breakAllWait (weak : Bool) (pc : DequeuePc T) :
    (q.dequeueStep weak pc).2.breakAllWait = q.breakAllWait := by
  cases pc with
  | loadHead | read _ | returned _ => rfl
  | loadCommit _ | casHead _ _ =>
    simp only [dequeueStep]
    split <;> rfl

theorem work_frame (s : ThreadPool n m T) (i : Fin n) (weak : Bool) :
    ∃ queue cond pc, queue.breakAllWait = s.queue.breakAllWait ∧
      s.work i weak = { s with queue, cond }.goto i pc := by
  have hself : s = { s with queue := s.queue, cond := s.cond }.goto i (s.workers i) := by simp
  cases hpc : s.workers i with
  | top | readBreak | enterWait | working _ =>
    simp only [work, hpc]
    exact ⟨s.queue, _, _, rfl, rfl⟩
  | dequeue pc =>
    have hq := dequeueStep_breakAllWait s.queue weak pc
    simp only [work, hpc]
    generalize s.queue.dequeueStep weak pc = r at hq ⊢
    obtain ⟨pc', queue⟩ := r
    cases pc' with
    | returned x => cases x <;> exact ⟨queue, s.cond, _, hq, rfl⟩
    | loadHead | loadCommit _ | read _ | casHead _ _ => exact ⟨queue, s.cond, _, hq, rfl⟩
  | waiting =>
    simp only [work, hpc]
    split
    · exact ⟨_, _, _, rfl, hself⟩
    · exact ⟨s.queue, s.cond, _, rfl, rfl⟩
  | exited =>
    simp only [work, hpc]
    exact ⟨_, _, _, rfl, hself⟩

theorem work_moves (s : ThreadPool n m T) (i : Fin n) (weak : Bool) :
    Moves i s (s.work i weak) := by
  have hpast : s.queue.breakAllWait = true → ∀ i', (s.work i weak).PastCheck i' →
      s.PastCheck i' := fun hb i' => pastCheck_work hb
  obtain ⟨queue, cond, pc, hb, heq⟩ := s.work_frame i weak
  rw [heq] at hpast ⊢
  refine ⟨fun i' hi => update_of_ne hi .., rfl, hb, rfl, rfl, fun h hb' i' hs => ?_⟩
  have hflag : s.queue.breakAllWait = true := hb.symm.trans hb'
  exact h hflag i' (hpast hflag i' hs)

def Settles (s : ThreadPool n m T) (i : Fin n) : Prop :=
  ∃ t, Reaches step s t ∧ Moves i s t ∧ t.Settled i

theorem settles_of_settled (h : s.Settled i) : s.Settles i := ⟨s, .refl s, .refl i s, h⟩

theorem Settles.work (h : (s.work i false).Settles i) : s.Settles i := by
  obtain ⟨t, hr, hm, ht⟩ := h
  exact ⟨t, .head (.worker i false) hr, (s.work_moves i false).trans hm, ht⟩

section
variable (hs : s.Stopping) {oldHead : Nat}
include hs

theorem settles_top (hpc : s.workers i = .top) : s.Settles i := by
  apply Settles.work
  apply settles_of_settled
  left
  simp [hpc, hs.1]

theorem settles_working {task : T} (hpc : s.workers i = .working task) : s.Settles i := by
  apply Settles.work
  apply settles_top ((s.work_moves i false).stopping hs)
  simp [hpc]

theorem settles_readBreak (hpc : s.workers i = .readBreak) : s.Settles i := by
  apply Settles.work
  apply settles_top ((s.work_moves i false).stopping hs)
  simp [hpc, hs.2]

omit hs in
theorem settles_enterWait (hpc : s.workers i = .enterWait) : s.Settles i := by
  apply Settles.work
  apply settles_of_settled
  right
  simp [hpc]

theorem settles_casHead_fresh {x : T} (hpc : s.workers i = .dequeue (.casHead s.queue.head x)) :
    s.Settles i := by
  apply Settles.work
  apply settles_working ((s.work_moves i false).stopping hs)
  simp only [work, hpc, dequeueStep, and_self, if_true]
  exact update_self ..

theorem settles_read_fresh (hpc : s.workers i = .dequeue (.read s.queue.head)) : s.Settles i := by
  apply Settles.work
  apply settles_casHead_fresh ((s.work_moves i false).stopping hs)
  simp only [work, hpc, dequeueStep]
  exact update_self ..

theorem settles_loadCommit_fresh (hpc : s.workers i = .dequeue (.loadCommit s.queue.head)) :
    s.Settles i := by
  apply Settles.work
  by_cases hempty : s.queue.head + 1 = s.queue.commit
  · apply settles_enterWait
    simp [hpc, hempty]
  · apply settles_read_fresh ((s.work_moves i false).stopping hs)
    simp [hpc, hempty]

theorem settles_casHead {x : T}
    (hpc : s.workers i = .dequeue (.casHead oldHead x)) : s.Settles i := by
  by_cases hfresh : s.queue.head = oldHead
  · subst hfresh
    exact settles_casHead_fresh hs hpc
  · apply Settles.work
    apply settles_loadCommit_fresh ((s.work_moves i false).stopping hs)
    simp [hpc, hfresh]

theorem settles_read (hpc : s.workers i = .dequeue (.read oldHead)) : s.Settles i := by
  apply Settles.work
  apply settles_casHead ((s.work_moves i false).stopping hs)
  simp only [work, hpc, dequeueStep]
  exact update_self ..

theorem settles_loadCommit (hpc : s.workers i = .dequeue (.loadCommit oldHead)) : s.Settles i := by
  apply Settles.work
  by_cases hempty : oldHead + 1 = s.queue.commit
  · apply settles_enterWait
    simp [hpc, hempty]
  · apply settles_read ((s.work_moves i false).stopping hs)
    simp only [work, hpc, dequeueStep, if_neg hempty]
    exact update_self ..

theorem settles (i : Fin n) : s.Settles i := by
  cases hpc : s.workers i with
  | top => exact settles_top hs hpc
  | readBreak => exact settles_readBreak hs hpc
  | enterWait => exact settles_enterWait hpc
  | waiting => exact settles_of_settled (.inr hpc)
  | working task => exact settles_working hs hpc
  | exited => exact settles_of_settled (.inl hpc)
  | dequeue pc =>
    cases pc with
    | loadCommit oldHead => exact settles_loadCommit hs hpc
    | read oldHead => exact settles_read hs hpc
    | casHead oldHead x => exact settles_casHead hs hpc
    | loadHead =>
      apply Settles.work
      apply settles_loadCommit ((s.work_moves i false).stopping hs)
      simp only [work, hpc, dequeueStep]
      exact update_self ..
    | returned x =>
      apply Settles.work
      cases x with
      | none =>
        apply settles_enterWait
        simp [hpc]
      | some task =>
        apply settles_working ((s.work_moves i false).stopping hs)
        simp only [work, hpc, dequeueStep]
        exact update_self ..

theorem settle_all : ∃ t, Reaches step s t ∧
    (t.Stopping ∧ t.destructor = s.destructor ∧ (s.FlagInv → t.FlagInv)) ∧ ∀ i, t.Settled i := by
  obtain ⟨t, hr, hI, hall⟩ := Reaches.forall_mem step (D := Settled)
    (I := fun t => t.Stopping ∧ t.destructor = s.destructor ∧ (s.FlagInv → t.FlagInv))
    (fun t i ht => by
      obtain ⟨u, hr, hm, hu⟩ := settles ht.1 i
      refine ⟨u, hr, ⟨hm.stopping ht.1, hm.destructor.trans ht.2.1, hm.flag ∘ ht.2.2⟩, hu, ?_⟩
      intro i' hi'
      by_cases hi : i' = i
      · subst hi
        exact hu
      · rwa [Settled, hm.others i' hi])
    (List.finRange n) ⟨hs, rfl, id⟩
  exact ⟨t, hr, hI, fun i => hall i (mem_finRange i)⟩

theorem exit_one (hw : s.cond.waiting = []) (hpc : s.workers i = .waiting) :
    Reaches step s (s.goto i .exited) := by
  have hgoto : ∀ pc pc' : WorkerPc T, (s.goto i pc).goto i pc' = s.goto i pc' := by simp
  have hat : ∀ pc : WorkerPc T, (s.goto i pc).workers i = pc := fun pc => update_self ..
  have h1 : s.step (.worker i false) = s.goto i .readBreak := by simp [step, hpc, hw]
  have h2 : (s.goto i .readBreak).step (.worker i false) = s.goto i .top := by
    have hb : (s.goto i .readBreak).queue.breakAllWait = true := hs.2
    simp only [step, work, hat, if_pos hb, hgoto]
  have h3 : (s.goto i .top).step (.worker i false) = s.goto i .exited := by
    have hb : (s.goto i .top).stop = true := hs.1
    simp only [step, work, hat, if_pos hb, hgoto]
  refine ⟨[.worker i false, .worker i false, .worker i false], ?_⟩
  simp only [foldl_cons, foldl_nil, h1, h2, h3]

theorem exit_all (hw : s.cond.waiting = []) (hset : ∀ i, s.Settled i) :
    ∃ t, Reaches step s t ∧ t.destructor = s.destructor ∧ ∀ i, t.workers i = .exited := by
  obtain ⟨t, hr, hI, hall⟩ := Reaches.forall_mem step (D := fun t i => t.workers i = .exited)
    (I := fun t => t.Stopping ∧ t.destructor = s.destructor ∧ t.cond.waiting = [] ∧
      ∀ i, t.Settled i)
    (fun t i ht => by
      obtain ⟨hst, hd, hw, hset⟩ := ht
      rcases hset i with hi | hi
      · exact ⟨t, .refl t, ⟨hst, hd, hw, hset⟩, hi, fun _ => id⟩
      · have hat : ∀ i', (t.goto i .exited).workers i' = .exited ∨
            (t.goto i .exited).workers i' = t.workers i' := by
          intro i'
          by_cases hii : i' = i
          · left
            rw [hii]
            exact update_self ..
          · right
            exact update_of_ne hii ..
        refine ⟨t.goto i .exited, exit_one hst hw hi, ⟨hst, hd, hw, fun i' => ?_⟩,
          update_self .., fun i' hi' => ?_⟩
        · rcases hat i' with h | h
          · exact .inl h
          · rw [Settled, h]
            exact hset i'
        · rcases hat i' with h | h
          · exact h
          · rwa [h])
    (List.finRange n) ⟨hs, rfl, hw, hset⟩
  exact ⟨t, hr, hI.2.1, fun i => hall i (mem_finRange i)⟩

end

theorem CanFinish.reaches (h : t.CanFinish) (hr : Reaches step s t) : s.CanFinish := by
  obtain ⟨more, hm⟩ := h
  obtain ⟨l, rfl⟩ := hr
  exact ⟨l ++ more, by rwa [foldl_append]⟩

theorem CanFinish.head (a : PoolStep n m T) (h : (s.step a).CanFinish) : s.CanFinish :=
  h.reaches ⟨[a], rfl⟩

theorem canFinish_of_exited (hd : s.destructor = .joining k)
    (hex : ∀ i, s.workers i = .exited) : s.CanFinish := by
  induction hk : n - k generalizing s k with
  | zero =>
    refine ⟨[.destructor], ?_⟩
    simp only [foldl_cons, foldl_nil, step, destroy, hd]
    rw [dif_neg (by omega)]
  | succ r ih =>
    have hlt : k < n := by omega
    apply CanFinish.head .destructor
    simp only [step, destroy, hd, dif_pos hlt, hex]
    exact ih rfl hex (by omega)

theorem canFinish_of_settled (hs : s.Stopping) (hd : s.destructor = .joining k)
    (hw : s.cond.waiting = []) (hset : ∀ i, s.Settled i) : s.CanFinish := by
  obtain ⟨t, hr, hdt, hex⟩ := exit_all hs hw hset
  exact (canFinish_of_exited (hdt.trans hd) hex).reaches hr

theorem FlagInv.canFinish_joining (h : s.FlagInv) (hs : s.Stopping)
    (hd : s.destructor = .joining k) : s.CanFinish := by
  obtain ⟨t, hr, ⟨hst, hdt, hflag⟩, hset⟩ := settle_all hs
  rw [hd] at hdt
  apply CanFinish.reaches _ hr
  by_cases hb : t.breakers = 0
  · -- no `notify_all` is to come, so nobody waits
    have hw : t.cond.waiting = [] := by
      apply eq_nil_iff_forall_not_mem.2
      intro i hi
      rcases hflag h hst.2 i (.inl hi) with hbr | hbr
      all_goals grind
    exact canFinish_of_settled hst hdt hw hset
  · apply CanFinish.head .breakNotify
    simp only [step, if_neg hb]
    exact canFinish_of_settled hst hdt rfl hset

theorem canFinish_breaking (hs : s.Stopping) (hd : s.destructor = .breaking) : s.CanFinish := by
  obtain ⟨t, hr, ⟨hst, hdt, -⟩, hset⟩ := settle_all hs
  rw [hd] at hdt
  apply CanFinish.reaches _ hr
  apply CanFinish.head .destructor
  simp only [step, destroy, hdt]
  exact canFinish_of_settled hst rfl rfl hset

theorem canFinish_stopped (hs : s.stop = true) (hd : s.destructor = .stopped) : s.CanFinish := by
  apply CanFinish.head .destructor
  simp only [step, destroy, hd]
  exact canFinish_breaking ⟨hs, rfl⟩ rfl

theorem canFinish_idle (hd : s.destructor = .idle) : s.CanFinish := by
  apply CanFinish.head .destructor
  simp only [step, destroy, hd]
  split
  · exact ⟨[], rfl⟩
  · exact canFinish_stopped rfl rfl

def AtDestructor (s : ThreadPool n m T) : Prop :=
  match s.destructor with
  | .idle | .done => True
  | .stopped => s.stop = true
  | .breaking | .joining _ => s.Stopping

theorem FlagInv.canFinish (h : s.FlagInv) (hat : s.AtDestructor) : s.CanFinish := by
  unfold AtDestructor at hat
  cases hd : s.destructor with
  | idle => exact canFinish_idle hd
  | stopped =>
    rw [hd] at hat
    exact canFinish_stopped hat hd
  | breaking =>
    rw [hd] at hat
    exact canFinish_breaking hat hd
  | joining k =>
    rw [hd] at hat
    exact h.canFinish_joining hat hd
  | done => exact ⟨[], hd⟩

theorem AtDestructor.mono (h : s.AtDestructor) (hd : t.destructor = s.destructor)
    (hs : t.stop = s.stop) (hb : s.queue.breakAllWait = true → t.queue.breakAllWait = true) :
    t.AtDestructor := by
  unfold AtDestructor at h ⊢
  rw [hd]
  cases hpc : s.destructor with
  | idle | done => trivial
  | stopped =>
    rw [hpc] at h
    exact hs.trans h
  | breaking | joining _ =>
    rw [hpc] at h
    exact ⟨hs.trans h.1, hb h.2⟩

theorem AtDestructor.destroy (h : s.AtDestructor) : s.destroy.AtDestructor := by
  have h' := h
  unfold AtDestructor at h
  unfold ThreadPool.destroy
  cases hd : s.destructor with
  | idle =>
    dsimp only
    split
    · trivial
    · exact rfl
  | stopped =>
    rw [hd] at h
    exact ⟨h, rfl⟩
  | breaking =>
    rw [hd] at h
    exact h
  | joining k =>
    rw [hd] at h
    dsimp only
    split
    · split
      · exact h
      · exact h'
    · trivial
  | done => exact h'

theorem AtDestructor.step (h : s.AtDestructor) (a : PoolStep n m T) : (s.step a).AtDestructor := by
  cases a with
  | enqueue j task =>
    refine h.mono ?_ ?_ fun hb => ?_
    all_goals
      simp only [ThreadPool.step, enqueue]
      split
      all_goals first | rfl | exact hb
  | producer j weak woken =>
    exact h.mono rfl rfl (enqueueStep_breakAllWait s.queue weak (s.producers j)).trans
  | worker i weak =>
    have hm := s.work_moves i weak
    exact h.mono hm.destructor hm.stop hm.breakAllWait.trans
  | breakAllWait => exact h.mono rfl rfl fun _ => rfl
  | breakNotify =>
    simp only [ThreadPool.step]
    split
    · exact h
    · exact h.mono rfl rfl id
  | destructor => exact h.destroy

theorem FlagInv.step (h : s.FlagInv) (a : PoolStep n m T) (hok : s.BreaksInTime a) :
    (s.step a).FlagInv := by
  cases a with
  | enqueue j task =>
    simp only [ThreadPool.step, enqueue]
    split <;> exact h
  | producer j weak woken => exact h.produce j weak woken
  | worker i weak => exact (s.work_moves i weak).flag h
  | breakAllWait => exact fun _ _ _ => .inl (Nat.succ_pos _)
  | breakNotify =>
    simp only [ThreadPool.step]
    split
    · exact h
    · next hb =>
      exact fun _ i hs => absurd hs (not_pastCheck_notifyAll (hok (Nat.pos_of_ne_zero hb)) i)
  | destructor => exact h.destroy hok

theorem not_lost (h : s.ElementInv) (hf : s.FlagInv) : ¬ s.Lost := by
  rintro ⟨hw, hwhy, hp, hb⟩
  obtain ⟨i, hi⟩ := exists_mem_of_ne_nil _ hw
  rcases hwhy with hh | hbreak
  · rcases h.element hh i (.inl hi) with ⟨j, hj⟩ | hb'
    · exact hp j hj
    · exact hb hb'
  · exact hb (hf hbreak i (.inl hi))

/-- **No wakeup is lost in a run whose notifications find no consumer between its check and its wait
and leave none waiting for an element; and in a run whose `notify_all`s find none, the destructor
can return from every state.** -/
theorem wakes_and_joins [Inhabited T] (maxTaskNum : Nat) (steps : List (PoolStep n m T)) :
    (Along step NotifiesInTime (init maxTaskNum) steps →
      Always step (fun s => ¬ s.Lost) (init maxTaskNum) steps) ∧
    (Along step BreaksInTime (init maxTaskNum) steps →
      Always step CanFinish (init maxTaskNum) steps) := by
  constructor
  · intro h
    have hinv := h.always (P := fun s => s.ElementInv ∧ s.FlagInv)
      ⟨elementInv_init maxTaskNum, flagInv_init maxTaskNum⟩
      fun s a hs hok => ⟨hs.1.step a hok, hs.2.step a hok.breaksInTime⟩
    exact hinv.imp fun s hs => not_lost hs.1 hs.2
  · intro h
    have hinv := h.always (P := fun s => s.FlagInv ∧ s.AtDestructor)
      ⟨flagInv_init maxTaskNum, trivial⟩ fun s a hs hok => ⟨hs.1.step a hok, hs.2.step a⟩
    exact hinv.imp fun s hs => hs.1.canFinish hs.2

def workerSteps (k : Nat) : List (PoolStep 1 1 Nat) := List.replicate k (.worker 0 false)
def producerSteps (k : Nat) : List (PoolStep 1 1 Nat) := List.replicate k (.producer 0 false 0)
def destructorSteps (k : Nat) : List (PoolStep 1 1 Nat) := List.replicate k .destructor

def onePoolRun : List (PoolStep 1 1 Nat) :=
  workerSteps 5 ++ [.enqueue 0 7] ++ producerSteps 6 ++ workerSteps 12 ++ destructorSteps 3 ++
    workerSteps 3 ++ destructorSteps 2

theorem wakes_and_joins_one :
    Always step (fun s => ¬ s.Lost) (init 2) onePoolRun ∧
      Always step CanFinish (init 2) onePoolRun :=
  ⟨(wakes_and_joins 2 onePoolRun).1 (by decide +kernel),
    (wakes_and_joins 2 onePoolRun).2 (by decide +kernel)⟩

/-- **The wakeups that are lost**: a worker has found the queue empty; a task is enqueued and
notified, or the destructor sets the flags and notifies all; then the worker waits. -/
theorem not_wakes_early_notify :
    ¬ Always step (fun s => ¬ s.Lost) (init 2)
      (workerSteps 4 ++ [.enqueue 0 7] ++ producerSteps 6 ++ workerSteps 1) ∧
    ¬ Always step (fun s => ¬ s.Lost) (init 2)
      (workerSteps 4 ++ destructorSteps 3 ++ workerSteps 1) := by
  constructor <;> decide +kernel

end ThreadPool

end Base
