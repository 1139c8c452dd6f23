import CyberRT.Io.Poller
import CyberRT.Lib.Run

/-!
# The interest set and the requests

Between two `HandleChanges` a descriptor without a control operation has the same events in the
interest set as in the requests, and the operation of one that has one says what the requests say
(`Recorded`).
-/

namespace Io

open Function Lib

namespace Poller

variable {p : Poller}

structure Recorded (p : Poller) : Prop where
  idle : ∀ fd, p.ctrlParams fd = none →
    (p.interest fd).map (·.events) = (p.requests fd).map (·.events)
  changed : ∀ fd param, p.ctrlParams fd = some param →
    (p.requests fd).map (·.events) = if param.operation = .del then none else some param.events

theorem recorded_init (pipeFd : Int) : Recorded (init pipeFd) where
  idle fd h := by
    by_cases hfd : fd = pipeFd
    · simp [init, hfd] at h
    · simp [init, hfd]
  changed fd param h := by
    by_cases hfd : fd = pipeFd
    · subst hfd
      simp only [init, update_self, Option.some.injEq] at h ⊢
      subst h
      rfl
    · simp [init, hfd] at h

section
variable (h : Recorded p)
include h

theorem Recorded.change {fd : Int} {req : Option PollRequest}
    {param : PollCtrlParam} (hreq : req.map (·.events) =
      if param.operation = .del then none else some param.events) :
    Recorded { p with
      requests := update p.requests fd req
      ctrlParams := update p.ctrlParams fd (some param) } := by
  constructor
  · intro fd' hnone
    by_cases hfd : fd' = fd
    · simp [hfd] at hnone
    · simp only [update_of_ne hfd] at hnone ⊢
      exact h.idle fd' hnone
  · intro fd' param' hsome
    by_cases hfd : fd' = fd
    · grind
    · simp only [update_of_ne hfd] at hsome ⊢
      exact h.changed fd' param' hsome

theorem Recorded.register (req : PollRequest) : Recorded (p.register req).2 := by
  unfold Poller.register
  split
  · exact h
  · split
    · exact h
    · refine h.change ?_
      split <;> rfl

theorem Recorded.unregister (req : PollRequest) : Recorded (p.unregister req).2 := by
  unfold Poller.unregister
  split
  · exact h
  · split
    · exact h
    · split
      · exact h
      · exact h.change rfl

/-- **One `HandleChanges`**: it brings the interest set in line exactly when the operations that are
left do not fail where they matter. -/
theorem Recorded.inSync_iff : p.handleChanges.InSync ↔ p.Composes .handleChanges := by
  have hone : ∀ fd, ((p.handleChanges.interest fd).map (·.events) =
      (p.requests fd).map (·.events)) ↔ ∀ param, p.ctrlParams fd = some param →
        (param.operation = .add → ∀ i, p.interest fd = some i → i.events = param.events) ∧
          (param.operation = .mod → (p.interest fd).isSome) := by
    intro fd
    cases hc : p.ctrlParams fd with
    | none =>
      simp only [handleChanges, hc]
      exact iff_of_true (h.idle fd hc) nofun
    | some param =>
      simp only [handleChanges, hc, h.changed fd param hc, Option.some.injEq, forall_eq']
      obtain ⟨operation, fd', events⟩ := param
      cases operation <;> cases hi : p.interest fd <;> simp [epollCtl]
  exact forall_congr' hone

end

theorem Recorded.handleChanges (hs : p.handleChanges.InSync) : Recorded p.handleChanges :=
  ⟨fun fd _ => hs fd, nofun⟩

/-- **The interest set follows the requests exactly in the runs in which every `HandleChanges` finds
no ADD for a descriptor that is there with other events, and no MOD for one that is not there.** -/
theorem in_sync_iff (pipeFd : Int) (ops : List PollerOp) :
    Along step Syncs (init pipeFd) ops ↔ Along step Composes (init pipeFd) ops := by
  refine along_congr (P := Recorded) (recorded_init pipeFd) (fun p op h => ?_) fun p op h hs => ?_
  · cases op with
    | handleChanges => exact h.inSync_iff
    | register _ | unregister _ => exact Iff.rfl
  · cases op with
    | register req => exact h.register req
    | unregister req => exact h.unregister req
    | handleChanges => exact Recorded.handleChanges hs

/-- A descriptor that is registered twice before its ADD is handled never gets into the interest
set. -/
theorem not_in_sync_registered_twice : ¬ Along step Syncs (init 3)
    [.handleChanges, .register ⟨5, epollIn, -1, true⟩, .register ⟨5, epollOut, -1, true⟩,
      .handleChanges] := by
  rintro ⟨-, -, -, h, -⟩
  exact absurd (h 5) (by decide +kernel)

end Poller

/-!
## A routine that waits for an event is woken

The descriptor is *fresh* until the first `Register`; then its ADD is to be handled, and there is no
second `Register` until it is; from then on it is *kept* in the requests and in the interest set,
and the changes are MODs, which arm it again (`Phase`).
-/

open Croutine

theorem PollRequest.tick_cases {req : PollRequest} (h : 0 ≤ req.timeoutMs) (intervalMs : Int) :
    (req.tick intervalMs).2 = true ∨ 0 ≤ (req.tick intervalMs).1.timeoutMs := by
  unfold tick
  grind

namespace PollSys

variable {s : PollSys}

def AtPc (s : PollSys) : Prop :=
  match s.pc with
  | .outside _ => s.routine.state ≠ .ioWait
  | .registering =>
    s.handler.request.fd = s.handler.fd ∧ s.handler.isBlocking = true ∧
      s.routine.holder = .running ∧ s.routine.state ≠ .ioWait
  | .registered => s.handler.isBlocking = true ∧ s.routine.holder = .running
  | .waiting => s.handler.isBlocking = true ∧ s.routine.holder = .running
  | .swapped =>
    s.handler.isBlocking = true ∧ (s.routine.holder = .running → s.routine.state ≠ .ioWait)

def Waits (s : PollSys) : Prop := s.pc = .registered ∨ s.routine.state = .ioWait

def Quiet (s : PollSys) : Prop := ¬ s.routine.Pending ∧ s.pollPc.delivers = false

def Wakes (s : PollSys) : Prop :=
  s.routine.Pending ∨ s.Registered ∨ s.pollPc.delivers = true

inductive Phase (s : PollSys) : Prop
  | fresh (hreq : s.poller.requests s.handler.fd = none)
      (hctrl : s.poller.ctrlParams s.handler.fd = none)
      (hint : s.poller.interest s.handler.fd = none) (hq : s.Quiet) (hw : ¬ s.Waits)
  | adding {req : PollRequest} {events : UInt32}
      (hreq : s.poller.requests s.handler.fd = some req)
      (hctrl : s.poller.ctrlParams s.handler.fd = some ⟨.add, s.handler.fd, events⟩)
      (hint : s.poller.interest s.handler.fd = none) (hq : s.Quiet) (hw : s.Waits)
  | kept {req : PollRequest} {i : Interest}
      (hreq : s.poller.requests s.handler.fd = some req)
      (hctrl : ∀ param, s.poller.ctrlParams s.handler.fd = some param → param.operation = .mod)
      (hint : s.poller.interest s.handler.fd = some i) (hw : s.Waits → s.Wakes)

structure Inv (s : PollSys) : Prop where
  atPc : s.AtPc
  phase : s.Phase
  notifying : ∀ pc, s.pollPc = .notifying pc → s.pc ≠ .registered

theorem AtPc.isBlocking (h : s.AtPc) (hw : s.Waits) : s.handler.isBlocking = true := by
  unfold AtPc at h
  rcases hw with hw | hw
  all_goals grind

theorem Phase.congr {s' : PollSys} (h : s.Phase) (hfd : s'.handler.fd = s.handler.fd)
    (hp : s'.poller = s.poller) (hpc : s'.pollPc.delivers = s.pollPc.delivers)
    (hr : s'.routine.Pending ↔ s.routine.Pending) (hw : s'.Waits ↔ s.Waits) : s'.Phase := by
  have hq : s'.Quiet ↔ s.Quiet := by rw [Quiet, Quiet, hr, hpc]
  have hg : s'.Wakes ↔ s.Wakes := by rw [Wakes, Wakes, Registered, Registered, hr, hpc, hp, hfd]
  cases h with
  | fresh hreq hctrl hint hq' hw' =>
    rw [← hp, ← hfd] at hreq hctrl hint
    exact .fresh hreq hctrl hint (hq.2 hq') (mt hw.1 hw')
  | adding hreq hctrl hint hq' hw' =>
    rw [← hp, ← hfd] at hreq hctrl hint
    exact .adding hreq hctrl hint (hq.2 hq') (hw.2 hw')
  | kept hreq hctrl hint hw' =>
    rw [← hp, ← hfd] at hreq hctrl hint
    exact .kept hreq hctrl hint fun h => hg.2 (hw' (hw.1 h))

theorem block_cases (s : PollSys) (timeoutMs : Int) (isRead : Bool) :
    s.block timeoutMs isRead = s ∨
      (∃ result, s.pc = .outside result) ∧ s.routine.holder = .running ∧
        (s.block timeoutMs isRead = { s with pc := .outside (some false) } ∨
          s.block timeoutMs isRead =
            { s with
              handler := { s.handler with isBlocking := true }.fill timeoutMs isRead
              pc := .registering }) := by
  unfold block
  grind

theorem Inv.block (h : s.Inv) (timeoutMs : Int) (isRead : Bool) :
    (s.block timeoutMs isRead).Inv := by
  rcases s.block_cases timeoutMs isRead with heq | ⟨⟨result, hpc⟩, hr, hcase⟩
  · rwa [heq]
  · obtain ⟨hat, hphase, -⟩ := h
    rw [AtPc, hpc] at hat
    rcases hcase with heq | heq
    · rw [heq]
      exact ⟨hat, hphase.congr rfl rfl rfl Iff.rfl (by simp [Waits, hpc]), fun _ _ => nofun⟩
    · rw [heq]
      exact ⟨⟨rfl, rfl, hr, hat⟩, hphase.congr rfl rfl rfl Iff.rfl (by simp [Waits, hpc]),
        fun _ _ => nofun⟩

theorem Phase.register (h : s.Phase) (hpc : s.pc = .registering) (hat : s.AtPc) {poller : Poller}
    (hr : s.poller.register s.handler.request = (true, poller)) :
    ({ s with poller, pc := .registered } : PollSys).Phase := by
  rw [AtPc, hpc] at hat
  obtain ⟨hfd, -, -, hstate⟩ := hat
  have hw : ¬ s.Waits := by
    rintro (hw | hw)
    all_goals grind
  unfold Poller.register at hr
  split at hr
  · cases hr
  · split at hr
    · cases hr
    · simp only [hfd, Prod.mk.injEq, true_and] at hr
      subst hr
      cases h with
      | fresh hreq hctrl hint hq _ =>
        simp only [hreq, Option.isNone_none, if_true]
        exact .adding (update_self ..) (update_self ..) hint hq (.inl rfl)
      | adding _ _ _ _ hw' => exact absurd hw' hw
      | kept hreq hctrl hint _ =>
        refine .kept (update_self ..) (fun param hparam => ?_) hint fun _ =>
          .inr (.inl (.inl (by simp)))
        grind

theorem Inv.runRoutine (h : s.Inv) : s.runRoutine.Inv := by
  obtain ⟨hat, hphase, hnot⟩ := h
  unfold PollSys.runRoutine
  split
  · exact ⟨hat, hphase, hnot⟩
  · next hr =>
    have hr : s.routine.holder = .running := Decidable.not_not.1 hr
    cases hpc : s.pc with
    | outside _ => exact ⟨hat, hphase, hnot⟩
    | registering =>
      dsimp only
      split
      · exact ⟨hat, hphase, hnot⟩
      · next hcb =>
        split
        · next poller hreg =>
          refine ⟨?_, hphase.register hpc hat hreg, fun pc hn => ?_⟩
          · rw [AtPc, hpc] at hat
            exact ⟨hat.2.1, hr⟩
          · -- `Register` has waited for the callback
            rw [hn] at hcb
            exact absurd rfl hcb
        · next poller hreg =>
          have hp : poller = s.poller := by
            unfold Poller.register at hreg
            grind
          refine ⟨?_, hphase.congr rfl hp rfl Iff.rfl (by simp [Waits, hpc]), fun _ _ => by simp⟩
          rw [AtPc, hpc] at hat
          exact hat.2.2.2
    | registered =>
      refine ⟨?_, hphase.congr rfl rfl rfl Iff.rfl ?_, fun _ _ => by simp⟩
      · rw [AtPc, hpc] at hat
        exact hat
      · simp [Waits, hpc, CRoutine.setState]
    | waiting =>
      refine ⟨?_, hphase.congr rfl rfl rfl ?_ ?_, fun _ _ => by simp⟩
      · rw [AtPc, hpc] at hat
        exact ⟨hat.1, fun h => by cases h⟩
      · simp [CRoutine.Pending, CRoutine.swapOut, hr]
      · simp [Waits, hpc, CRoutine.swapOut]
    | swapped =>
      refine ⟨?_, hphase.congr rfl rfl rfl Iff.rfl (by simp [Waits, hpc]), fun _ _ => by simp⟩
      rw [AtPc, hpc] at hat
      exact hat.2 hr

theorem AtPc.processor (h : s.AtPc) :
    ({ s with routine := s.routine.processor } : PollSys).AtPc := by
  have hstate : s.routine.state ≠ .ioWait → s.routine.processor.state ≠ .ioWait :=
    CRoutine.processor_state_ne (by decide)
  unfold AtPc at h ⊢
  cases hpc : s.pc with
  | outside _ =>
    rw [hpc] at h
    exact hstate h
  | registering =>
    rw [hpc] at h
    dsimp only
    rw [CRoutine.processor_running h.2.2.1]
    exact h
  | registered | waiting =>
    rw [hpc] at h
    dsimp only
    rw [CRoutine.processor_running h.2]
    exact h
  | swapped =>
    rw [hpc] at h
    refine ⟨h.1, fun hr => ?_⟩
    by_cases hold : s.routine.holder = .running
    · exact hstate (h.2 hold)
    · rw [CRoutine.ready_of_resumed hold hr]
      nofun

theorem Phase.processor (h : s.Phase) (hat : s.AtPc) :
    ({ s with routine := s.routine.processor } : PollSys).Phase := by
  have hquiet : ¬ s.routine.Pending →
      ({ s with routine := s.routine.processor } : PollSys).Phase := by
    intro hp
    obtain ⟨hp', hstate⟩ := CRoutine.processor_of_not_pending hp
    exact h.congr rfl rfl rfl (iff_of_false hp' hp) (by simp [Waits, hstate])
  cases h with
  | fresh _ _ _ hq _ => exact hquiet hq.1
  | adding _ _ _ hq _ => exact hquiet hq.1
  | kept hreq hctrl hint hw =>
    refine .kept hreq hctrl hint fun hw' => ?_
    rcases hw' with hpc | hstate
    · -- the routine runs, so the processor does nothing
      rw [AtPc, hpc] at hat
      rw [CRoutine.processor_running hat.2]
      exact hw (.inl hpc)
    · have hs : s.routine.state = .ioWait :=
        Decidable.byContradiction fun hne => CRoutine.processor_state_ne (by decide) hne hstate
      rcases hw (.inr hs) with hp | hg
      · rcases (show s.routine.Alert from .inr hp).processor with hn | hp'
        · rw [hstate] at hn
          cases hn
        · exact .inl hp'
      · exact .inr hg

theorem poll_frame (s : PollSys) (event : Option UInt32) (intervalMs : Int) :
    ∃ response updated poller pollPc, s.poll event intervalMs =
      { s with
        handler := { s.handler with response }
        routine := { s.routine with updated }
        poller
        pollPc } := by
  unfold poll
  split
  · exact ⟨_, _, _, _, rfl⟩
  · unfold wait
    dsimp only
    split <;> exact ⟨_, _, _, _, rfl⟩
  · unfold countDown
    split <;> exact ⟨_, _, _, _, rfl⟩
  · unfold respond
    split <;> exact ⟨_, _, _, _, rfl⟩
  · exact ⟨_, _, _, _, rfl⟩
  · exact ⟨_, _, _, _, rfl⟩
  · exact ⟨_, _, _, _, rfl⟩
  · next pc _ _ =>
    cases pc with
    | readDataWait | readIoWait | setFlag | done => exact ⟨_, _, _, _, rfl⟩

section
variable (h : s.Phase)
include h

theorem Phase.kept_of_delivers (hd : s.pollPc.delivers = true) :
    ∃ req i, s.poller.requests s.handler.fd = some req ∧
      (∀ param, s.poller.ctrlParams s.handler.fd = some param → param.operation = .mod) ∧
        s.poller.interest s.handler.fd = some i := by
  cases h with
  | fresh _ _ _ hq _ => exact absurd hd (by simp [hq.2])
  | adding _ _ _ hq _ => exact absurd hd (by simp [hq.2])
  | kept hreq hctrl hint _ => exact ⟨_, _, hreq, hctrl, hint⟩

theorem Phase.handleChanges (hpc : s.pollPc = .changes) :
    ({ s with poller := s.poller.handleChanges, pollPc := .waiting } : PollSys).Phase := by
  cases h with
  | fresh hreq hctrl hint hq hw =>
    refine .fresh hreq rfl ?_ ⟨hq.1, rfl⟩ hw
    simp only [Poller.handleChanges, hctrl, hint]
  | @adding _ events hreq hctrl hint hq hw =>
    -- the ADD succeeds
    have hint' : s.poller.handleChanges.interest s.handler.fd = some ⟨events, true⟩ := by
      simp only [Poller.handleChanges, hctrl, hint, epollCtl]
    exact .kept hreq nofun hint' fun _ => .inr (.inl (.inr (.inl (by simp [hint']))))
  | @kept _ i hreq hctrl hint hw =>
    cases hc : s.poller.ctrlParams s.handler.fd with
    | none =>
      have hint' : s.poller.handleChanges.interest s.handler.fd = some i := by
        simp only [Poller.handleChanges, hc, hint]
      refine .kept hreq nofun hint' fun hw' => ?_
      rcases hw hw' with hp | (hg | hg | hg) | hd
      · exact .inl hp
      · exact absurd hc hg
      · rw [hint, ← hint'] at hg
        exact .inr (.inl (.inr (.inl hg)))
      · exact .inr (.inl (.inr (.inr hg)))
      · rw [hpc] at hd
        cases hd
    | some param =>
      -- the MOD succeeds
      have hint' : s.poller.handleChanges.interest s.handler.fd = some ⟨param.events, true⟩ := by
        simp only [Poller.handleChanges, hc, hint, epollCtl, hctrl param hc]
      exact .kept hreq nofun hint' fun _ => .inr (.inl (.inr (.inl (by simp [hint']))))

theorem Phase.wait (hpc : s.pollPc = .waiting) (event : Option UInt32)
    (intervalMs : Int) : (s.wait event intervalMs).Phase := by
  unfold PollSys.wait
  dsimp only
  split
  · next events e hint' =>
    cases h with
    | fresh _ _ hint _ _ => rw [hint] at hint'; cases hint'
    | adding _ _ hint _ _ => rw [hint] at hint'; cases hint'
    | kept hreq hctrl _ _ => exact .kept hreq hctrl (update_self ..) fun _ => .inr (.inr rfl)
  · exact h.congr rfl rfl (by rw [hpc]; rfl) Iff.rfl Iff.rfl

theorem Phase.countDown {event : Option UInt32} {intervalMs : Int}
    (hpc : s.pollPc = .timeouts event intervalMs) : (s.countDown event intervalMs).Phase := by
  unfold PollSys.countDown
  split
  · next req hreq' hc =>
    cases h with
    | fresh hreq _ _ _ _ => rw [hreq] at hreq'; cases hreq'
    | adding _ hctrl _ _ _ => rw [hctrl] at hc; cases hc
    | kept hreq hctrl hint hw =>
      refine .kept (update_self ..) hctrl hint fun hw' => ?_
      cases event with
      | some e => exact .inr (.inr rfl)
      | none =>
        rcases hw hw' with hp | (hg | hg | hg) | hd
        · exact .inl hp
        · exact absurd hc hg
        · exact .inr (.inl (.inr (.inl hg)))
        · -- the timeout runs on, or is over and gives a response
          have ht : 0 ≤ req.timeoutMs := by simpa [hreq'] using hg
          rcases req.tick_cases ht intervalMs with hdue | hrun
          · exact .inr (.inr (by simp [hdue, PollPc.delivers]))
          · exact .inr (.inl (.inr (.inr (by simpa [Poller.setRequest] using hrun))))
        · rw [hpc] at hd
          cases hd
  · cases event with
    | none => exact h.congr rfl rfl (by rw [hpc]; rfl) Iff.rfl Iff.rfl
    | some e => exact h.congr rfl rfl (by rw [hpc]; rfl) Iff.rfl Iff.rfl

theorem Phase.respond (hat : s.AtPc) {events : UInt32}
    (hpc : s.pollPc = .responding events) : (s.respond events).Phase := by
  obtain ⟨req, i, hreq, hctrl, hint⟩ := h.kept_of_delivers (by rw [hpc]; rfl)
  unfold PollSys.respond
  rw [hreq]
  refine .kept (update_self ..) hctrl hint fun hw => ?_
  have hb : s.handler.isBlocking = true := hat.isBlocking hw
  exact .inr (.inr (by simp [hb, PollPc.delivers]))

theorem Phase.check (hpc : s.pollPc = .checking) (hok : s.pc ≠ .registered) :
    ({ s with pollPc := if s.routine.state = .ioWait then .notifying .readDataWait
        else .changes } : PollSys).Phase := by
  split
  · exact h.congr rfl rfl (by rw [hpc]; rfl) Iff.rfl Iff.rfl
  · next hs =>
    obtain ⟨req, i, hreq, hctrl, hint⟩ := h.kept_of_delivers (by rw [hpc]; rfl)
    exact .kept hreq hctrl hint fun hw => absurd hw (not_or.2 ⟨hok, hs⟩)

theorem Phase.notify {pc : NotifyPc} (hpc : s.pollPc = .notifying pc)
    (hd : pc ≠ .done) (hn : s.pc ≠ .registered) :
    ({ s with
      routine := (notifyProcessor pc s.routine).2
      pollPc := .notifying (notifyProcessor pc s.routine).1 } : PollSys).Phase := by
  obtain ⟨req, i, hreq, hctrl, hint⟩ := h.kept_of_delivers (by rw [hpc]; simpa [PollPc.delivers])
  cases pc with
  | readDataWait =>
    refine .kept hreq hctrl hint fun _ => .inr (.inr ?_)
    simp only [notifyProcessor]
    split <;> rfl
  | readIoWait =>
    refine .kept hreq hctrl hint fun hw => .inr (.inr ?_)
    have hs : s.routine.state = .ioWait := hw.resolve_left hn
    simp [notifyProcessor, hs, PollPc.delivers]
  | setFlag => exact .kept hreq hctrl hint fun _ => .inl (CRoutine.pending_setUpdateFlag _)
  | done => exact absurd rfl hd

end

theorem Inv.poll (h : s.Inv) (event : Option UInt32) (intervalMs : Int)
    (hok : s.pollPc = .checking → s.pc ≠ .registered) : (s.poll event intervalMs).Inv := by
  have hframe := s.poll_frame event intervalMs
  obtain ⟨hat, hphase, hnot⟩ := h
  refine ⟨?_, ?_, fun pc hn => ?_⟩
  · obtain ⟨response, updated, poller, pollPc, heq⟩ := hframe
    rw [heq]
    exact hat
  · unfold PollSys.poll
    split
    · next hpc => exact hphase.handleChanges hpc
    · next hpc => exact hphase.wait hpc event intervalMs
    · next hpc => exact hphase.countDown hpc
    · next hpc => exact hphase.respond hat hpc
    · next hpc => exact hphase.congr rfl rfl (by rw [hpc]; rfl) Iff.rfl Iff.rfl
    · next hpc => exact hphase.check hpc (hok hpc)
    · next hpc => exact hphase.congr rfl rfl (by rw [hpc]; rfl) Iff.rfl Iff.rfl
    · next pc hd hpc => exact hphase.notify hpc hd (hnot pc hpc)
  · have hsame : (s.poll event intervalMs).pc = s.pc := by grind
    rw [hsame]
    -- `NotifyTask` starts from the read of the state only
    cases hpc : s.pollPc with
    | checking => exact hok hpc
    | notifying pc => exact hnot pc hpc
    | changes | filling _ => simp [PollSys.poll, hpc] at hn
    | waiting =>
      simp only [PollSys.poll, hpc, wait] at hn
      split at hn <;> cases hn
    | timeouts event intervalMs =>
      simp only [PollSys.poll, hpc, countDown] at hn
      grind
    | responding events =>
      simp only [PollSys.poll, hpc, respond] at hn
      grind

theorem Inv.step (h : s.Inv) (a : PollStep) (hok : s.ChecksInTime a) : (s.step a).Inv := by
  cases a with
  | block timeoutMs isRead => exact h.block timeoutMs isRead
  | routine => exact h.runRoutine
  | processor => exact ⟨h.atPc.processor, h.phase.processor h.atPc, h.notifying⟩
  | poll event intervalMs => exact h.poll event intervalMs hok

theorem inv_init {fd pipeFd : Int} (hfd : fd ≠ pipeFd) : (init fd pipeFd).Inv where
  atPc := nofun
  phase := by
    have hnone : ∀ {α : Type} (x : α), update (fun _ => none) pipeFd (some x) fd = none :=
      fun x => update_of_ne hfd ..
    exact .fresh (hnone _) (hnone _) rfl ⟨by simp [init, CRoutine.Pending, CRoutine.new], rfl⟩
      (by simp [init, Waits, CRoutine.new])
  notifying := nofun

theorem Inv.not_stuck (h : s.Inv) : ¬ s.Stuck := by
  rintro ⟨-, hs, hp, hg, hd⟩
  cases h.phase with
  | fresh _ _ _ _ hw => exact hw (.inr hs)
  | adding _ hctrl _ _ _ => exact hg (.inl (by simp [hctrl]))
  | kept _ _ _ hw =>
    rcases hw (.inr hs) with hp' | hg' | hd'
    all_goals grind

/-- **A routine in `Block` is not stuck in any state of a run in which no callback reads its state
between `Register` and `set_state(IO_WAIT)`.** The poller's own pipe has a descriptor of its own. -/
theorem never_stuck_in_time {fd pipeFd : Int} (hfd : fd ≠ pipeFd) {steps : List PollStep}
    (h : Along step ChecksInTime (init fd pipeFd) steps) :
    Always step (fun s => ¬ s.Stuck) (init fd pipeFd) steps :=
  (h.always (inv_init hfd) fun _ a hi hok => hi.step a hok).imp fun _ => Inv.not_stuck

/-- Two `Block`s of one handler, answered by an event and by a timeout. -/
theorem never_stuck_in_time_twice : Always step (fun s => ¬ s.Stuck) (init 5 3)
    [.processor, .processor, .processor, .block (-1) true, .routine, .routine, .poll none 0,
      .routine, .poll (some epollIn) 0, .poll none 0, .poll none 0, .poll none 0, .poll none 0,
      .poll none 0, .poll none 0, .poll none 0, .poll none 0, .processor, .processor, .processor,
      .processor, .routine, .block 10 false, .routine, .routine, .routine, .poll none 0,
      .poll none 20, .poll none 0, .poll none 0] :=
  never_stuck_in_time (by decide) (by decide +kernel)

/-- **The wakeup that is lost**: the event comes when the routine has registered and not yet set its
state, so the callback drops it; the routine then parks, and the one-shot event does not come
again. -/
theorem not_never_stuck_early_event : ¬ Always step (fun s => ¬ s.Stuck) (init 5 3)
    [.processor, .processor, .processor, .block (-1) true, .routine, .poll none 0,
      .poll (some epollIn) 0, .poll none 0, .poll none 0, .poll none 0, .poll none 0, .routine,
      .routine] := by
  decide +kernel

end PollSys

end Io
