import CyberRT.Lib.Run
import CyberRT.Timer.Timer

/-!
# The next firing of a periodic timer (`timer/timer.cc`)

After each callback the duration to the next one is set, from the time that the callback took and
the error that has accumulated.
-/

namespace Timer

open Lib

namespace Period

variable {p : Period} {error : Int}

theorem nextFireDurationMs_eq (h : -2 ≤ error) (e : Nat) :
    (nextFireDurationMs p.ms e error : Int) = if e ≥ p.ms then 2 else max 2 (p.ms - e - error) := by
  have hlt : p.ms < 65536 := p.lt
  have hres : (timerResolutionMs : Int) = 2 := rfl
  unfold nextFireDurationMs
  by_cases he : e ≥ p.ms
  · rw [if_pos he, if_pos he, hres]
  · have hbmod : Int.bmod (p.ms - e - timerResolutionMs) (2 ^ 64) = p.ms - e - 2 := by
      rw [hres]
      exact Int.bmod_eq_of_le (by omega) (by omega)
    simp only [if_neg he, hbmod]
    split <;> omega

theorem lower_step (h : -2 ≤ error) (f : Firing) : -2 ≤ p.step error f := by
  simp only [step, nextFireDurationMs_eq h, timerResolutionMs]
  split <;> omega

theorem representable_iff (h : -2 ≤ error) (f : Firing) :
    p.Representable error f ↔ p.NotTooLong error f := by
  have heq := nextFireDurationMs_eq (p := p) h f.executeTimeMs
  have hmax : timerMaxIntervalMs = 65536 := rfl
  have hres : timerResolutionMs = 2 := rfl
  simp only [Representable, NotTooLong, hmax, hres]
  split at heq <;> omega

/-- **The next firing**, for every period and every sequence of callbacks, however long they take
and however late they come: the duration can be represented by the wheel exactly if the interval
without the execution time and the error can. -/
theorem representable_along_iff (p : Period) (l : List Firing) :
    Along p.step p.Representable 0 l ↔ Along p.step p.NotTooLong 0 l :=
  along_congr (P := fun error => -2 ≤ error) (by decide) (fun _ f h => representable_iff h f)
    fun _ f h _ => lower_step h f

/-- The longest period, and a callback that comes one tick too early. -/
theorem not_representable_early : ¬ Along (step ⟨65535, by decide, by decide⟩)
    (Representable ⟨65535, by decide, by decide⟩) 0 [⟨0, 0⟩, ⟨0, 0⟩] :=
  fun h => absurd h.2.1.2 (by decide +kernel)

end Period

/-!
## No callback after `Stop`

If `Stop` returns only when the callbacks of its task are over (`StopsQuiet`), a callback is
executed only while its task is alive and none is started for a stopped task (`stopsQuiet_safe`).
-/

open List

namespace TimerSys

def Mentions (s : TimerSys) (g : Nat) : Prop :=
  s.task = some g ∨ s.owner = .reset g ∨ g ∈ s.wheel ∨ s.tick = .locked g ∨ s.tick = .handed g ∨
    ∃ j ∈ s.jobs, j.task = g

def OwnerOk (s : TimerSys) : Prop :=
  match s.owner with
  | .idle => s.started = false → s.task = none
  | .adding g => s.started = true ∧ s.task = some g
  | .stopping g => s.started = false ∧ s.task = some g
  | .reset _ => s.started = false ∧ s.task = none

structure Inv (s : TimerSys) : Prop where
  owner : s.OwnerOk
  made : ∀ g, s.Mentions g → g < s.oneshot.length
  held : ∀ g, g < s.oneshot.length → g ∉ s.stopped → s.task = some g ∨ s.owner = .reset g
  stopped : ∀ g ∈ s.stopped, g < s.oneshot.length ∧ s.Quiet g ∧ s.task ≠ some g ∧ s.owner ≠ .reset g
  onTime : s.late = false

section
variable {s s' : TimerSys} {g : Nat}

theorem Inv.not_alive (h : s.Inv) (hg : g ∈ s.stopped) : s.alive g = false := by
  obtain ⟨-, ⟨hjobs, hlocked, hhanded⟩, htask, hreset⟩ := h.stopped g hg
  have hstop : s.owner ≠ .stopping g := by
    intro hs
    have howner := h.owner
    rw [OwnerOk, hs] at howner
    exact htask howner.2
  have hnone : (s.jobs.any fun j => j.task == g && j.pc.owns) = false := by
    rw [any_eq_false]
    intro j hj hown
    rw [Bool.and_eq_true, beq_iff_eq] at hown
    rw [hjobs j hj hown.1] at hown
    cases hown.2
  simp [alive, htask, hreset, hstop, hlocked, hhanded, hnone]

theorem Inv.alive_of_held (h : s.Inv) (hm : s.Mentions g) (hg : g ∉ s.stopped) :
    s.alive g = true := by
  rcases h.held g (h.made g hm) hg with ht | ho
  · simp [alive, ht]
  · simp [alive, ho]

theorem Inv.safe (h : s.Inv) : s.Safe where
  alive := by
    intro j hj hex
    refine h.alive_of_held (.inr (.inr (.inr (.inr (.inr ⟨j, hj, rfl⟩))))) fun hg => ?_
    rw [(h.stopped _ hg).2.1.1 j hj rfl] at hex
    cases hex
  onTime := h.onTime

structure SameTimer (s s' : TimerSys) : Prop where
  started : s'.started = s.started
  task : s'.task = s.task
  oneshot : s'.oneshot = s.oneshot
  owner : s'.owner = s.owner
  stopped : s'.stopped = s.stopped

section
variable (h : s.Inv)
include h

theorem Inv.of_same (hs : SameTimer s s')
    (hm : ∀ g, s'.Mentions g → s.Mentions g) (hq : ∀ g ∈ s.stopped, s.Quiet g → s'.Quiet g)
    (hl : s'.late = false) : s'.Inv where
  owner := by
    rw [OwnerOk, hs.owner, hs.started, hs.task]
    exact h.owner
  made g hg := by
    rw [hs.oneshot]
    exact h.made g (hm g hg)
  held g hg hns := by
    rw [hs.task, hs.owner]
    exact h.held g (hs.oneshot ▸ hg) (hs.stopped ▸ hns)
  stopped g hg := by
    rw [hs.oneshot, hs.task, hs.owner]
    rw [hs.stopped] at hg
    obtain ⟨h1, h2, h3, h4⟩ := h.stopped g hg
    exact ⟨h1, hq g hg h2, h3, h4⟩
  onTime := hl

theorem Inv.tickLock (g : Nat) : (s.tickLockStep g).Inv := by
  unfold tickLockStep
  split
  · split
    · rename_i hg
      refine h.of_same ⟨rfl, rfl, rfl, rfl, rfl⟩ ?_ ?_ h.onTime
      · intro k hk
        unfold Mentions at hk ⊢
        grind
      · intro k hk hq
        refine ⟨hq.1, ?_, ?_⟩
        · dsimp only
          split
          · rename_i halive
            intro hkg
            cases hkg
            rw [h.not_alive hk] at halive
            cases halive
          · nofun
        · grind
    · exact h
  · exact h

theorem Inv.tickAsync : s.tickAsyncStep.Inv := by
  unfold tickAsyncStep
  split
  · rename_i g htick
    refine h.of_same ⟨rfl, rfl, rfl, rfl, rfl⟩ ?_ ?_ h.onTime
    · intro k hk
      unfold Mentions at hk ⊢
      grind
    · intro k hk hq
      have hne : g ≠ k := by
        intro hgk
        subst hgk
        exact hq.2.1 htick
      refine ⟨?_, nofun, ?_⟩
      · intro j hj hjk
        rcases mem_append.1 hj with hj | hj
        · exact hq.1 j hj hjk
        · grind
      · grind
  · exact h

theorem Inv.tickRelease : s.tickReleaseStep.Inv := by
  unfold tickReleaseStep
  split
  · refine h.of_same ⟨rfl, rfl, rfl, rfl, rfl⟩ ?_ (fun _ _ hq => ⟨hq.1, nofun, nofun⟩) h.onTime
    intro k hk
    unfold Mentions at hk ⊢
    grind
  · exact h

theorem Inv.setJob {n : Nat} {j : Job} (hj : s.jobs[n]? = some j)
    (hg : j.task ∉ s.stopped) (pc : JobPc) {wheel : List Nat}
    (hw : ∀ g ∈ wheel, g ∈ s.wheel ∨ g = j.task) {late : Bool} (hl : late = false) :
    { s.setJob n j.task pc with wheel := wheel, late := late }.Inv := by
  refine h.of_same ⟨rfl, rfl, rfl, rfl, rfl⟩ ?_ ?_ hl
  · intro k hk
    unfold Mentions at hk ⊢
    rcases hk with hk | hk | hk | hk | hk | ⟨i, hi, hk⟩
    · exact .inl hk
    · exact .inr (.inl hk)
    · grind
    · exact .inr (.inr (.inr (.inl hk)))
    · exact .inr (.inr (.inr (.inr (.inl hk))))
    · rcases mem_or_eq_of_mem_set hi with hi | rfl
      all_goals grind
  · intro k hk hq
    refine ⟨fun i hi hik => ?_, hq.2.1, hq.2.2⟩
    rcases mem_or_eq_of_mem_set hi with hi | rfl
    · exact hq.1 i hi hik
    · grind

theorem Inv.jobStep (n : Nat) : (s.jobStep n).Inv := by
  unfold TimerSys.jobStep
  split
  · exact h
  · rename_i g pc hj
    by_cases hg : g ∈ s.stopped
    · -- the callbacks of a stopped task are over
      have hdone := (h.stopped g hg).2.1.1 _ (mem_of_getElem? hj) rfl
      grind
    · have hset := fun pc => h.setJob hj hg pc (fun _ => .inl) h.onTime
      cases pc with
      | scheduled => exact hset _
      | entered => exact hset _
      | locked =>
        dsimp only
        split
        · exact h
        · refine h.setJob hj hg _ (fun _ => .inl) ?_
          rw [h.onTime, Bool.false_or]
          simpa using hg
      | inside =>
        refine h.setJob hj hg _ ?_ h.onTime
        grind
      | finished => exact hset _
      | unlocked => exact hset _
      | done => exact h

theorem Inv.start (period : Nat) (oneshot : Bool) : (s.startStep period oneshot).Inv := by
  unfold startStep
  split
  · rename_i hidle
    split
    · exact h
    · rename_i hns
      have hstarted : s.started = false := by simpa using hns
      have htask : s.task = none := by
        have howner := h.owner
        rw [OwnerOk, hidle] at howner
        exact howner hstarted
      unfold initTimerTask
      split
      · refine ⟨?_, h.made, h.held, h.stopped, h.onTime⟩
        rw [OwnerOk, hidle]
        exact nofun
      · refine ⟨⟨rfl, rfl⟩, ?_, ?_, ?_, h.onTime⟩
        · intro k hk
          dsimp only
          rw [length_append, length_singleton]
          rcases hk with hk | hk | hk
          · grind
          · cases hk
          · exact Nat.lt_succ_of_lt (h.made k (.inr (.inr hk)))
        · intro k hk hk'
          dsimp only at hk ⊢
          rw [length_append, length_singleton] at hk
          rcases Nat.lt_succ_iff_lt_or_eq.1 hk with hlt | rfl
          · -- the earlier tasks are all stopped
            rcases h.held k hlt hk' with ht | ho
            all_goals grind
          · exact .inl rfl
        · intro k hk
          obtain ⟨h1, h2, h3, h4⟩ := h.stopped k hk
          dsimp only
          rw [length_append, length_singleton]
          refine ⟨by omega, h2, ?_, nofun⟩
          grind
  · exact h

theorem Inv.add : s.addStep.Inv := by
  unfold addStep
  split
  · rename_i g hadd
    have howner := h.owner
    rw [OwnerOk, hadd] at howner
    refine ⟨?_, ?_, ?_, ?_, h.onTime⟩
    · intro hns
      rw [howner.1] at hns
      cases hns
    · intro k hk
      rcases hk with hk | hk | hk | hk
      · exact h.made k (.inl hk)
      · cases hk
      · rcases mem_append.1 hk with hk | hk
        · exact h.made k (.inr (.inr (.inl hk)))
        · obtain rfl := mem_singleton.1 hk
          exact h.made k (.inl howner.2)
      · exact h.made k (.inr (.inr (.inr hk)))
    · intro k hk hk'
      rcases h.held k hk hk' with ht | ho
      all_goals grind
    · intro k hk
      obtain ⟨h1, h2, h3, -⟩ := h.stopped k hk
      exact ⟨h1, h2, h3, nofun⟩
  · exact h

theorem Inv.stop : s.stopStep.Inv := by
  unfold stopStep
  split
  · rename_i hidle
    have howner := h.owner
    rw [OwnerOk, hidle] at howner
    have hheld : ∀ k, k < s.oneshot.length → k ∉ s.stopped → s.task = some k := by
      intro k hk hk'
      rcases h.held k hk hk' with ht | ho
      all_goals grind
    split
    · rename_i g hstarted htask
      refine ⟨⟨rfl, htask⟩, ?_, fun k hk hk' => .inl (hheld k hk hk'), ?_, h.onTime⟩
      · intro k hk
        rcases hk with hk | hk | hk
        · exact h.made k (.inl hk)
        · cases hk
        · exact h.made k (.inr (.inr hk))
      · intro k hk
        obtain ⟨h1, h2, h3, -⟩ := h.stopped k hk
        exact ⟨h1, h2, h3, nofun⟩
    · rename_i hnot
      have htask : s.task = none := by
        cases hs : s.started with
        | false => exact howner hs
        | true =>
          cases ht : s.task with
          | none => rfl
          | some g => exact absurd ht (hnot g hs)
      refine ⟨?_, h.made, h.held, h.stopped, h.onTime⟩
      rw [OwnerOk, hidle]
      exact fun _ => htask
  · exact h

theorem Inv.reset : s.resetStep.Inv := by
  unfold resetStep
  split
  · rename_i g hstop
    split
    · exact h
    · have howner := h.owner
      rw [OwnerOk, hstop] at howner
      refine ⟨⟨howner.1, rfl⟩, ?_, ?_, ?_, h.onTime⟩
      · intro k hk
        rcases hk with hk | hk | hk
        · cases hk
        · cases hk
          exact h.made g (.inl howner.2)
        · exact h.made k (.inr (.inr hk))
      · intro k hk hk'
        rcases h.held k hk hk' with ht | ho
        all_goals grind
      · intro k hk
        obtain ⟨h1, h2, h3, -⟩ := h.stopped k hk
        refine ⟨h1, h2, nofun, ?_⟩
        grind
  · exact h

theorem Inv.ret (hq : s.StopsQuiet .ret) : s.retStep.Inv := by
  unfold retStep
  split
  · rename_i g hreset
    have howner := h.owner
    rw [OwnerOk, hreset] at howner
    have hquiet : s.Quiet g := hq g (by rw [hreset]; rfl)
    refine ⟨fun _ => howner.2, ?_, ?_, ?_, h.onTime⟩
    · intro k hk
      rcases hk with hk | hk | hk
      · exact h.made k (.inl hk)
      · cases hk
      · exact h.made k (.inr (.inr hk))
    · intro k hk hk'
      rw [mem_append, not_or, mem_singleton] at hk'
      rcases h.held k hk hk'.1 with ht | ho
      all_goals grind
    · intro k hk
      rcases mem_append.1 hk with hk | hk
      · obtain ⟨h1, h2, h3, -⟩ := h.stopped k hk
        exact ⟨h1, h2, h3, nofun⟩
      · obtain rfl := mem_singleton.1 hk
        refine ⟨h.made k (.inr (.inl hreset)), hquiet, ?_, nofun⟩
        grind
  · exact h

theorem Inv.step {op : TimerOp} (hop : s.StopsQuiet op) : (s.step op).Inv := by
  cases op with
  | start period oneshot => exact h.start period oneshot
  | add => exact h.add
  | stop => exact h.stop
  | reset => exact h.reset
  | ret => exact h.ret hop
  | tickLock g => exact h.tickLock g
  | tickAsync => exact h.tickAsync
  | tickRelease => exact h.tickRelease
  | job n => exact h.jobStep n

end

theorem inv_init : init.Inv where
  owner := fun _ => rfl
  made g hg := by simp [Mentions, init] at hg
  held g hg := by simp [init] at hg
  stopped g hg := by simp [init] at hg
  onTime := rfl

end

/-- **In a run in which every `Stop` returns when the callbacks of its task are over, callbacks are
executed only while their task is alive, and none is started for a stopped task.** -/
theorem stopsQuiet_safe {ops : List TimerOp} (h : Along step StopsQuiet init ops) :
    Always step Safe init ops :=
  (h.always inv_init fun _ _ hs hop => hs.step hop).imp fun _ hs => hs.safe

def twoFires : List TimerOp :=
  [.start 10 false, .add, .tickLock 0, .tickAsync, .tickRelease, .job 0, .job 0, .job 0, .job 0,
    .job 0, .job 0, .tickLock 0, .tickAsync, .job 1, .tickRelease, .job 1, .job 1, .stop, .job 1,
    .job 1, .reset, .job 1, .ret, .tickLock 0]

theorem twoFires_safe : Along step StopsQuiet init twoFires ∧ Always step Safe init twoFires :=
  have h : Along step StopsQuiet init twoFires := by decide
  ⟨h, stopsQuiet_safe h⟩

def runsBehindStop : List TimerOp :=
  [.start 10 true, .add, .tickLock 0, .tickAsync, .tickRelease, .stop, .reset, .ret, .job 0]

def startsBehindStop : List TimerOp :=
  [.start 10 true, .add, .tickLock 0, .tickAsync, .tickRelease, .job 0, .job 0, .stop, .reset, .ret,
    .job 0]

theorem not_safe_stop :
    ¬ (runsBehindStop.foldl step init).Safe ∧ (startsBehindStop.foldl step init).late = true := by
  decide

end TimerSys

end Timer
