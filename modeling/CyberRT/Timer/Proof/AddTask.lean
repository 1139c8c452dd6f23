import CyberRT.Timer.Proof.WheelDelay

/-!
# When `AddTask` lets a task fire

A call of `AddTask` in one go lets the task fire at the `Tick` that is `ceil(d / 2)` positions after
the one whose index the call was given, whichever wheel the task goes to (`Ready.addTask_pending`).
-/

namespace Timer

open Function List

variable {ι : Type}

namespace WheelSys

attribute [local simp] turns nextCascade

theorem sync_init : (init : WheelSys ι).Sync where
  index := rfl
  assistantIndex := by simp [init, position]
  ticked := by simp [init]
  round := by simp [init]
  running := by simp [init]

theorem ready_init (i : ι) : (init : WheelSys ι).Ready i :=
  ⟨rfl, rfl, fun _ => nofun, fun _ => nofun⟩

theorem position_le (s : WheelSys ι) :
    s.position ≤ s.fired.length ∧ s.fired.length ≤ s.position + 1 := by
  unfold position
  split
  · omega
  · omega

theorem Sync.turns_cases {s : WheelSys ι} (h : s.Sync) :
    (s.loop ≠ .cascade ∧ s.nextCascade = s.position / 512 + 1 ∧ s.turns = s.position / 512) ∨
      (s.loop ≠ .cascade ∧ s.position % 512 = 0 ∧ 0 < s.position ∧
        s.nextCascade = s.position / 512 ∧ s.turns + 1 = s.position / 512) ∨
      (s.loop = .cascade ∧ s.position % 512 = 0 ∧ 0 < s.position ∧
        s.nextCascade = s.position / 512 ∧ s.turns = s.position / 512) := by
  have hround := h.round
  cases hl : s.loop with
  | tick => simp [hl]
  | advance => simp [hl]
  | assistant =>
    obtain ⟨h1, h2⟩ := hround (.inl hl)
    simp [hl]
    omega
  | cascade =>
    obtain ⟨h1, h2⟩ := hround (.inr hl)
    exact .inr (.inr ⟨rfl, h1, h2, by simp [hl], by simp [hl]⟩)

theorem Sync.turn_end {s : WheelSys ι} (hs : s.Sync) (hl : s.loop = .advance)
    (hpos : s.position % 512 = 511) :
    s.loopStep.loopStep.loopStep.Sync ∧
      s.loopStep.loopStep.loopStep.position = s.position + 1 ∧
      s.loopStep.loopStep.loopStep.turns = s.turns + 1 := by
  have hrun := hs.running (by rw [hl]; nofun)
  have hnum := loopStep_numbers hrun hs
  rw [hl] at hnum
  have hl₁ : s.loopStep.loop = .assistant := by
    have hindex := hs.index
    rw [hpos] at hindex
    rw [loopStep_advance hrun hl]
    simp [TimingWheel.advance, hindex]
  have hs₁ := hs.loopStep hrun
  have hrun₁ := loopStep_running hrun
  have hnum₁ := loopStep_numbers hrun₁ hs₁
  rw [hl₁] at hnum₁
  have hl₂ : s.loopStep.loopStep.loop = .cascade := by rw [loopStep_assistant hrun₁ hl₁]
  have hs₂ := hs₁.loopStep hrun₁
  have hrun₂ := loopStep_running hrun₁
  have hnum₂ := loopStep_numbers hrun₂ hs₂
  rw [hl₂] at hnum₂
  exact ⟨hs₂.loopStep hrun₂, by omega, by omega⟩

structure Onward (s s' : WheelSys ι) : Prop where
  position : s.position ≤ s'.position
  running : s.wheel.running = true → s'.wheel.running = true

theorem Onward.refl (s : WheelSys ι) : Onward s s := ⟨Nat.le_refl _, id⟩

theorem Onward.trans {s s' s'' : WheelSys ι} (h : Onward s s') (h' : Onward s' s'') :
    Onward s s'' :=
  ⟨Nat.le_trans h.position h'.position, fun hr => h'.running (h.running hr)⟩

theorem SameLoop.trans {s s' s'' : WheelSys ι} (h : SameLoop s s') (h' : SameLoop s' s'') :
    SameLoop s s'' :=
  ⟨h'.index.trans h.index, h'.assistantIndex.trans h.assistantIndex, h'.loop.trans h.loop,
    h'.fired.trans h.fired, fun hr => h'.running (h.running hr)⟩

theorem SameLoop.onward {s s' : WheelSys ι} (h : SameLoop s s') : Onward s s' :=
  ⟨Nat.le_of_eq h.position.symm, h.running⟩

variable [DecidableEq ι]

theorem Sync.step {s : WheelSys ι} (h : s.Sync) (op : WheelOp ι) : (s.step op).Sync := by
  by_cases hop : op = .loop
  · subst hop
    by_cases hrun : s.wheel.running = true
    · exact h.loopStep hrun
    · rw [WheelSys.step, WheelSys.loopStep, if_neg hrun]
      exact h
  · exact (step_sameLoop s hop).sync h

theorem Sync.run {s : WheelSys ι} (h : s.Sync) (ops : List (WheelOp ι)) :
    (ops.foldl WheelSys.step s).Sync :=
  List.foldlRecOn ops WheelSys.step h fun _ hu op _ => hu.step op

/-! ## A call that waits -/

structure Waiting (s : WheelSys ι) (i : ι) (pc : CallPc) (t : TimerTask) : Prop where
  sync : s.Sync
  call : s.call i = pc
  task : s.wheel.task i = t
  alive : t.alive = true
  place : s.wheel.At i .nowhere

section
variable {s : WheelSys ι} {i : ι} {pc : CallPc} {t : TimerTask}

section
variable (h : s.Waiting i pc t)
include h

theorem Waiting.loopStep : s.loopStep.Waiting i pc t ∧ Onward s s.loopStep := by
  by_cases hrun : s.wheel.running = true
  · have halive : (s.wheel.task i).alive = true := by rw [h.task]; exact h.alive
    have hcall : s.loopStep.call = s.call := by
      rw [WheelSys.loopStep, if_pos hrun]
      cases s.loop <;> rfl
    have hnum := loopStep_numbers hrun h.sync
    refine ⟨⟨h.sync.loopStep hrun, by rw [hcall]; exact h.call,
      by rw [loopStep_task hrun]; exact h.task, h.alive, at_nowhere_loopStep hrun halive h.place⟩,
      ?_, fun _ => loopStep_running hrun⟩
    grind
  · rw [WheelSys.loopStep, if_neg hrun]
    exact ⟨h, Onward.refl s⟩

theorem Waiting.step {op : WheelOp ι} (hop : op.task? ≠ some i) :
    (s.step op).Waiting i pc t ∧ Onward s (s.step op) := by
  rcases loop_or_other s hop with rfl | ⟨hl, hi⟩
  · exact h.loopStep
  · exact ⟨⟨hl.sync h.sync, hi.call.trans h.call, hi.task.trans h.task, h.alive,
      hi.place _ h.place⟩, hl.onward⟩

theorem Waiting.run {ops : List (WheelOp ι)} (ha : Apart i ops) :
    (ops.foldl WheelSys.step s).Waiting i pc t ∧ Onward s (ops.foldl WheelSys.step s) := by
  refine List.foldlRecOn ops WheelSys.step (b := s)
    (motive := fun u => u.Waiting i pc t ∧ Onward s u) ⟨h, Onward.refl s⟩ ?_
  rintro u ⟨hu, hon⟩ op hop
  obtain ⟨hu', hon'⟩ := hu.step (ha op hop)
  exact ⟨hu', hon.trans hon'⟩

end

/-! ## Its steps -/

def goal (index ticks current : Nat) : CallPc :=
  if ToAssistant index ticks current then .assistant ((index + ticks) / 512)
  else .work ((index + ticks) % 512)

theorem Waiting.callStep (h : s.Waiting i .idle t) (ms : Nat) :
    (s.step (.call i ms)).Waiting i (.given (s.position % 512))
      { t with nextFireDurationMs := ms } ∧
      SameLoop s (s.step (.call i ms)) := by
  have hsame : SameLoop s (s.step (.call i ms)) := step_sameLoop s nofun
  refine ⟨⟨hsame.sync h.sync, ?_, ?_, h.alive, ?_⟩, hsame⟩
  · rw [WheelSys.step, WheelSys.callStep, if_pos h.call, ← h.sync.index]
    exact update_self _ _ _
  · rw [WheelSys.step, WheelSys.callStep, if_pos h.call, ← h.task]
    exact update_self _ _ _
  · rw [WheelSys.step, WheelSys.callStep, if_pos h.call]
    exact ⟨h.place.work, h.place.assistant⟩

theorem choose_eq (w : TimingWheel ι) (i : ι) (index : Nat) :
    (w.choose i index).1 =
      goal index (ceilTicks (w.task i).nextFireDurationMs) w.currentWorkWheelIndex := by
  unfold TimingWheel.choose goal workWheelSize
  dsimp only
  generalize ceilTicks _ = ticks
  by_cases hge : 512 ≤ index + ticks
  · rw [if_pos hge, getWorkWheelIndex_eq]
    split
    · rename_i hwork
      rw [if_neg (fun h : ToAssistant _ _ _ => h.2 hwork)]
    · rename_i hassistant
      rw [if_pos (show ToAssistant _ _ _ from ⟨hge, hassistant⟩)]
  · rw [if_neg hge, if_neg (fun h : ToAssistant _ _ _ => hge h.1), Nat.mod_eq_of_lt (by omega)]

theorem choose_task (w : TimingWheel ι) (i : ι) (index : Nat) :
    (w.choose i index).2.task i =
      { w.task i with remainderIntervalMs :=
          if 512 ≤ index + ceilTicks (w.task i).nextFireDurationMs then
            (index + ceilTicks (w.task i).nextFireDurationMs) % 512
          else (w.task i).remainderIntervalMs } := by
  unfold TimingWheel.choose workWheelSize
  dsimp only
  by_cases hge : 512 ≤ index + ceilTicks (w.task i).nextFireDurationMs
  · rw [if_pos hge, if_pos hge, getWorkWheelIndex_eq]
    split
    all_goals grind
  · rw [if_neg hge, if_neg hge]

theorem Waiting.chooseStep {index : Nat} (h : s.Waiting i (.given index) t) :
    (s.step (.choose i)).Waiting i
        (goal index (ceilTicks t.nextFireDurationMs) s.wheel.currentWorkWheelIndex)
        { t with remainderIntervalMs :=
            if 512 ≤ index + ceilTicks t.nextFireDurationMs then
              (index + ceilTicks t.nextFireDurationMs) % 512
            else t.remainderIntervalMs } ∧
      SameLoop s (s.step (.choose i)) ∧ (s.step (.choose i)).wheel.running = true := by
  have hsame : SameLoop s (s.step (.choose i)) := step_sameLoop s nofun
  obtain ⟨task, hw, -⟩ := choose_frame s.wheel i index
  have hstep : s.step (.choose i) = { s with
      wheel := (s.wheel.choose i index).2
      call := update s.call i (s.wheel.choose i index).1 } := by
    rw [WheelSys.step, WheelSys.chooseStep, h.call]
  refine ⟨⟨hsame.sync h.sync, ?_, ?_, h.alive, ?_⟩, hsame, ?_⟩
  · rw [hstep, ← h.task]
    exact (update_self _ _ _).trans (choose_eq _ _ _)
  · rw [hstep, ← h.task]
    exact choose_task _ _ _
  · rw [hstep, hw]
    exact ⟨h.place.work, h.place.assistant⟩
  · rw [hstep, hw]

theorem Waiting.insert_work {b n : Nat} (h : s.Waiting i (.work b) t)
    (hrun : s.wheel.running = true) (hle : s.fired.length ≤ n) (hlt : n < s.fired.length + 512)
    (hb : n % 512 = b) : (s.step (.insert i)).Pending i n := by
  have hsame : SameLoop s (s.step (.insert i)) := step_sameLoop s nofun
  have hstep : s.step (.insert i) = { s with
      wheel := s.wheel.addToWork b i, call := update s.call i .idle } := by
    rw [WheelSys.step, WheelSys.insertStep, h.call]
    rfl
  refine ⟨hsame.sync h.sync, hsame.running hrun, ?_, .inl (.inl ?_)⟩
  · rw [hstep]
    exact (congrArg TimerTask.alive h.task).trans h.alive
  · rw [hstep, hb]
    exact ⟨hle, hlt, h.place.addToWork b⟩

theorem Waiting.insert_assistant {q n : Nat} (h : s.Waiting i (.assistant q) t)
    (hrun : s.wheel.running = true) (hle : s.nextCascade ≤ n / 512)
    (hlt : n / 512 < s.nextCascade + 64) (hq : (s.turns + q) % 64 = n / 512 % 64)
    (hr : t.remainderIntervalMs = n % 512) : (s.step (.insert i)).Pending i n := by
  have hsame : SameLoop s (s.step (.insert i)) := step_sameLoop s nofun
  have hstep : s.step (.insert i) = { s with
      wheel := s.wheel.addToAssistant (n / 512 % 64) i
      call := update s.call i .idle } := by
    rw [WheelSys.step, WheelSys.insertStep, h.call]
    dsimp only
    rw [TimingWheel.insert, getAssistantWheelIndex_eq, h.sync.assistantIndex, Nat.mod_add_mod, hq]
  refine ⟨hsame.sync h.sync, hsame.running hrun, ?_, .inl (.inr ?_)⟩
  · rw [hstep]
    exact (congrArg TimerTask.alive h.task).trans h.alive
  · rw [hsame.nextCascade, hstep]
    exact ⟨hle, hlt, (congrArg TimerTask.remainderIntervalMs h.task).trans hr,
      h.place.addToAssistant _⟩

end

/-! ## In time -/

structure Call (s₀ s₁ s₂ : WheelSys ι) (i : ι) (ticks : Nat) : Prop where
  pos : 0 < ticks
  le : ticks ≤ 512 * 64
  sync₀ : s₀.Sync
  sync₁ : s₁.Sync
  running : s₂.wheel.running = true
  mono₀ : s₀.position ≤ s₁.position
  mono₁ : s₁.position ≤ s₂.position
  one : s₂.position ≤ s₀.position + 1
  waiting : ∃ t, s₂.Waiting i
      (goal s₀.wheel.currentWorkWheelIndex ticks s₁.wheel.currentWorkWheelIndex) t ∧
    (512 ≤ s₀.wheel.currentWorkWheelIndex + ticks →
      t.remainderIntervalMs = (s₀.wheel.currentWorkWheelIndex + ticks) % 512)

section
variable {s₀ s₁ s₂ : WheelSys ι} {i : ι} {ticks : Nat}

section
variable (h : Call s₀ s₁ s₂ i ticks)
include h

theorem Call.pending (hin : InTime s₀ s₁ s₂ ticks) :
    (s₂.step (.insert i)).Pending i (s₀.position + ticks) := by
  obtain ⟨hpos, hle, hs₀, hs₁, hrun, hmono₀, hmono₁, hone, t, hw, hrem⟩ := h
  have hlen := s₂.position_le
  have hcases := hw.sync.turns_cases
  have hassistant := hw.sync.assistantIndex
  have hindex₀ := hs₀.index
  have hindex₁ := hs₁.index
  unfold InTime at hin
  unfold goal at hw
  by_cases hto : ToAssistant s₀.wheel.currentWorkWheelIndex ticks s₁.wheel.currentWorkWheelIndex
  · rw [if_pos hto] at hw hin
    obtain ⟨hge, -⟩ := hto
    have hturns : s₂.turns = s₀.position / 512 := by omega
    have hdue : (s₀.position + ticks) / 512 =
        s₀.position / 512 + (s₀.wheel.currentWorkWheelIndex + ticks) / 512 := by omega
    refine hw.insert_assistant hrun ?_ ?_ ?_ ?_
    all_goals grind
  · rw [if_neg hto] at hw hin
    have hlt : s₀.position + ticks < s₂.fired.length + 512 := by
      unfold ToAssistant at hto
      omega
    exact hw.insert_work hrun hin hlt (by omega)

omit h in
theorem exists_in_turn {m : Nat} (hm : 0 < m) (a r : Nat) :
    ∃ c, a ≤ c ∧ c < a + m ∧ c % m = r % m := by
  refine ⟨a + (r + (m - a % m)) % m, Nat.le_add_right _ _,
    Nat.add_lt_add_left (Nat.mod_lt _ hm) a, ?_⟩
  have hsplit : a + (r + (m - a % m)) = r + m * (a / m + 1) := by
    have hdiv := Nat.div_add_mod a m
    have hlt := Nat.mod_lt a hm
    rw [Nat.mul_succ]
    omega
  rw [Nat.add_mod_mod, hsplit, Nat.add_mul_mod_self_left]

theorem Call.exists_pending :
    ∃ n, (s₂.step (.insert i)).Pending i n ∧ n % 512 = (s₀.position + ticks) % 512 ∧
      s₂.fired.length ≤ n ∧ (n = s₀.position + ticks → InTime s₀ s₁ s₂ ticks) := by
  obtain ⟨hpos, hle, hs₀, hs₁, hrun, hmono₀, hmono₁, hone, t, hw, hrem⟩ := h
  have hcases := hw.sync.turns_cases
  have hfired := hw.sync.fired_le
  have hassistant := hw.sync.assistantIndex
  have hindex₀ := hs₀.index
  unfold goal at hw
  unfold InTime
  by_cases hto : ToAssistant s₀.wheel.currentWorkWheelIndex ticks s₁.wheel.currentWorkWheelIndex
  · rw [if_pos hto] at hw
    rw [if_pos hto]
    obtain ⟨hge, -⟩ := hto
    generalize hr : (s₀.wheel.currentWorkWheelIndex + ticks) % 512 = r at hrem
    generalize hq : (s₀.wheel.currentWorkWheelIndex + ticks) / 512 = q at hw
    -- the number of the cascade that moves the task
    obtain ⟨c, hc1, hc2, hc3⟩ := exists_in_turn (m := 64) (by decide) s₂.nextCascade (s₂.turns + q)
    refine ⟨512 * c + r, hw.insert_assistant hrun ?_ ?_ ?_ ?_, ?_, ?_, ?_⟩
    · omega
    · omega
    · omega
    all_goals grind
  · rw [if_neg hto] at hw
    rw [if_neg hto]
    obtain ⟨n, hn1, hn2, hn3⟩ :=
      exists_in_turn (m := 512) (by decide) s₂.fired.length (s₀.position + ticks)
    refine ⟨n, hw.insert_work hrun hn1 hn2 ?_, hn3, hn1, fun hn => hn ▸ hn1⟩
    omega

theorem Call.firesAt_iff :
    (∃ n, (s₂.step (.insert i)).FiresAt i n ∧ n ≤ s₀.position + ticks + 1 ∧
      s₀.position + ticks ≤ n + 1) ↔ InTime s₀ s₁ s₂ ticks := by
  refine ⟨fun ⟨n, hfires, hlo, hhi⟩ => ?_, fun hin =>
    ⟨_, (h.pending hin).firesAt, by omega, by omega⟩⟩
  obtain ⟨m, hm, hmod, hge, hin⟩ := h.exists_pending
  have hfired : (s₂.step (.insert i)).fired.length ≤ m := by
    have hsame : SameLoop s₂ (s₂.step (.insert i)) := step_sameLoop s₂ nofun
    rw [hsame.fired]
    exact hge
  have hmn := hm.firesAt.unique hfires hfired
  exact hin (by omega)

end

end

/-! ## Whole calls -/

section
variable {s : WheelSys ι} {i : ι}

theorem Ready.waiting (h : s.Ready i) (hs : s.Sync) : s.Waiting i .idle (s.wheel.task i) where
  sync := hs
  call := h.idle
  task := rfl
  alive := h.alive
  place := ⟨fun b => List.count_eq_zero.2 (h.work b), fun b => List.count_eq_zero.2 (h.assistant b)⟩

theorem Ready.call {ms : Nat} (h : s.Ready i) (hs : s.Sync) (hms : 0 < ms)
    (hmax : ms < timerMaxIntervalMs) {mid₁ mid₂ : List (WheelOp ι)} (h₁ : Apart i mid₁)
    (h₂ : Apart i mid₂) {s₁ s₂ : WheelSys ι} (hs₁ : s₁ = mid₁.foldl step (s.step (.call i ms)))
    (hs₂ : s₂ = mid₂.foldl step (s₁.step (.choose i))) (hone : s₂.position ≤ s.position + 1) :
    Call s s₁ s₂ i (ceilTicks ms) := by
  obtain ⟨hcall, hsame⟩ := (h.waiting hs).callStep ms
  obtain ⟨hw₁, hon₁⟩ := hcall.run h₁
  rw [← hs₁] at hw₁ hon₁
  obtain ⟨hchoose, hsame₁, hrun⟩ := hw₁.chooseStep
  obtain ⟨hw₂, hon₂⟩ := hchoose.run h₂
  rw [← hs₂] at hw₂ hon₂
  have hindex := hs.index
  rw [← hindex] at hw₂
  unfold timerMaxIntervalMs workWheelSize assistantWheelSize timerResolutionMs at hmax
  refine ⟨?_, ?_, hs, hw₁.sync, hon₂.running hrun, ?_, ?_, hone, _, hw₂, fun hge => if_pos hge⟩
  · rw [ceilTicks_eq]
    omega
  · rw [ceilTicks_eq]
    omega
  · exact (hsame.onward.trans hon₁).position
  · exact (hsame₁.onward.trans hon₂).position

theorem Ready.addTask_pending {ms : Nat} (h : s.Ready i) (hs : s.Sync) (hms : 0 < ms)
    (hmax : ms < timerMaxIntervalMs) (hl : s.loop = .tick ∨ s.loop = .advance) :
    (s.addTask i ms).Pending i (s.position + ceilTicks ms) := by
  have hsame₁ : SameLoop s (s.step (.call i ms)) := step_sameLoop s nofun
  have hsame : SameLoop s ((s.step (.call i ms)).step (.choose i)) :=
    hsame₁.trans (step_sameLoop _ nofun)
  have hcall : Call s (s.step (.call i ms)) ((s.step (.call i ms)).step (.choose i)) i
      (ceilTicks ms) :=
    h.call hs hms hmax (show Apart i [] from nofun) (show Apart i [] from nofun) rfl rfl
      (Nat.le_succ_of_le (Nat.le_of_eq hsame.position))
  refine hcall.pending ?_
  have hassistant := hs.assistantIndex
  have hlen := s.position_le
  have hticks := hcall.pos
  unfold InTime
  rw [hsame.assistantIndex, hsame.loop, hsame.fired]
  split
  · rcases hl with hl | hl
    · rw [hassistant]
      simp [hl]
    · rw [hassistant]
      simp [hl]
  · omega

theorem addTask_sameLoop (s : WheelSys ι) (i : ι) (ms : Nat) : SameLoop s (s.addTask i ms) := by
  have h₁ : SameLoop s (s.step (.call i ms)) := step_sameLoop s nofun
  have h₂ : SameLoop _ ((s.step (.call i ms)).step (.choose i)) := step_sameLoop _ nofun
  have h₃ : SameLoop _ (((s.step (.call i ms)).step (.choose i)).step (.insert i)) :=
    step_sameLoop _ nofun
  exact (h₁.trans h₂).trans h₃

theorem Waiting.ready {t : TimerTask} (h : s.Waiting i .idle t) : s.Ready i where
  idle := h.call
  alive := (congrArg TimerTask.alive h.task).trans h.alive
  work := fun b => List.count_eq_zero.1 (h.place.work b)
  assistant := fun b => List.count_eq_zero.1 (h.place.assistant b)

theorem Ready.settle (h : s.Ready i) (hs : s.Sync) :
    s.settle.Ready i ∧ s.settle.Sync ∧ s.settle.position = s.position ∧
      (s.loop ≠ .advance → s.settle.loop = .tick) := by
  have hcascade : ∀ {u : WheelSys ι}, u.Ready i → u.Sync → u.loop = .cascade →
      u.loopStep.Ready i ∧ u.loopStep.Sync ∧ u.loopStep.position = u.position ∧
        u.loopStep.loop = .tick := by
    intro u hu hsu hl
    have hrun := hsu.running (by rw [hl]; nofun)
    have hnum := loopStep_numbers hrun hsu
    rw [hl] at hnum
    exact ⟨(hu.waiting hsu).loopStep.1.ready, hsu.loopStep hrun, hnum.1,
      by rw [loopStep_cascade hrun hl]⟩
  unfold WheelSys.settle
  cases hl : s.loop with
  | tick => exact ⟨h, hs, rfl, fun _ => hl⟩
  | advance => exact ⟨h, hs, rfl, fun hne => absurd rfl hne⟩
  | assistant =>
    have hrun := hs.running (by rw [hl]; nofun)
    have hnum := loopStep_numbers hrun hs
    rw [hl] at hnum
    obtain ⟨h1, h2, h3, h4⟩ := hcascade (h.waiting hs).loopStep.1.ready (hs.loopStep hrun)
      (by rw [loopStep_assistant hrun hl])
    exact ⟨h1, h2, h3.trans hnum.1, fun _ => h4⟩
  | cascade => grind

end

/-! ## The results -/

/-- **A task fires as many `Tick`s after the current one as its duration says**: with the loop in
front of the `Tick` of the current index, that is one more than the duration in ticks, and with the
loop behind it just as many. -/
theorem addTask_fires (ops : List (WheelOp ι)) {s : WheelSys ι} (hs : s = ops.foldl step init)
    {i : ι} (hready : s.Ready i) {ms : Nat} (hms : 0 < ms) (hmax : ms < timerMaxIntervalMs) :
    (s.loop = .tick → (s.addTask i ms).FiresAt i (s.nthTick (ceilTicks ms + 1))) ∧
      (s.loop = .advance → (s.addTask i ms).FiresAt i (s.nthTick (ceilTicks ms))) := by
  have hsync : s.Sync := hs ▸ sync_init.run ops
  have hticks : 0 < ceilTicks ms := by
    rw [ceilTicks_eq]
    omega
  refine ⟨fun hl => ?_, fun hl => ?_⟩
  · have hfires := (hready.addTask_pending hsync hms hmax (.inl hl)).firesAt
    rwa [show s.position + ceilTicks ms = s.nthTick (ceilTicks ms + 1) by
      simp [position, nthTick, hl]] at hfires
  · have hfires := (hready.addTask_pending hsync hms hmax (.inr hl)).firesAt
    have hpos := hsync.ticked hl
    rwa [show s.position + ceilTicks ms = s.nthTick (ceilTicks ms) by
      simp only [position, nthTick, hl, if_true]
      omega] at hfires

theorem addTask_fires_first :
    (addTask (init : WheelSys Unit) () 5000).FiresAt () (nthTick (init : WheelSys Unit) 2501) :=
  (addTask_fires [] rfl (ready_init ()) (by decide) (by decide)).1 rfl

/-- The first task that is added to a wheel, to fire in two milliseconds, is not fired by the first
`Tick`. -/
theorem not_fires_first_tick :
    ¬ ∀ (ops : List (WheelOp Unit)) (s : WheelSys Unit), s = ops.foldl step init → s.loop = .tick →
      s.Ready () → ∀ ms, 0 < ms → ms < timerMaxIntervalMs →
        (s.addTask () ms).FiresAt () (s.nthTick (ceilTicks ms)) := by
  intro h
  have hfires := (h [] init rfl rfl (ready_init ()) 2 (by decide) (by decide)).once
    [.loop] (by decide) 0 (by decide) [] rfl
  cases hfires

section
variable {s₀ s₁ s₂ : WheelSys ι} {i : ι} {ms : Nat}

section
variable (h : Interleaving s₀ s₁ s₂ i ms)
include h

theorem Interleaving.sync : s₀.Sync := by
  obtain ⟨ops, hops⟩ := h.reached
  rw [hops]
  exact sync_init.run ops

theorem Interleaving.call : Call s₀ s₁ s₂ i (ceilTicks ms) := by
  obtain ⟨mid₁, ha₁, hs₁⟩ := h.given
  obtain ⟨mid₂, ha₂, hs₂⟩ := h.chosen
  exact h.ready.call h.sync h.pos h.admitted ha₁ ha₂ hs₁ hs₂ h.one

theorem Interleaving.settled {n₀ : Nat} :
    (s₀.settle.addTask i ms).FiresAt i n₀ ↔ n₀ = s₀.position + ceilTicks ms := by
  obtain ⟨hready, hsync, hpos, htick⟩ := h.ready.settle h.sync
  have hl : s₀.settle.loop = .tick ∨ s₀.settle.loop = .advance := by
    by_cases hl : s₀.loop = .advance
    · exact .inr (by rw [settle, hl]; exact hl)
    · exact .inl (htick hl)
  have hpending := hready.addTask_pending hsync h.pos h.admitted hl
  rw [hpos] at hpending
  refine ⟨fun hn₀ => ?_, fun heq => heq ▸ hpending.firesAt⟩
  have hlen : (s₀.settle.addTask i ms).fired.length ≤ s₀.position + ceilTicks ms := by
    have := s₀.settle.position_le
    have := h.call.pos
    rw [(addTask_sameLoop _ i ms).fired]
    omega
  exact (hpending.firesAt.unique hn₀ hlen).symm

theorem Interleaving.inTime (hf : FiresNearby s₀ s₂ i ms) : InTime s₀ s₁ s₂ (ceilTicks ms) := by
  obtain ⟨n₀, n, hn₀, hn, h1, h2⟩ := hf
  rw [h.settled] at hn₀
  rw [← h.call.firesAt_iff]
  exact ⟨n, hn, by omega, by omega⟩

end

/-- **When the task fires nearby.** -/
theorem firesNearby_iff (h : Interleaving s₀ s₁ s₂ i ms) :
    FiresNearby s₀ s₂ i ms ↔ InTime s₀ s₁ s₂ (ceilTicks ms) := by
  refine ⟨h.inTime, fun hin => ?_⟩
  obtain ⟨n, hn, h1, h2⟩ := h.call.firesAt_iff.2 hin
  exact ⟨_, n, h.settled.2 rfl, hn, by omega, by omega⟩

end

/-- A call for the first task of a wheel, with nothing in between. -/
theorem firesNearby_iff_first :
    FiresNearby (init : WheelSys Unit) ([.call () 100, .loop, .choose (), .loop].foldl step init) ()
      100 ↔ InTime (init : WheelSys Unit) ([.call () 100, .loop].foldl step init)
        ([.call () 100, .loop, .choose (), .loop].foldl step init) 50 :=
  firesNearby_iff ⟨⟨[], rfl⟩, ready_init (), by decide, by decide, ⟨[.loop], apart_loops () 1, rfl⟩,
    ⟨[.loop], apart_loops () 1, rfl⟩, by decide⟩

/-! ## A call at the end of a turn -/

theorem settle_eq (s : WheelSys ι) : ∃ k, s.settle = (List.replicate k .loop).foldl step s := by
  unfold settle
  split
  · exact ⟨2, rfl⟩
  · exact ⟨1, rfl⟩
  · exact ⟨0, rfl⟩

theorem exists_loops {s : WheelSys ι} {i : ι} (hi : s.Ready i) (hs : s.Sync)
    (hl : s.loop = .advance) (n : Nat) :
    ∃ (k : Nat) (u : WheelSys ι), u = (List.replicate k .loop).foldl step s ∧ u.Ready i ∧ u.Sync ∧
      u.loop = .advance ∧ u.position = s.position + n := by
  induction n with
  | zero => exact ⟨0, s, rfl, hi, hs, hl, rfl⟩
  | succ n ih =>
    obtain ⟨k, u, hu, hiu, hsu, hlu, hpu⟩ := ih
    have hrun := hsu.running (by rw [hlu]; nofun)
    have hnum := loopStep_numbers hrun hsu
    rw [hlu] at hnum
    -- on to the next position, in front of its `Tick`
    have hne : u.loopStep.loop ≠ .advance := by
      rw [loopStep_advance hrun hlu]
      split <;> nofun
    have hw := (hiu.waiting hsu).loopStep.1
    obtain ⟨hi', hs', hp', hl'⟩ := hw.ready.settle hw.sync
    obtain ⟨j, hj⟩ := u.loopStep.settle_eq
    have hrun' : u.loopStep.settle.wheel.running = true := by
      rw [hj]
      exact (hw.run (apart_loops i j)).2.running (loopStep_running hrun)
    have hnum' := loopStep_numbers hrun' hs'
    rw [hl' hne] at hnum'
    refine ⟨k + (j + 2), u.loopStep.settle.loopStep, ?_, (hi'.waiting hs').loopStep.1.ready,
      hs'.loopStep hrun', ?_, ?_⟩
    · rw [hj, hu, replicate_add, foldl_append, replicate_succ, foldl_cons,
        replicate_succ', foldl_append]
      rfl
    · rw [loopStep_tick hrun' (hl' hne)]
    · omega

def ticked : WheelSys Bool := [.call false 2, .choose false, .insert false, .loop].foldl step init

/-- A call that is given the last index of the work wheel, with the end of the turn in between: the
task is put a whole turn too late. -/
theorem not_firesNearby_turn_end :
    ¬ ∀ (s₀ s₁ s₂ : WheelSys Bool) (i : Bool) (ms : Nat),
      Interleaving s₀ s₁ s₂ i ms → FiresNearby s₀ s₂ i ms := by
  intro h
  have hready : ticked.Ready true :=
    (((ready_init true).waiting sync_init).run (show Apart true _ by decide)).1.ready
  obtain ⟨k, s₀, hs₀, hready₀, hsync₀, hl₀, hpos₀⟩ :=
    exists_loops hready (sync_init.run _) rfl 511
  have hpos : s₀.position = 511 := hpos₀
  have hsame : SameLoop s₀ (s₀.step (.call true 2)) := step_sameLoop s₀ (by simp)
  obtain ⟨hsync₁, hpos₁, hturns₁⟩ := (hsame.sync hsync₀).turn_end (hsame.loop.trans hl₀)
    (by rw [hsame.position, hpos])
  rw [hsame.position, hpos] at hpos₁
  have hturns : s₀.turns = 0 := by simp [hl₀, hpos]
  rw [hsame.turns, hturns] at hturns₁
  generalize hs₁ : (s₀.step (.call true 2)).loopStep.loopStep.loopStep = s₁ at *
  have hchoose : SameLoop s₁ (s₁.step (.choose true)) := step_sameLoop _ (by simp)
  have hcall : Interleaving s₀ s₁ (s₁.step (.choose true)) true 2 := by
    refine ⟨⟨[.call false 2, .choose false, .insert false, .loop] ++ List.replicate k .loop, ?_⟩,
      hready₀, by decide, by decide, ⟨[.loop, .loop, .loop], by decide, hs₁.symm⟩,
      ⟨[], by decide, rfl⟩, ?_⟩
    · exact hs₀
    · rw [hchoose.position]
      omega
  -- the assistant index is 1, and 0 belongs to position 511
  have hin := hcall.inTime (h _ _ _ _ _ hcall)
  rw [InTime, hsync₀.index, hsync₁.index, hpos, hpos₁, if_pos (by decide), hchoose.assistantIndex,
    hsync₁.assistantIndex, hturns₁] at hin
  exact absurd hin.1 (by decide)

end WheelSys

end Timer
