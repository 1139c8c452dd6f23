import CyberRT.Timer.Timer

/-!
# Where a task is in the wheel

`At w i slot`: the buckets hold task `i` once, in `slot`, or not at all.
-/

namespace Timer

open Function TimingWheel

@[simp] theorem getWorkWheelIndex_eq (n : Nat) : getWorkWheelIndex n = n % 512 :=
  Nat.and_two_pow_sub_one_eq_mod n 9

@[simp] theorem getAssistantWheelIndex_eq (n : Nat) : getAssistantWheelIndex n = n % 64 :=
  Nat.and_two_pow_sub_one_eq_mod n 6

@[simp] theorem ceilTicks_eq (ms : Nat) : ceilTicks ms = (ms + 1) / 2 := rfl

inductive Slot where
  | nowhere
  | work (index : Nat)
  | assistant (index : Nat)
  deriving DecidableEq

variable {ι : Type}

namespace TimingWheel

theorem cascadeTask_frame (w : TimingWheel ι) (i : ι) :
    ∃ work, w.cascadeTask i = { w with workWheel := work } := by
  unfold cascadeTask
  split
  · exact ⟨_, rfl⟩
  · exact ⟨_, rfl⟩

theorem foldl_cascadeTask_frame (l : List ι) (w : TimingWheel ι) :
    ∃ work, l.foldl cascadeTask w = { w with workWheel := work } := by
  induction l generalizing w with
  | nil => exact ⟨_, rfl⟩
  | cons j l ih =>
    obtain ⟨work, hwork⟩ := cascadeTask_frame w j
    obtain ⟨work', hwork'⟩ := ih (w.cascadeTask j)
    grind

variable [DecidableEq ι]

structure At (w : TimingWheel ι) (i : ι) (slot : Slot) : Prop where
  work : ∀ b, (w.workWheel b).count i = if slot = .work b then 1 else 0
  assistant : ∀ b, (w.assistantWheel b).count i = if slot = .assistant b then 1 else 0

section
variable {w : TimingWheel ι} {i j : ι} {slot : Slot}

theorem At.tick (h : w.At i slot) :
    w.tick.2.At i (if slot = .work w.currentWorkWheelIndex then .nowhere else slot) where
  work b := by
    have hb := h.work b
    rw [TimingWheel.tick]
    grind
  assistant b := by
    have hb := h.assistant b
    rw [TimingWheel.tick]
    grind

theorem At.count_tick (h : w.At i slot) (halive : (w.task i).alive = true) :
    w.tick.1.count i = if slot = .work w.currentWorkWheelIndex then 1 else 0 := by
  rw [TimingWheel.tick]
  rw [List.count_filter (p := fun i => (w.task i).alive) halive]
  exact h.work _

theorem count_addToWork (w : TimingWheel ι) (index b : Nat) (i j : ι) :
    ((w.addToWork index j).workWheel b).count i =
      (w.workWheel b).count i + if b = index ∧ j = i then 1 else 0 := by
  unfold addToWork
  grind

theorem count_foldl_cascadeTask (l : List ι) (w : TimingWheel ι) (i : ι) (b : Nat)
    (halive : (w.task i).alive = true) :
    ((l.foldl cascadeTask w).workWheel b).count i =
      (w.workWheel b).count i + if b = (w.task i).remainderIntervalMs then l.count i else 0 := by
  induction l generalizing w with
  | nil => simp
  | cons j l ih =>
    obtain ⟨work, hframe⟩ := cascadeTask_frame w j
    have htask : (w.cascadeTask j).task = w.task := by rw [hframe]
    have hone : ((w.cascadeTask j).workWheel b).count i = (w.workWheel b).count i +
        if b = (w.task i).remainderIntervalMs ∧ j = i then 1 else 0 := by
      unfold cascadeTask
      split
      · rw [count_addToWork]
        grind
      · grind
    grind

theorem At.cascade (h : w.At i slot) (halive : (w.task i).alive = true) (a : Nat) :
    (w.cascade a).At i
      (if slot = .assistant a then .work (w.task i).remainderIntervalMs else slot) where
  work b := by
    have hcount := count_foldl_cascadeTask (w.assistantWheel a) w i b halive
    rw [h.work, h.assistant] at hcount
    rw [TimingWheel.cascade]
    grind
  assistant b := by
    rw [TimingWheel.cascade]
    dsimp only
    obtain ⟨work, hframe⟩ := foldl_cascadeTask_frame (w.assistantWheel a) w
    rw [hframe]
    by_cases hb : b = a
    · grind
    · rw [update_of_ne hb, h.assistant]
      grind

theorem At.addToWork (h : w.At i .nowhere) (index : Nat) :
    (w.addToWork index i).At i (.work index) where
  work b := by
    rw [count_addToWork, h.work]
    grind
  assistant b := h.assistant b

theorem count_addToAssistant (w : TimingWheel ι) (index b : Nat) (i j : ι) :
    ((w.addToAssistant index j).assistantWheel b).count i =
      (w.assistantWheel b).count i + if b = index ∧ j = i then 1 else 0 := by
  unfold addToAssistant
  grind

theorem At.addToAssistant (h : w.At i .nowhere) (index : Nat) :
    (w.addToAssistant index i).At i (.assistant index) where
  work b := h.work b
  assistant b := by
    rw [count_addToAssistant, h.assistant]
    grind

theorem At.insert_other (h : w.At i slot) (hj : j ≠ i) (pc : CallPc) :
    (w.insert j pc).At i slot := by
  cases pc with
  | idle => exact h
  | given index => exact h
  | work index =>
    refine ⟨fun b => ?_, h.assistant⟩
    rw [insert, count_addToWork, h.work]
    simp [hj]
  | assistant ticks =>
    refine ⟨h.work, fun b => ?_⟩
    rw [insert, count_addToAssistant, h.assistant]
    simp [hj]

end

end TimingWheel

namespace WheelSys

structure SameLoop (s s' : WheelSys ι) : Prop where
  index : s'.wheel.currentWorkWheelIndex = s.wheel.currentWorkWheelIndex
  assistantIndex : s'.wheel.currentAssistantWheelIndex = s.wheel.currentAssistantWheelIndex
  loop : s'.loop = s.loop
  fired : s'.fired = s.fired
  running : s.wheel.running = true → s'.wheel.running = true

theorem SameLoop.refl (s : WheelSys ι) : SameLoop s s := ⟨rfl, rfl, rfl, rfl, id⟩

theorem insert_frame (w : TimingWheel ι) (j : ι) (pc : CallPc) :
    ∃ work assistant,
      w.insert j pc = { w with workWheel := work, assistantWheel := assistant } := by
  cases pc with
  | idle => exact ⟨_, _, rfl⟩
  | given index => exact ⟨_, _, rfl⟩
  | work index => exact ⟨_, _, rfl⟩
  | assistant ticks => exact ⟨_, _, rfl⟩

variable [DecidableEq ι] {op : WheelOp ι}

structure SameFor (i : ι) (s s' : WheelSys ι) : Prop where
  call : s'.call i = s.call i
  task : s'.wheel.task i = s.wheel.task i
  place : ∀ slot, s.wheel.At i slot → s'.wheel.At i slot

theorem SameFor.refl (i : ι) (s : WheelSys ι) : SameFor i s s := ⟨rfl, rfl, fun _ => id⟩

theorem choose_frame (w : TimingWheel ι) (j : ι) (index : Nat) :
    ∃ task, (w.choose j index).2 = { w with running := true, task := task } ∧
      ∀ i, i ≠ j → task i = w.task i := by
  unfold choose
  dsimp only
  split
  · split
    all_goals grind
  · exact ⟨_, rfl, fun _ _ => rfl⟩

theorem step_sameLoop (s : WheelSys ι) (hop : op ≠ .loop) : SameLoop s (s.step op) := by
  cases op with
  | loop => exact absurd rfl hop
  | call j ms =>
    rw [step, callStep]
    split
    · exact ⟨rfl, rfl, rfl, rfl, id⟩
    · exact SameLoop.refl s
  | choose j =>
    rw [step, chooseStep]
    split
    · rename_i index _
      obtain ⟨task, hw, -⟩ := choose_frame s.wheel j index
      rw [hw]
      exact ⟨rfl, rfl, rfl, rfl, fun _ => rfl⟩
    · exact SameLoop.refl s
  | insert j =>
    rw [step, insertStep]
    split
    · exact SameLoop.refl s
    · exact SameLoop.refl s
    · obtain ⟨work, assistant, hw⟩ := insert_frame s.wheel j (s.call j)
      rw [hw]
      exact ⟨rfl, rfl, rfl, rfl, id⟩
  | drop j => exact ⟨rfl, rfl, rfl, rfl, id⟩

theorem step_other {i j : ι} (hj : j ≠ i) (s : WheelSys ι)
    (hop : op.task? = some j) : SameFor i s (s.step op) := by
  cases op with
  | loop => cases hop
  | call k ms =>
    cases hop
    rw [step, callStep]
    split
    · exact ⟨update_of_ne hj.symm _ _, update_of_ne hj.symm _ _, fun _ h => ⟨h.work, h.assistant⟩⟩
    · exact SameFor.refl i s
  | choose k =>
    cases hop
    rw [step, chooseStep]
    split
    · rename_i index _
      obtain ⟨task, hw, htask⟩ := choose_frame s.wheel j index
      rw [hw]
      exact ⟨update_of_ne hj.symm _ _, htask i hj.symm, fun _ h => ⟨h.work, h.assistant⟩⟩
    · exact SameFor.refl i s
  | insert k =>
    cases hop
    rw [step, insertStep]
    split
    · exact SameFor.refl i s
    · exact SameFor.refl i s
    · refine ⟨update_of_ne hj.symm _ _, ?_, fun _ h => h.insert_other hj _⟩
      obtain ⟨work, assistant, hw⟩ := insert_frame s.wheel j (s.call j)
      rw [hw]
  | drop k =>
    cases hop
    exact ⟨rfl, update_of_ne hj.symm _ _, fun _ h => ⟨h.work, h.assistant⟩⟩

theorem loop_or_other {i : ι} (s : WheelSys ι) (hop : op.task? ≠ some i) :
    op = .loop ∨ SameLoop s (s.step op) ∧ SameFor i s (s.step op) := by
  cases hj : op.task? with
  | none =>
    cases op with
    | loop => exact .inl rfl
    | call | choose | insert | drop => cases hj
  | some j =>
    have hne : j ≠ i := by grind
    exact .inr ⟨step_sameLoop s (by rintro rfl; cases hj), step_other hne s hj⟩

end WheelSys

/-!
## When a task fires

The `Tick`s of the loop are numbered from 0 on (`fired`), and its indices are the number of the
`Tick` at the current position, modulo the sizes of the wheels (`Sync`).
-/

open List

variable {ι : Type}

namespace WheelSys

attribute [local simp] position

def turns (s : WheelSys ι) : Nat :=
  if s.loop = .assistant then s.position / 512 - 1 else s.position / 512

def nextCascade (s : WheelSys ι) : Nat :=
  if s.loop = .cascade then s.turns else s.turns + 1

attribute [local simp] turns nextCascade

/-- The indices of both wheels follow the ticks. -/
structure Sync (s : WheelSys ι) : Prop where
  index : s.wheel.currentWorkWheelIndex = s.position % 512
  assistantIndex : s.wheel.currentAssistantWheelIndex = s.turns % 64
  ticked : s.loop = .advance → 0 < s.fired.length
  round : s.loop = .assistant ∨ s.loop = .cascade → s.position % 512 = 0 ∧ 0 < s.position
  running : s.loop ≠ .tick → s.wheel.running = true

section
variable {s s' : WheelSys ι} {i : ι}

section
variable (h : SameLoop s s')
include h

theorem SameLoop.position : s'.position = s.position := by
  rw [WheelSys.position, WheelSys.position, h.loop, h.fired]

theorem SameLoop.turns : s'.turns = s.turns := by
  rw [WheelSys.turns, WheelSys.turns, h.loop, h.position]

theorem SameLoop.nextCascade : s'.nextCascade = s.nextCascade := by
  rw [WheelSys.nextCascade, WheelSys.nextCascade, h.loop, h.turns]

theorem SameLoop.sync (hs : s.Sync) : s'.Sync where
  index := by rw [h.index, h.position]; exact hs.index
  assistantIndex := by rw [h.assistantIndex, h.turns]; exact hs.assistantIndex
  ticked := by rw [h.loop, h.fired]; exact hs.ticked
  round := by rw [h.loop, h.position]; exact hs.round
  running := by rw [h.loop]; exact fun hne => h.running (hs.running hne)

end

theorem Sync.fired_le (hs : s.Sync) : s.fired.length ≤ 512 * s.nextCascade := by
  have hround := hs.round
  cases hl : s.loop with
  | tick =>
    simp [hl]
    omega
  | advance =>
    simp [hl]
    omega
  | assistant =>
    have hr := hround (.inl hl)
    simp [hl] at hr ⊢
    omega
  | cascade =>
    have hr := hround (.inr hl)
    simp [hl] at hr ⊢
    omega

def phase : LoopPc → Nat
  | .advance => 0
  | .assistant => 1
  | .cascade => 2
  | .tick => 3

section
variable (hrun : s.wheel.running = true)
include hrun

theorem loopStep_tick (hl : s.loop = .tick) : s.loopStep =
    { s with wheel := s.wheel.tick.2, fired := s.fired ++ [s.wheel.tick.1], loop := .advance } := by
  rw [loopStep, if_pos hrun, hl]

theorem loopStep_advance (hl : s.loop = .advance) : s.loopStep = { s with
      wheel := s.wheel.advance
      loop := if s.wheel.advance.currentWorkWheelIndex = 0 then .assistant else .tick } := by
  rw [loopStep, if_pos hrun, hl]

theorem loopStep_assistant (hl : s.loop = .assistant) :
    s.loopStep = { s with wheel := s.wheel.advanceAssistant, loop := .cascade } := by
  rw [loopStep, if_pos hrun, hl]

theorem loopStep_cascade (hl : s.loop = .cascade) : s.loopStep =
    { s with wheel := s.wheel.cascade s.wheel.currentAssistantWheelIndex, loop := .tick } := by
  rw [loopStep, if_pos hrun, hl]

theorem loopStep_numbers (hs : s.Sync) :
    match s.loop with
    | .tick => s.loopStep.position = s.position ∧ s.loopStep.turns = s.turns ∧
        s.loopStep.nextCascade = s.nextCascade
    | .advance => s.loopStep.position = s.position + 1 ∧ s.loopStep.turns = s.turns ∧
        s.loopStep.nextCascade = s.nextCascade
    | .assistant => s.loopStep.position = s.position ∧ s.loopStep.turns = s.turns + 1 ∧
        s.loopStep.nextCascade = s.nextCascade
    | .cascade => s.loopStep.position = s.position ∧ s.loopStep.turns = s.turns ∧
        s.loopStep.nextCascade = s.nextCascade + 1 := by
  have hindex := hs.index
  have hround := hs.round
  have hticked := hs.ticked
  cases hl : s.loop with
  | tick =>
    rw [loopStep_tick hrun hl]
    simp [hl]
  | advance =>
    rw [loopStep_advance hrun hl]
    have hpos := hticked hl
    simp only [position, hl, if_true] at hindex
    by_cases hz : s.wheel.advance.currentWorkWheelIndex = 0
    · simp only [advance, getWorkWheelIndex_eq] at hz
      simp only [nextCascade, turns, position, hl, advance, getWorkWheelIndex_eq, hz]
      simp
      omega
    · simp only [advance, getWorkWheelIndex_eq] at hz
      simp only [nextCascade, turns, position, hl, advance, getWorkWheelIndex_eq, hz]
      simp
      omega
  | assistant =>
    rw [loopStep_assistant hrun hl]
    have hr := hround (.inl hl)
    simp [hl] at hr ⊢
    omega
  | cascade =>
    rw [loopStep_cascade hrun hl]
    simp [hl]

theorem loopStep_frame :
    s.loopStep.wheel.running = true ∧ s.loopStep.wheel.task = s.wheel.task := by
  cases hl : s.loop with
  | tick => rw [loopStep_tick hrun hl]; exact ⟨hrun, rfl⟩
  | advance => rw [loopStep_advance hrun hl]; exact ⟨hrun, rfl⟩
  | assistant => rw [loopStep_assistant hrun hl]; exact ⟨hrun, rfl⟩
  | cascade =>
    obtain ⟨work, hframe⟩ := TimingWheel.foldl_cascadeTask_frame
      (s.wheel.assistantWheel s.wheel.currentAssistantWheelIndex) s.wheel
    rw [loopStep_cascade hrun hl, TimingWheel.cascade, hframe]
    exact ⟨hrun, rfl⟩

theorem loopStep_running : s.loopStep.wheel.running = true := (loopStep_frame hrun).1

theorem loopStep_task : s.loopStep.wheel.task = s.wheel.task := (loopStep_frame hrun).2

theorem Sync.loopStep (hs : s.Sync) : s.loopStep.Sync := by
  have hnum := loopStep_numbers hrun hs
  have hindex := hs.index
  have hassistant := hs.assistantIndex
  have hround := hs.round
  cases hl : s.loop with
  | tick =>
    rw [hl] at hnum
    obtain ⟨h1, h2, -⟩ := hnum
    refine ⟨?_, ?_, ?_, ?_, fun _ => loopStep_running hrun⟩
    · rw [h1, ← hindex, loopStep_tick hrun hl]; rfl
    · rw [h2, ← hassistant, loopStep_tick hrun hl]; rfl
    · rw [loopStep_tick hrun hl]; simp
    · rw [loopStep_tick hrun hl]; simp
  | advance =>
    rw [hl] at hnum
    obtain ⟨h1, h2, -⟩ := hnum
    refine ⟨?_, ?_, ?_, ?_, fun _ => loopStep_running hrun⟩
    · rw [h1, loopStep_advance hrun hl]
      simp only [advance, getWorkWheelIndex_eq]
      omega
    · rw [h2, ← hassistant, loopStep_advance hrun hl]; rfl
    · rw [loopStep_advance hrun hl]
      split <;> simp
    · rw [h1, loopStep_advance hrun hl]
      simp only [advance, getWorkWheelIndex_eq]
      split
      · omega
      · simp
  | assistant =>
    rw [hl] at hnum
    obtain ⟨h1, h2, -⟩ := hnum
    refine ⟨?_, ?_, ?_, ?_, fun _ => loopStep_running hrun⟩
    · rw [h1, ← hindex, loopStep_assistant hrun hl]; rfl
    · rw [h2, loopStep_assistant hrun hl]
      simp only [advanceAssistant, getAssistantWheelIndex_eq]
      omega
    · rw [loopStep_assistant hrun hl]; simp
    · grind
  | cascade =>
    rw [hl] at hnum
    obtain ⟨h1, h2, -⟩ := hnum
    obtain ⟨work, hframe⟩ := TimingWheel.foldl_cascadeTask_frame
      (s.wheel.assistantWheel s.wheel.currentAssistantWheelIndex) s.wheel
    refine ⟨?_, ?_, ?_, ?_, fun _ => loopStep_running hrun⟩
    · rw [h1, ← hindex, loopStep_cascade hrun hl, TimingWheel.cascade, hframe]
    · rw [h2, ← hassistant, loopStep_cascade hrun hl, TimingWheel.cascade, hframe]
    · rw [loopStep_cascade hrun hl]; simp
    · rw [loopStep_cascade hrun hl]; simp

theorem loopStep_phase :
    4 * s.fired.length + phase s.loop < 4 * s.loopStep.fired.length + phase s.loopStep.loop := by
  cases hl : s.loop with
  | tick =>
    rw [loopStep_tick hrun hl]
    simp [phase]
    omega
  | advance =>
    rw [loopStep_advance hrun hl]
    split
    · simp [phase]
    · simp [phase]
  | assistant =>
    rw [loopStep_assistant hrun hl]
    simp [phase]
  | cascade =>
    rw [loopStep_cascade hrun hl]
    simp [phase]

end

end

theorem apart_loops (i : ι) (k : Nat) : Apart i (List.replicate k .loop) := by
  intro op hop
  rw [eq_of_mem_replicate hop]
  nofun

variable [DecidableEq ι]

/-- Task `i` is where tick `n` will find it. -/
def Due (s : WheelSys ι) (i : ι) (n : Nat) : Prop :=
  (s.fired.length ≤ n ∧ n < s.fired.length + 512 ∧ s.wheel.At i (.work (n % 512))) ∨
    (s.nextCascade ≤ n / 512 ∧ n / 512 < s.nextCascade + 64 ∧
      (s.wheel.task i).remainderIntervalMs = n % 512 ∧ s.wheel.At i (.assistant (n / 512 % 64)))

section
variable {s s' : WheelSys ι} {i : ι} {n : Nat}

theorem Due.le (hs : s.Sync) (h : s.Due i n) : s.fired.length ≤ n := by
  rcases h with ⟨h, -⟩ | ⟨h, -⟩
  · exact h
  · have := hs.fired_le
    omega

theorem Due.of_same (h : s.Due i n) (hl : SameLoop s s') (hi : SameFor i s s') : s'.Due i n := by
  unfold Due at h ⊢
  rw [hl.fired, hl.nextCascade, hi.task]
  rcases h with ⟨h1, h2, h3⟩ | ⟨h1, h2, h3, h4⟩
  · exact .inl ⟨h1, h2, hi.place _ h3⟩
  · exact .inr ⟨h1, h2, h3, hi.place _ h4⟩

theorem Due.loopStep (hs : s.Sync) (hrun : s.wheel.running = true)
    (halive : (s.wheel.task i).alive = true) (h : s.Due i n) :
    (s.loop = .tick ∧ s.fired.length = n ∧ s.loopStep.wheel.At i .nowhere) ∨
      s.loopStep.Due i n := by
  have hnum := loopStep_numbers hrun hs
  have hle := h.le hs
  have hindex := hs.index
  have hassistant := hs.assistantIndex
  have htask := loopStep_task hrun
  cases hl : s.loop with
  | tick =>
    rw [hl] at hnum
    have hpos : s.position = s.fired.length := by simp [hl]
    rcases h with ⟨h1, h2, h3⟩ | ⟨h1, h2, h3, h4⟩
    · have hat := h3.tick
      by_cases hn : s.fired.length = n
      · rw [if_pos (by rw [hindex, hpos, hn])] at hat
        exact .inl ⟨rfl, hn, by rw [loopStep_tick hrun hl]; exact hat⟩
      · refine .inr (.inl ?_)
        rw [loopStep_tick hrun hl]
        grind
    · have hat := h4.tick
      refine .inr (.inr ?_)
      rw [hnum.2.2, htask]
      exact ⟨h1, h2, h3, by rw [loopStep_tick hrun hl]; exact hat⟩
  | advance =>
    rw [hl] at hnum
    refine .inr ?_
    rcases h with ⟨h1, h2, h3⟩ | ⟨h1, h2, h3, h4⟩
    · exact .inl (by rw [loopStep_advance hrun hl]; exact ⟨h1, h2, h3.work, h3.assistant⟩)
    · refine .inr ?_
      rw [hnum.2.2, htask]
      exact ⟨h1, h2, h3, by rw [loopStep_advance hrun hl]; exact ⟨h4.work, h4.assistant⟩⟩
  | assistant =>
    rw [hl] at hnum
    refine .inr ?_
    rcases h with ⟨h1, h2, h3⟩ | ⟨h1, h2, h3, h4⟩
    · exact .inl (by rw [loopStep_assistant hrun hl]; exact ⟨h1, h2, h3.work, h3.assistant⟩)
    · refine .inr ?_
      rw [hnum.2.2, htask]
      exact ⟨h1, h2, h3, by rw [loopStep_assistant hrun hl]; exact ⟨h4.work, h4.assistant⟩⟩
  | cascade =>
    rw [hl] at hnum
    refine .inr ?_
    rcases h with ⟨h1, h2, h3⟩ | ⟨h1, h2, h3, h4⟩
    · have hat := h3.cascade halive s.wheel.currentAssistantWheelIndex
      exact .inl (by rw [loopStep_cascade hrun hl]; exact ⟨h1, h2, hat⟩)
    · have hat := h4.cascade halive s.wheel.currentAssistantWheelIndex
      have hnext : s.nextCascade = s.turns := by simp [hl]
      have hturns : s.turns = s.fired.length / 512 ∧ s.position = s.fired.length := by simp [hl]
      by_cases hq : n / 512 = s.turns
      · -- the bucket that is moved now
        rw [if_pos (by rw [hq, hassistant]), h3] at hat
        refine .inl ?_
        rw [loopStep_cascade hrun hl]
        exact ⟨hle, by dsimp only; omega, hat⟩
      · rw [if_neg (by rw [hassistant, Slot.assistant.injEq]; omega)] at hat
        refine .inr ?_
        rw [hnum.2.2, htask]
        exact ⟨by omega, by omega, h3, by rw [loopStep_cascade hrun hl]; exact hat⟩

theorem Due.count_tick (hs : s.Sync) (halive : (s.wheel.task i).alive = true)
    (hl : s.loop = .tick) (h : s.Due i n) :
    s.wheel.tick.1.count i = if s.fired.length = n then 1 else 0 := by
  have hindex := hs.index
  have hpos : s.position = s.fired.length := by simp [hl]
  have hcas : s.nextCascade = s.fired.length / 512 + 1 := by simp [hl]
  rcases h with ⟨h1, h2, h3⟩ | ⟨h1, h2, h3, h4⟩
  · rw [h3.count_tick halive, hindex, hpos]
    grind
  · rw [h4.count_tick halive, if_neg (by simp), if_neg (by omega)]

end

structure Pending (s : WheelSys ι) (i : ι) (n : Nat) : Prop where
  sync : s.Sync
  running : s.wheel.running = true
  alive : (s.wheel.task i).alive = true
  place : s.Due i n ∨ (n < s.fired.length ∧ s.wheel.At i .nowhere)

def Adds (s s' : WheelSys ι) (i : ι) (n : Nat) : Prop :=
  s'.fired = s.fired ∨ ∃ tasks, s'.fired = s.fired ++ [tasks] ∧
    tasks.count i = if s.fired.length = n then 1 else 0

section
variable {s : WheelSys ι} {i : ι} {n : Nat}

theorem at_nowhere_loopStep (hrun : s.wheel.running = true)
    (halive : (s.wheel.task i).alive = true) (h : s.wheel.At i .nowhere) :
    s.loopStep.wheel.At i .nowhere := by
  cases hl : s.loop with
  | tick =>
    rw [loopStep_tick hrun hl]
    have hat := h.tick
    rwa [if_neg (by simp)] at hat
  | advance => rw [loopStep_advance hrun hl]; exact ⟨h.work, h.assistant⟩
  | assistant => rw [loopStep_assistant hrun hl]; exact ⟨h.work, h.assistant⟩
  | cascade =>
    rw [loopStep_cascade hrun hl]
    have hat := h.cascade halive s.wheel.currentAssistantWheelIndex
    rwa [if_neg (by simp)] at hat

theorem Pending.loopStep (h : s.Pending i n) : s.loopStep.Pending i n ∧ s.Adds s.loopStep i n := by
  have hsync := h.sync.loopStep h.running
  have hrun := loopStep_running h.running
  have halive : (s.loopStep.wheel.task i).alive = true := by
    rw [loopStep_task h.running]
    exact h.alive
  have hadds : s.Adds s.loopStep i n := by
    cases hl : s.loop with
    | tick =>
      refine .inr ⟨s.wheel.tick.1, by rw [loopStep_tick h.running hl], ?_⟩
      rcases h.place with hdue | ⟨hlt, hat⟩
      · exact hdue.count_tick h.sync h.alive hl
      · rw [hat.count_tick h.alive, if_neg (by simp), if_neg (by omega)]
    | advance => exact .inl (by rw [loopStep_advance h.running hl])
    | assistant => exact .inl (by rw [loopStep_assistant h.running hl])
    | cascade => exact .inl (by rw [loopStep_cascade h.running hl])
  refine ⟨⟨hsync, hrun, halive, ?_⟩, hadds⟩
  rcases h.place with hdue | ⟨hlt, hat⟩
  · rcases hdue.loopStep h.sync h.running h.alive with ⟨hl, hn, hat⟩ | hdue'
    · refine .inr ⟨?_, hat⟩
      rw [loopStep_tick h.running hl]
      grind
    · exact .inl hdue'
  · refine .inr ⟨?_, ?_⟩
    · rcases hadds with hf | ⟨tasks, hf, -⟩
      all_goals grind
    · exact at_nowhere_loopStep h.running h.alive hat

theorem Pending.step (h : s.Pending i n) {op : WheelOp ι} (hop : op.task? ≠ some i) :
    (s.step op).Pending i n ∧ s.Adds (s.step op) i n := by
  rcases loop_or_other s hop with rfl | ⟨hl, hi⟩
  · exact h.loopStep
  · refine ⟨⟨hl.sync h.sync, hl.running h.running, by rw [hi.task]; exact h.alive, ?_⟩,
      .inl hl.fired⟩
    rcases h.place with hdue | ⟨hlt, hat⟩
    · exact .inl (hdue.of_same hl hi)
    · exact .inr ⟨by rw [hl.fired]; exact hlt, hi.place _ hat⟩

theorem Pending.run (h : s.Pending i n) {later : List (WheelOp ι)} (ha : Apart i later) :
    ∀ k tasks, s.fired.length ≤ k → (later.foldl WheelSys.step s).fired[k]? = some tasks →
      tasks.count i = if k = n then 1 else 0 := by
  refine (List.foldlRecOn later WheelSys.step (b := s) (motive := fun u => u.Pending i n ∧
    ∀ k tasks, s.fired.length ≤ k → u.fired[k]? = some tasks →
      tasks.count i = if k = n then 1 else 0) ⟨h, ?_⟩ ?_).2
  · grind
  · rintro u ⟨hu, hlog⟩ op hop
    obtain ⟨hu', hadds⟩ := hu.step (ha op hop)
    rcases hadds with hf | ⟨new, hf, hnew⟩
    all_goals grind

end

theorem run_phase {s : WheelSys ι} (hrun : s.wheel.running = true) (later : List (WheelOp ι)) :
    4 * s.fired.length + phase s.loop + later.count .loop ≤
      4 * (later.foldl step s).fired.length + phase (later.foldl step s).loop := by
  induction later generalizing s with
  | nil => simp
  | cons op later ih =>
    rw [foldl_cons, count_cons]
    by_cases hop : op = .loop
    · subst hop
      have hstep := loopStep_phase hrun
      have := ih (loopStep_running hrun)
      rw [step]
      grind
    · have hsame := step_sameLoop s hop
      have := ih (hsame.running hrun)
      rw [hsame.fired, hsame.loop] at this
      simpa [hop] using this

/-- A task that is pending for tick `n` fires there. -/
theorem Pending.firesAt {s : WheelSys ι} {i : ι} {n : Nat} (h : s.Pending i n) : s.FiresAt i n where
  once := fun _ ha k hk tasks htasks => h.run ha k tasks hk htasks
  comes := by
    intro later hn
    have hphase := run_phase h.running later
    have hlast : phase (later.foldl WheelSys.step s).loop ≤ 3 := by
      cases (later.foldl WheelSys.step s).loop <;> decide
    omega

theorem FiresAt.unique {s : WheelSys ι} {i : ι} {n n' : Nat} (h : s.FiresAt i n)
    (h' : s.FiresAt i n') (hn : s.fired.length ≤ n) : n = n' := by
  have hcomes := h.comes (List.replicate (4 * (n + 1)) .loop) (by rw [count_replicate_self]; omega)
  have ha := apart_loops i (4 * (n + 1))
  have htasks := getElem?_eq_getElem hcomes
  have h1 := h.once _ ha n hn _ htasks
  rw [h'.once _ ha n hn _ htasks, if_pos rfl] at h1
  grind

end WheelSys

end Timer
