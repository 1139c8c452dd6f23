import CyberRT.Data.CacheBuffer

/-!
# `CRoutine` and its wakeup (`croutine/croutine.{h,cc}`, `scheduler/policy`,
`scheduler/processor.cc`)

A routine has a state and a one-shot flag `updated_`: clear means that an update is pending.
`NotifyProcessor` reads the state and clears the flag of a waiting routine; a processor that looks
for work sets the flag and, if it was clear, makes a waiting routine ready (`UpdateState`). What
processors do to a routine is serial, under its `lock_`; so a routine has one `Holder`.
-/

namespace Croutine

inductive RoutineState where
  | ready
  | finished
  | sleep
  | ioWait
  | dataWait
  deriving DecidableEq

def RoutineState.waits : RoutineState → Bool
  | .dataWait | .ioWait => true
  | .ready | .finished | .sleep => false

variable {state : RoutineState}

theorem RoutineState.waits_eq_false (hd : state ≠ .dataWait)
    (hi : state ≠ .ioWait) : state.waits = false := by
  cases state with
  | dataWait => exact absurd rfl hd
  | ioWait => exact absurd rfl hi
  | ready | finished | sleep => rfl

/-- Where the holder of a routine's `lock_` is: nobody has it; a processor has acquired it; it has
done the `test_and_set` of `UpdateState`, which found an update pending or not; the routine runs; it
has swapped back and is to be released. -/
inductive Holder where
  | none
  | acquired
  | tested (pending : Bool)
  | running
  | yielded
  deriving DecidableEq

structure CRoutine where
  state : RoutineState
  updated : Bool
  holder : Holder

namespace CRoutine

def new : CRoutine := ⟨.ready, true, .none⟩

def setState (r : CRoutine) (state : RoutineState) : CRoutine := { r with state }

def setUpdateFlag (r : CRoutine) : CRoutine := { r with updated := false }

def swapOut (r : CRoutine) : CRoutine := { r with holder := .yielded }

/-- The next step of a processor that holds the routine or finds it free: `Acquire`, the
`test_and_set` of `UpdateState`, its change of state with what `NextRoutine` and `Resume` do then,
and `Release`. -/
def processor (r : CRoutine) : CRoutine :=
  match r.holder with
  | .none => { r with holder := .acquired }
  | .acquired => { r with updated := true, holder := .tested (!r.updated) }
  | .tested pending =>
    let state := if pending && r.state.waits then .ready else r.state
    { r with state, holder := if state = .ready then .running else .none }
  | .running => r
  | .yielded => { r with holder := .none }

def Pending (r : CRoutine) : Prop := r.updated = false ∨ r.holder = .tested true
deriving Decidable

def Alert (r : CRoutine) : Prop := r.state.waits = false ∨ r.Pending

def Parked (r : CRoutine) : Prop := r.holder ≠ .running
deriving Decidable

/-! ## What the steps keep -/

variable {r : CRoutine}

@[simp] theorem processor_running (h : r.holder = .running) : r.processor = r := by
  simp [processor, h]

theorem Alert.processor (h : r.Alert) : r.processor.Alert := by
  obtain ⟨state, updated, holder⟩ := r
  cases holder with
  | none | running | yielded =>
    rcases h with h | h | h
    · exact .inl h
    · exact .inr (.inl h)
    · cases h
  | acquired =>
    rcases h with h | h | h
    · exact .inl h
    · obtain rfl : updated = false := h
      exact .inr (.inr rfl)
    · cases h
  | tested pending =>
    rcases h with h | h | h
    · refine .inl ?_
      have hw : state.waits = false := h
      simp [CRoutine.processor, hw]
    · exact .inr (.inl h)
    · obtain rfl : pending = true := by simpa using h
      refine .inl ?_
      cases state <;> rfl

theorem Alert.swapOut (h : r.Alert) (hr : r.holder = .running) : r.swapOut.Alert := by
  rcases h with h | h | h
  · exact .inl h
  · exact .inr (.inl h)
  · rw [hr] at h
    cases h

theorem pending_setUpdateFlag (r : CRoutine) : r.setUpdateFlag.Pending := .inl rfl

theorem processor_state (r : CRoutine) :
    r.processor.state = .ready ∨ r.processor.state = r.state := by
  obtain ⟨state, updated, holder⟩ := r
  cases holder with
  | none | acquired | running | yielded => exact .inr rfl
  | tested pending =>
    by_cases hp : (pending && state.waits) = true
    · exact .inl (by simp [processor, hp])
    · exact .inr (by simp [processor, hp])

theorem processor_of_not_pending (h : ¬ r.Pending) :
    ¬ r.processor.Pending ∧ r.processor.state = r.state := by
  obtain ⟨state, updated, holder⟩ := r
  have hu : updated = true := by
    simp only [Pending, not_or, Bool.not_eq_false] at h
    exact h.1
  subst hu
  cases holder with
  | none | acquired | running | yielded => simp [Pending, processor]
  | tested pending =>
    obtain rfl : pending = false := by simpa [Pending] using h
    simp only [Pending, processor, Bool.false_and, if_neg Bool.false_ne_true]
    split <;> simp

theorem processor_state_ne (hready : .ready ≠ state)
    (h : r.state ≠ state) : r.processor.state ≠ state := by
  rcases r.processor_state with hs | hs
  · rwa [hs]
  · rwa [hs]

theorem ready_of_resumed (h : r.Parked) (hr : r.processor.holder = .running) :
    r.processor.state = .ready := by
  obtain ⟨state, updated, holder⟩ := r
  cases holder with
  | none | acquired | yielded => simp [processor] at hr
  | running => exact absurd rfl h
  | tested pending =>
    refine Decidable.byContradiction fun hne => ?_
    simp only [processor] at hr hne
    rw [if_neg hne] at hr
    cases hr

end CRoutine

/-! ## Notifying -/

/-- Where a `NotifyProcessor` is: before it compares the state with `DATA_WAIT`, before it compares
it with `IO_WAIT`, before `SetUpdateFlag`, or past that. -/
inductive NotifyPc where
  | readDataWait
  | readIoWait
  | setFlag
  | done
  deriving DecidableEq

def notifyProcessor (pc : NotifyPc) (r : CRoutine) : NotifyPc × CRoutine :=
  match pc with
  | .readDataWait => (if r.state = .dataWait then .setFlag else .readIoWait, r)
  | .readIoWait => (if r.state = .ioWait then .setFlag else .done, r)
  | .setFlag => (.done, r.setUpdateFlag)
  | .done => (.done, r)

theorem mem_set_or_eq {α : Type*} {l : List α} {k : Nat} {x y : α} (hk : l[k]? = some y)
    (hx : x ∈ l) (z : α) : x = y ∨ x ∈ l.set k z := by
  obtain ⟨i, hi⟩ := List.mem_iff_getElem?.1 hx
  by_cases hki : k = i
  · subst hki
    exact .inl (Option.some.inj (hi.symm.trans hk))
  · exact .inr (List.mem_iff_getElem?.2 ⟨i, by rw [List.getElem?_set_ne hki, hi]⟩)

/-!
## The routine of a data visitor (`croutine/routine_factory.h`, `data/data_dispatcher.h`)

The routine sets its state to `DATA_WAIT`, tries to fetch a message, and yields: as ready after a
message, waiting without one.
-/

open Data

/-- Where the routine's loop is: at its head; in `DATA_WAIT` before `TryFetch`; with a message,
before `set_state(READY)` of `Yield(READY)`; before the swap of that; without a message, before the
swap of `Yield()`. -/
inductive DataPc where
  | top
  | fetching
  | fetched
  | readySet
  | failed

structure DataSys (T : Type*) where
  routine : CRoutine
  pc : DataPc
  visitor : DataVisitor T
  notifiers : List NotifyPc

inductive DataStep (T : Type*) where
  | dispatch (m : T)
  | notify (k : Nat)
  | processor
  | routine

namespace DataSys

variable {T : Type*}

def init [Inhabited T] (size : Nat) : DataSys T := ⟨.new, .top, ⟨.new size, 0⟩, []⟩

variable (s : DataSys T)

def dispatch (m : T) : DataSys T :=
  { s with
    visitor := { s.visitor with buffer := s.visitor.buffer.fill m }
    notifiers := s.notifiers ++ [.readDataWait] }

def notify (k : Nat) : DataSys T :=
  match s.notifiers[k]? with
  | none => s
  | some pc =>
    let (pc, routine) := notifyProcessor pc s.routine
    { s with routine, notifiers := s.notifiers.set k pc }

def runRoutine : DataSys T :=
  if s.routine.holder ≠ .running then s
  else
    match s.pc with
    | .top => { s with routine := s.routine.setState .dataWait, pc := .fetching }
    | .fetching =>
      match s.visitor.tryFetch with
      | (some _, visitor) => { s with visitor, pc := .fetched }
      | (none, visitor) => { s with visitor, pc := .failed }
    | .fetched => { s with routine := s.routine.setState .ready, pc := .readySet }
    | .readySet | .failed => { s with routine := s.routine.swapOut, pc := .top }

def step : DataStep T → DataSys T
  | .dispatch m => s.dispatch m
  | .notify k => s.notify k
  | .processor => { s with routine := s.routine.processor }
  | .routine => s.runRoutine

def Unfetched : Prop := s.visitor.tryFetch.1.isSome

/-- **The lost wakeup**: the routine is parked in `DATA_WAIT`, no update is pending, no notifier is
between its `Fill` and the end of its notification, and there is a message to fetch. -/
def Stuck : Prop :=
  s.routine.Parked ∧ s.routine.state = .dataWait ∧ ¬ s.routine.Pending ∧
    (∀ pc ∈ s.notifiers, pc = .done) ∧ s.Unfetched

end DataSys

end Croutine
