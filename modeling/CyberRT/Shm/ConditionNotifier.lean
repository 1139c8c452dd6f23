import Mathlib.Logic.Function.Basic

/-!
# `ConditionNotifier` (`transport/shm/condition_notifier.{h,cc}`)

The notifier is a ring of `kBufLength` slots in shared memory, each with an info and the sequence
number of the notification it is from, and the next sequence number to give out.
-/

namespace Shm

open Function

def kBufLength : Nat := 4096

structure Indicator (I : Type*) where
  nextSeq : Nat
  infos : Nat → I
  seqs : Nat → Nat

def Indicator.fresh {I : Type*} [Inhabited I] : Indicator I := ⟨0, fun _ => default, fun _ => 0⟩

def Indicator.put {I : Type*} (ind : Indicator I) (info : I) : Indicator I :=
  let seq := ind.nextSeq
  let idx := seq % kBufLength
  ⟨seq + 1, update ind.infos idx info, update ind.seqs idx seq⟩

structure ConditionNotifier (I : Type*) where
  indicator : Indicator I
  nextSeq : Nat
  isShutdown : Bool

namespace ConditionNotifier

variable {I : Type*}

def attach (indicator : Indicator I) : ConditionNotifier I := ⟨indicator, indicator.nextSeq, false⟩

variable (c : ConditionNotifier I)

def notify (info : I) : Bool × ConditionNotifier I :=
  if c.isShutdown then (false, c) else (true, { c with indicator := c.indicator.put info })

def listenPass : Option (I × ConditionNotifier I) :=
  if c.indicator.nextSeq ≠ c.nextSeq then
    let idx := c.nextSeq % kBufLength
    let actualSeq := c.indicator.seqs idx
    if c.nextSeq ≤ actualSeq then
      some (c.indicator.infos idx, { c with nextSeq := actualSeq + 1 })
    else none
  else none

def listenLoop (c : ConditionNotifier I) (timeoutUs : Int) : Option I × ConditionNotifier I :=
  if c.isShutdown then (none, c)
  else
    match c.listenPass with
    | some (info, c) => (some info, c)
    | none => if 0 < timeoutUs then c.listenLoop (timeoutUs - 50) else (none, c)
termination_by timeoutUs.toNat
decreasing_by omega

def listen (timeoutMs : Int) : Option I × ConditionNotifier I :=
  c.listenLoop (timeoutMs * 1000)

end ConditionNotifier

/-! ## Runs of whole calls -/

inductive NotifierOp (I : Type*) where
  | notify (info : I)
  | listen (timeoutMs : Int)

/-- A notifier, the infos of all notifications so far by sequence number, and what it returned with
the sequence numbers it consumed, oldest first. -/
structure NotifierRun (I : Type*) where
  notifier : ConditionNotifier I
  log : List I
  returned : List (Nat × I)

namespace NotifierRun

variable {I : Type*}

def start [Inhabited I] (hist : List I) : NotifierRun I :=
  ⟨.attach (hist.foldl Indicator.put .fresh), hist, []⟩

def step (s : NotifierRun I) : NotifierOp I → NotifierRun I
  | .notify info =>
    match s.notifier.notify info with
    | (true, notifier) => { s with notifier, log := s.log ++ [info] }
    | (false, notifier) => { s with notifier }
  | .listen timeoutMs =>
    match s.notifier.listen timeoutMs with
    | (some info, notifier) =>
      { s with notifier, returned := s.returned ++ [(notifier.nextSeq - 1, info)] }
    | (none, notifier) => { s with notifier }

/-- **What a `Listen` is to do**: nothing at the end of the log; else it returns the newest
notification in the slot of its position, and goes behind that. -/
def Resumes (s : NotifierRun I) (r : Option I × ConditionNotifier I) : Prop :=
  (s.notifier.nextSeq = s.log.length ∧ r = (none, s.notifier)) ∨
  ∃ a info, s.notifier.nextSeq ≤ a ∧ a < s.log.length ∧
    a % kBufLength = s.notifier.nextSeq % kBufLength ∧ s.log.length ≤ a + kBufLength ∧
    s.log[a]? = some info ∧ r = (some info, { s.notifier with nextSeq := a + 1 })

def LagsLittle (s : NotifierRun I) : NotifierOp I → Prop
  | .listen _ => s.log.length ≤ s.notifier.nextSeq + kBufLength
  | .notify _ => True

end NotifierRun

/-! ## The calls a step at a time -/

/-- How far a `Notify` call is: it has its sequence number, its info is stored, its sequence number
is stored too. -/
inductive NotifyPhase where
  | taken
  | infoStored
  | done
  deriving DecidableEq

structure NotifyCall (I : Type*) where
  info : I
  phase : NotifyPhase

/-- Where the listener is: before its load of `next_seq`; behind `next_seq`, before its load of the
slot's sequence; past that, before its load of the info of slot `idx`. -/
inductive ListenPhase where
  | idle
  | behind
  | matched (idx : Nat)
  deriving DecidableEq

/-- The indicator, the `Notify` calls by sequence number, the listener, and what it returned so far
with the sequence numbers it consumed, latest first. -/
structure NotifierSys (I : Type*) where
  indicator : Indicator I
  calls : Nat → Option (NotifyCall I)
  nextSeq : Nat
  phase : ListenPhase
  returned : List (Nat × I)

inductive NotifierStep (I : Type*) where
  | take (info : I)
  | storeInfo (n : Nat)
  | storeSeq (n : Nat)
  | listen

namespace NotifierSys

variable {I : Type*}

def init [Inhabited I] : NotifierSys I := ⟨.fresh, fun _ => none, 0, .idle, []⟩

variable (s : NotifierSys I)

def take (info : I) : NotifierSys I :=
  { s with
    indicator := { s.indicator with nextSeq := s.indicator.nextSeq + 1 }
    calls := update s.calls s.indicator.nextSeq (some ⟨info, .taken⟩) }

def storeInfo (n : Nat) : NotifierSys I :=
  match s.calls n with
  | some ⟨info, .taken⟩ =>
    { s with
      indicator := { s.indicator with
        infos := update s.indicator.infos (n % kBufLength) info }
      calls := update s.calls n (some ⟨info, .infoStored⟩) }
  | _ => s

def storeSeq (n : Nat) : NotifierSys I :=
  match s.calls n with
  | some ⟨info, .infoStored⟩ =>
    { s with
      indicator := { s.indicator with
        seqs := update s.indicator.seqs (n % kBufLength) n }
      calls := update s.calls n (some ⟨info, .done⟩) }
  | _ => s

/-- The next step of the listener. -/
def listen : NotifierSys I :=
  match s.phase with
  | .idle => if s.indicator.nextSeq ≠ s.nextSeq then { s with phase := .behind } else s
  | .behind =>
    let idx := s.nextSeq % kBufLength
    let actualSeq := s.indicator.seqs idx
    if s.nextSeq ≤ actualSeq then { s with nextSeq := actualSeq, phase := .matched idx }
    else { s with phase := .idle }
  | .matched idx =>
    { s with
      nextSeq := s.nextSeq + 1
      phase := .idle
      returned := (s.nextSeq, s.indicator.infos idx) :: s.returned }

def step : NotifierStep I → NotifierSys I
  | .take info => s.take info
  | .storeInfo n => s.storeInfo n
  | .storeSeq n => s.storeSeq n
  | .listen => s.listen

def passed (n : Nat) : Option I := (s.calls n).map (·.info)

def phaseOf (n : Nat) : Option NotifyPhase := (s.calls n).map (·.phase)

/-- **What the listener is to return**: the infos of the calls whose numbers it consumed, each
number once. -/
def Faithful : Prop :=
  (∀ r ∈ s.returned, s.passed r.1 = some r.2) ∧ (s.returned.map (·.1)).Nodup

/-- The condition on a step: the two stores of a `Notify` call into a slot and the two loads with
which the listener takes from a slot are not interleaved with one another, and the listener does not
take from the first slot before the first call has stored its info. -/
def ExclusiveSlot : NotifierStep I → Prop
  | .storeInfo n => s.phaseOf n = some .taken →
    s.phase ≠ .matched (n % kBufLength) ∧
      ∀ m < s.indicator.nextSeq, m % kBufLength = n % kBufLength → s.phaseOf m ≠ some .infoStored
  | .listen => s.phase = .behind →
    s.nextSeq ≤ s.indicator.seqs (s.nextSeq % kBufLength) →
      s.phaseOf (s.indicator.seqs (s.nextSeq % kBufLength)) ≠ some .taken ∧
        ∀ m < s.indicator.nextSeq, m % kBufLength = s.nextSeq % kBufLength →
          s.phaseOf m = some .infoStored → m = s.indicator.seqs (s.nextSeq % kBufLength)
  | _ => True

instance (s : NotifierSys I) (a : NotifierStep I) : Decidable (s.ExclusiveSlot a) := by
  unfold ExclusiveSlot
  split <;> infer_instance

instance [DecidableEq I] (s : NotifierSys I) : Decidable s.Faithful :=
  inferInstanceAs (Decidable (_ ∧ _))

end NotifierSys

end Shm
