import CyberRT.Lib.Locks
import CyberRT.Lib.Run

/-!
# `AtomicRWLock` (`base/atomic_rw_lock.h`)

A spin lock: `lock_num_` is the number of the readers, or -1 for a writer; with `write_first_`
readers hold back while `write_lock_wait_num_` says that a writer waits.
-/

namespace Base

structure AtomicRWLock where
  writeLockWaitNum : UInt32
  lockNum : Int32
  writeFirst : Bool

/-- Where a thread is. In `ReadLock`: before a load of `lock_num_`; before the test of the inner
loop; before the compare-exchange. In `WriteLock`: before the increment of `write_lock_wait_num_`,
the compare-exchange and the decrement. Else: with the lock, before the unlock; or without it. -/
inductive RWLockPc
  | idle
  | readLoad
  | readTest (lockNum : Int32)
  | readCas (lockNum : Int32)
  | reading
  | writeWait
  | writeCas
  | writeEnter
  | writing
  deriving DecidableEq

namespace RWLockPc

def reads : RWLockPc → Bool
  | .reading => true
  | _ => false

def writes : RWLockPc → Bool
  | .writeEnter | .writing => true
  | _ => false

def waits : RWLockPc → Bool
  | .writeCas | .writeEnter => true
  | _ => false

end RWLockPc

namespace AtomicRWLock

def RW_LOCK_FREE : Int32 := 0
def WRITE_EXCLUSIVE : Int32 := -1

def init (writeFirst : Bool) : AtomicRWLock := ⟨0, 0, writeFirst⟩

variable (l : AtomicRWLock)

/-- The condition of the inner loop of `ReadLock`; the number of waiting writers is loaded only
if `lock_num` is not negative. -/
def readBlocked (lockNum : Int32) : Bool :=
  decide (lockNum < RW_LOCK_FREE) || (l.writeFirst && decide (0 < l.writeLockWaitNum))

def threadStep (weak : Bool) : RWLockPc → RWLockPc × AtomicRWLock
  | .readLoad => (.readTest l.lockNum, l)
  | .readTest n => (if l.readBlocked n then .readLoad else .readCas n, l)
  | .readCas n =>
    if l.lockNum = n ∧ weak = false then (.reading, { l with lockNum := n + 1 })
    else (.readTest l.lockNum, l)
  | .writeWait => (.writeCas, { l with writeLockWaitNum := l.writeLockWaitNum + 1 })
  | .writeCas =>
    if l.lockNum = RW_LOCK_FREE ∧ weak = false then
      (.writeEnter, { l with lockNum := WRITE_EXCLUSIVE })
    else (.writeCas, l)
  | .writeEnter => (.writing, { l with writeLockWaitNum := l.writeLockWaitNum - 1 })
  | pc => (pc, l)

def unlock : RWLockPc → RWLockPc × AtomicRWLock
  | .reading => (.idle, { l with lockNum := l.lockNum - 1 })
  | .writing => (.idle, { l with lockNum := l.lockNum + 1 })
  | pc => (pc, l)

end AtomicRWLock

variable {ι : Type*}

structure RWLockSystem (ι : Type*) where
  lock : AtomicRWLock
  pcs : ι → RWLockPc

/-- A thread without the lock calls `ReadLock` or `WriteLock`; one in a call makes its next step;
one with the lock gives it back. -/
inductive RWLockEvent (ι : Type*) where
  | callReadLock (i : ι)
  | callWriteLock (i : ι)
  | step (i : ι) (weak : Bool)
  | unlock (i : ι)

namespace RWLockSystem

def init (writeFirst : Bool) : RWLockSystem ι := ⟨.init writeFirst, fun _ => .idle⟩

variable [DecidableEq ι]

def put (s : RWLockSystem ι) (i : ι) (r : RWLockPc × AtomicRWLock) : RWLockSystem ι :=
  ⟨r.2, Function.update s.pcs i r.1⟩

def step (s : RWLockSystem ι) : RWLockEvent ι → RWLockSystem ι
  | .callReadLock i => if s.pcs i = .idle then s.put i (.readLoad, s.lock) else s
  | .callWriteLock i => if s.pcs i = .idle then s.put i (.writeWait, s.lock) else s
  | .step i weak => s.put i (s.lock.threadStep weak (s.pcs i))
  | .unlock i => s.put i (s.lock.unlock (s.pcs i))

/-- **The numbers tell who holds the lock**: one writer and no reader, and `lock_num_` is -1, or no
writer, and it is the number of readers; `write_lock_wait_num_` is the number of threads between its
increment and its decrement. -/
structure Consistent [Fintype ι] (s : RWLockSystem ι) : Prop where
  lockNum : Lib.Agrees s.lock.lockNum.toInt (Lib.count RWLockPc.reads s.pcs)
    (Lib.count RWLockPc.writes s.pcs)
  writeLockWaitNum : s.lock.writeLockWaitNum.toNat = Lib.count RWLockPc.waits s.pcs

end RWLockSystem

end Base
