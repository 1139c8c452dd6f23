import CyberRT.Base.AtomicRWLock

/-!
# Readers and writers of an `AtomicRWLock`

A reader counts itself in only with a number that was not negative when it was tested (`ReadOk`) and
is still there.
-/

namespace Base.RWLockSystem

open Lib

variable {ι : Type*} [Fintype ι] {s : RWLockSystem ι} {i : ι}

def ReadOk : RWLockPc → Prop
  | .readCas n => 0 ≤ n.toInt
  | _ => True

theorem nonneg_of_not_readBlocked {l : AtomicRWLock} {n : Int32} (h : l.readBlocked n = false) :
    0 ≤ n.toInt := by
  rw [AtomicRWLock.readBlocked, Bool.or_eq_false_iff] at h
  have hlt : ¬ n < 0 := of_decide_eq_false h.1
  rw [Int32.lt_iff_toInt_lt, Int32.toInt_zero] at hlt
  exact Int.not_lt.1 hlt

structure Inv (s : RWLockSystem ι) : Prop where
  consistent : s.Consistent
  reads : ∀ i, ReadOk (s.pcs i)

theorem Inv.init (writeFirst : Bool) : Inv (init writeFirst : RWLockSystem ι) where
  consistent := by
    constructor
    · refine .inr ⟨count_eq_zero fun _ => rfl, ?_⟩
      rw [count_eq_zero fun _ => rfl]
      rfl
    · rw [count_eq_zero fun _ => rfl]
      rfl
  reads _ := trivial

variable [DecidableEq ι]

section
variable (h : Inv s) {old : RWLockPc}
include h

theorem Inv.put (i : ι) (pc : RWLockPc) (l : AtomicRWLock) (hpc : ReadOk pc)
    (hnum : ∀ readers writers : Nat,
      readers + (s.pcs i).reads.toNat = count RWLockPc.reads s.pcs + pc.reads.toNat →
      writers + (s.pcs i).writes.toNat = count RWLockPc.writes s.pcs + pc.writes.toNat →
        Agrees l.lockNum.toInt readers writers) (hwait : ∀ waits : Nat,
      waits + (s.pcs i).waits.toNat = count RWLockPc.waits s.pcs + pc.waits.toNat →
        l.writeLockWaitNum.toNat = waits) : Inv (s.put i (pc, l)) where
  consistent := ⟨hnum _ _ (count_update _ _ _ _) (count_update _ _ _ _),
    hwait _ (count_update _ _ _ _)⟩
  reads k := by
    by_cases hk : k = i
    · subst hk
      simpa only [RWLockSystem.put, Function.update_self] using hpc
    · simpa only [RWLockSystem.put, Function.update_of_ne hk] using h.reads k

theorem Inv.putNum (hold : s.pcs i = old) (pc : RWLockPc) (num : Int32)
    (hpc : ReadOk pc) (hwaits : pc.waits = old.waits) (hnum : ∀ readers writers : Nat,
      readers + old.reads.toNat = count RWLockPc.reads s.pcs + pc.reads.toNat →
      writers + old.writes.toNat = count RWLockPc.writes s.pcs + pc.writes.toNat →
        Agrees num.toInt readers writers) : Inv (s.put i (pc, { s.lock with lockNum := num })) := by
  subst hold
  refine h.put i pc _ hpc hnum fun waits hwt => ?_
  rw [hwaits, Nat.add_right_cancel_iff] at hwt
  rw [hwt]
  exact h.consistent.writeLockWaitNum

theorem Inv.move (hold : s.pcs i = old) (pc : RWLockPc)
    (hpc : ReadOk pc) (hreads : pc.reads = old.reads) (hwrites : pc.writes = old.writes)
    (hwaits : pc.waits = old.waits) : Inv (s.put i (pc, s.lock)) := by
  refine h.putNum hold pc s.lock.lockNum hpc hwaits fun readers writers hr hw => ?_
  rw [hreads, Nat.add_right_cancel_iff] at hr
  rw [hwrites, Nat.add_right_cancel_iff] at hw
  rw [hr, hw]
  exact h.consistent.lockNum

theorem Inv.stay (i : ι) : Inv (s.put i (s.pcs i, s.lock)) :=
  h.move rfl _ (h.reads i) rfl rfl rfl

theorem Inv.readLock (hcard : Fintype.card ι < 2 ^ 31) (hpc : s.pcs i = .readCas s.lock.lockNum) :
    Inv (s.put i (.reading, { s.lock with lockNum := s.lock.lockNum + 1 })) := by
  have hlt : count RWLockPc.reads s.pcs < Fintype.card ι :=
    count_lt_card (show (s.pcs i).reads = false by rw [hpc]; rfl)
  have hpos := h.reads i
  rw [hpc] at hpos
  have hnum := h.consistent.lockNum
  have hmax : s.lock.lockNum.toInt < 2 ^ 31 - 1 := by
    unfold Agrees at hnum
    omega
  exact h.putNum hpc _ _ trivial rfl fun readers writers hr hw => hnum.read hpos hmax hr hw

theorem Inv.writeLock (hpc : s.pcs i = .writeCas) (hfree : s.lock.lockNum = 0) :
    Inv (s.put i (.writeEnter, { s.lock with lockNum := -1 })) := by
  have hnum := h.consistent.lockNum
  rw [hfree] at hnum
  exact h.putNum hpc _ _ trivial rfl fun readers writers hr hw => hnum.write hr hw

theorem Inv.readUnlock (hpc : s.pcs i = .reading) :
    Inv (s.put i (.idle, { s.lock with lockNum := s.lock.lockNum - 1 })) :=
  h.putNum hpc _ _ trivial rfl fun readers writers hr hw => h.consistent.lockNum.readUnlock hr hw

theorem Inv.writeUnlock (hpc : s.pcs i = .writing) :
    Inv (s.put i (.idle, { s.lock with lockNum := s.lock.lockNum + 1 })) :=
  h.putNum hpc _ _ trivial rfl fun readers writers hr hw => h.consistent.lockNum.writeUnlock hr hw

theorem Inv.announce (hcard : Fintype.card ι < 2 ^ 31) (hpc : s.pcs i = .writeWait) :
    Inv (s.put i (.writeCas, { s.lock with writeLockWaitNum := s.lock.writeLockWaitNum + 1 })) := by
  have hwait := h.consistent.writeLockWaitNum
  have hle := count_le_card RWLockPc.waits s.pcs
  refine h.put i _ _ trivial (fun readers writers hr hw => ?_) fun waits hwt => ?_
  · simp only [hpc, RWLockPc.reads, RWLockPc.writes, Bool.toNat_false, Nat.add_zero] at hr hw
    rw [hr, hw]
    exact h.consistent.lockNum
  · simp only [hpc, RWLockPc.waits, Bool.toNat_false, Bool.toNat_true] at hwt
    rw [UInt32.toNat_add, hwait, Nat.mod_eq_of_lt (by simp; omega)]
    exact hwt.symm

theorem Inv.enter (hpc : s.pcs i = .writeEnter) :
    Inv (s.put i (.writing, { s.lock with writeLockWaitNum := s.lock.writeLockWaitNum - 1 })) := by
  have hwait := h.consistent.writeLockWaitNum
  have hpos : 0 < count RWLockPc.waits s.pcs :=
    count_pos (show (s.pcs i).waits = true by rw [hpc]; rfl)
  refine h.put i _ _ trivial (fun readers writers hr hw => ?_) fun waits hwt => ?_
  · simp only [hpc, RWLockPc.reads, RWLockPc.writes, Nat.add_right_cancel_iff] at hr hw
    rw [hr, hw]
    exact h.consistent.lockNum
  · simp only [hpc, RWLockPc.waits, Bool.toNat_false, Bool.toNat_true] at hwt
    have hone : (1 : UInt32) ≤ s.lock.writeLockWaitNum := by
      rw [UInt32.le_iff_toNat_le, hwait]
      exact hpos
    rw [UInt32.toNat_sub_of_le _ _ hone, hwait]
    simp only [UInt32.toNat_one]
    omega

theorem Inv.threadStep (hcard : Fintype.card ι < 2 ^ 31) (i : ι) (weak : Bool) :
    Inv (s.put i (s.lock.threadStep weak (s.pcs i))) := by
  cases hpc : s.pcs i with
  | readLoad => exact h.move hpc (.readTest s.lock.lockNum) trivial rfl rfl rfl
  | readTest n =>
    unfold AtomicRWLock.threadStep
    dsimp only
    split
    · exact h.move hpc .readLoad trivial rfl rfl rfl
    · rename_i htest
      have hpos := nonneg_of_not_readBlocked (Bool.eq_false_of_not_eq_true htest)
      exact h.move hpc (.readCas n) hpos rfl rfl rfl
  | readCas n =>
    unfold AtomicRWLock.threadStep
    dsimp only
    split
    · rename_i hcas
      obtain ⟨rfl, -⟩ := hcas
      exact h.readLock hcard hpc
    · exact h.move hpc (.readTest s.lock.lockNum) trivial rfl rfl rfl
  | writeWait => exact h.announce hcard hpc
  | writeCas =>
    unfold AtomicRWLock.threadStep
    dsimp only
    split
    · rename_i hcas
      exact h.writeLock hpc hcas.1
    · rw [← hpc]
      exact h.stay i
  | writeEnter => exact h.enter hpc
  | idle | reading | writing =>
    unfold AtomicRWLock.threadStep
    dsimp only
    rw [← hpc]
    exact h.stay i

theorem Inv.unlock (i : ι) : Inv (s.put i (s.lock.unlock (s.pcs i))) := by
  cases hpc : s.pcs i with
  | reading => exact h.readUnlock hpc
  | writing => exact h.writeUnlock hpc
  | _ => simpa only [hpc, AtomicRWLock.unlock] using h.stay i

theorem Inv.step (hcard : Fintype.card ι < 2 ^ 31) (ev : RWLockEvent ι) : Inv (s.step ev) := by
  cases ev with
  | callReadLock i =>
    simp only [RWLockSystem.step]
    split
    · rename_i hpc
      exact h.move hpc .readLoad trivial rfl rfl rfl
    · exact h
  | callWriteLock i =>
    simp only [RWLockSystem.step]
    split
    · rename_i hpc
      exact h.move hpc .writeWait trivial rfl rfl rfl
    · exact h
  | step i weak => exact h.threadStep hcard i weak
  | unlock i => exact h.unlock i

end

/-- **One writer or any number of readers.** Whatever the threads, fewer than `2^31`, and the order
of their steps, with `write_first_` or without: at any moment the numbers of the lock tell who holds
it and how many writers wait. -/
theorem always_consistent (hcard : Fintype.card ι < 2 ^ 31) (writeFirst : Bool)
    (evs : List (RWLockEvent ι)) :
    Always RWLockSystem.step Consistent (RWLockSystem.init writeFirst) evs := by
  apply always_of_inv (Inv.init writeFirst)
  · intro s ev h
    exact h.step hcard ev
  · intro s h
    exact h.consistent

def readersThenWriter : List (RWLockEvent (Fin 3)) :=
  [.callReadLock 0, .callReadLock 1] ++ List.replicate 3 (.step 0 false) ++
    List.replicate 3 (.step 1 false) ++ List.replicate 2 (.step 1 false) ++
    [.callWriteLock 2, .step 2 false, .step 2 false, .unlock 0, .unlock 1, .step 2 true,
      .step 2 false]

theorem always_consistent_readersThenWriter :
    Fintype.card (Fin 3) < 2 ^ 31 ∧
      Always RWLockSystem.step Consistent (RWLockSystem.init true) readersThenWriter :=
  ⟨by decide, always_consistent (by decide) true readersThenWriter⟩

end Base.RWLockSystem
