import Mathlib.Algebra.BigOperators.Group.Finset.Piecewise
import Mathlib.Data.Fintype.Card

/-!
# A reader-writer lock in one number

Threads are places in their programs, `ι → P`; `count p pcs` of them are at a place with `p`.
-/

namespace Lib

open Function Finset

variable {ι P : Type*} [Fintype ι] {pcs : ι → P} {p : P → Bool}

def count (p : P → Bool) (pcs : ι → P) : Nat := (univ.filter fun i => p (pcs i) = true).card

theorem count_le_card (p : P → Bool) (pcs : ι → P) : count p pcs ≤ Fintype.card ι :=
  card_le_univ _

theorem count_pos {i : ι} (h : p (pcs i) = true) : 0 < count p pcs :=
  card_pos.2 ⟨i, by simpa using h⟩

theorem count_lt_card {i : ι} (h : p (pcs i) = false) : count p pcs < Fintype.card ι :=
  card_lt_univ_of_notMem (x := i) (by simp [h])

theorem count_eq_zero (h : ∀ i, p (pcs i) = false) : count p pcs = 0 := by
  rw [count, card_eq_zero]
  exact filter_eq_empty_iff.2 fun i _ => by simp [h i]

theorem count_eq_sum (p : P → Bool) (pcs : ι → P) : count p pcs = ∑ i, (p (pcs i)).toNat := by
  rw [count, card_filter]
  grind

/-- **A step of one thread** takes it out of the count where it leaves, and counts it where it
enters. -/
theorem count_update [DecidableEq ι] (p : P → Bool) (pcs : ι → P) (i : ι) (pc : P) :
    count p (update pcs i pc) + (p (pcs i)).toNat = count p pcs + (p pc).toNat := by
  have hrest : ∑ k ∈ univ.erase i, (p (update pcs i pc k)).toNat =
      ∑ k ∈ univ.erase i, (p (pcs k)).toNat := by
    refine sum_congr rfl fun k hk => ?_
    rw [update_of_ne (ne_of_mem_erase hk)]
  rw [count_eq_sum, count_eq_sum, ← add_sum_erase _ _ (mem_univ i),
    ← add_sum_erase _ (fun k => (p (pcs k)).toNat) (mem_univ i), hrest, update_self]
  omega

def Agrees (num : Int) (readers writers : Nat) : Prop :=
  writers = 1 ∧ readers = 0 ∧ num = -1 ∨ writers = 0 ∧ num = readers

theorem toInt_add_one {n : Int32} (h : n.toInt < 2 ^ 31 - 1) : (n + 1).toInt = n.toInt + 1 := by
  have hlow := n.le_toInt
  rw [Int32.toInt_add]
  exact Int.bmod_eq_of_le (by simp at hlow ⊢; omega) (by simp at h ⊢; omega)

theorem toInt_sub_one {n : Int32} (h : -1 ≤ n.toInt) : (n - 1).toInt = n.toInt - 1 := by
  have hhigh := n.toInt_lt
  rw [Int32.toInt_sub]
  exact Int.bmod_eq_of_le (by simp; omega) (by simp at hhigh ⊢; omega)

section
variable {n : Int32} {r w r' w' : Nat}

theorem Agrees.read (h : Agrees n.toInt r w) (hpos : 0 ≤ n.toInt) (hlt : n.toInt < 2 ^ 31 - 1)
    (hr : r' = r + 1) (hw : w' = w) : Agrees (n + 1).toInt r' w' := by
  unfold Agrees at h ⊢
  rw [toInt_add_one hlt]
  omega

theorem Agrees.write (h : Agrees (0 : Int32).toInt r w) (hr : r' = r) (hw : w' = w + 1) :
    Agrees (-1 : Int32).toInt r' w' := by
  simp only [Agrees, Int32.toInt_zero] at h
  exact .inl ⟨by omega, by omega, rfl⟩

theorem Agrees.readUnlock (h : Agrees n.toInt r w) (hr : r' + 1 = r) (hw : w' = w) :
    Agrees (n - 1).toInt r' w' := by
  unfold Agrees at h ⊢
  rw [toInt_sub_one (by omega)]
  omega

theorem Agrees.writeUnlock (h : Agrees n.toInt r w) (hr : r' = r) (hw : w' + 1 = w) :
    Agrees (n + 1).toInt r' w' := by
  unfold Agrees at h ⊢
  rw [toInt_add_one (by omega)]
  omega

end

/-!
## A mutex and the threads that may have it

`mutex` is the thread that the mutex belongs to; `has r` says of a thread, by where it is, that it
has it. `HeldBy mutex has`: the two agree.
-/

variable {R : Type*} {mutex : Option R} {has : R → Bool} {r : R}

def HeldBy (mutex : Option R) (has : R → Bool) : Prop := ∀ r, mutex = some r ↔ has r = true

section
variable (h : HeldBy mutex has)
include h

theorem HeldBy.eq_some (hr : has r = true) : mutex = some r := (h r).2 hr

theorem HeldBy.keep [DecidableEq R] {b : Bool} (hb : b = has r) :
    HeldBy mutex (update has r b) := by
  rw [update_eq_self_iff.2 hb]
  exact h

theorem HeldBy.lock [DecidableEq R] (hfree : mutex = none) (r : R) :
    HeldBy (some r) (update has r true) := by
  intro r'
  by_cases hr : r' = r
  · simp [hr]
  · have hnot : has r' ≠ true := fun hhas => by
      have hsome := h.eq_some hhas
      simp [hfree] at hsome
    simp [hr, hnot, Ne.symm hr]

theorem HeldBy.unlock [DecidableEq R] (hr : has r = true) : HeldBy none (update has r false) := by
  intro r'
  by_cases hr' : r' = r
  · simp [hr']
  · have hnot : has r' ≠ true := fun hhas =>
      hr' (Option.some.inj ((h.eq_some hhas).symm.trans (h.eq_some hr)))
    simp [hr', hnot]

end

/-!
## Condition variables

A condition variable is the list of the threads that wait on it. A notification is lost if there is
none; which one `notifyOne` wakes is picked by a number.
-/

structure CondVar (ι : Type*) where
  waiting : List ι

namespace CondVar

variable {ι : Type*} {c : CondVar ι} {i j : ι} {k : Nat}

def empty : CondVar ι := ⟨[]⟩

def wait (c : CondVar ι) (i : ι) : CondVar ι := ⟨c.waiting ++ [i]⟩

def notifyOne (c : CondVar ι) (k : Nat) : CondVar ι :=
  ⟨c.waiting.eraseIdx (k % c.waiting.length)⟩

def notifyAll (_ : CondVar ι) : CondVar ι := ⟨[]⟩

@[simp] theorem mem_wait : j ∈ (c.wait i).waiting ↔ j ∈ c.waiting ∨ j = i := by simp [wait]

theorem mem_of_mem_notifyOne (h : i ∈ (c.notifyOne k).waiting) : i ∈ c.waiting :=
  List.mem_of_mem_eraseIdx h

theorem waiting_notifyOne_eq_nil (h : c.waiting.length ≤ 1) : (c.notifyOne k).waiting = [] := by
  obtain ⟨waiting⟩ := c
  match waiting, h with
  | [], _ => rfl
  | [_], _ => simp [notifyOne, Nat.mod_one]

end CondVar

end Lib
