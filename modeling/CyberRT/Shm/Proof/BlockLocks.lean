import CyberRT.Shm.BlockLocks

/-!
# Readers and writers of a block

A step changes the lock of one block in one of four ways, or none at all; for the other blocks
neither the lock nor its holders change (`LocksTell.put`).
-/

namespace Shm.BlockSystem

open Function Lib List BlockSystem BlockPc

variable {ι : Type*} {m : Mapping} {s : BlockSystem ι} {t : ι} {a : BlockArray} {i : Nat}

attribute [local simp] writes reads setLock

def Knows (m : Mapping) : BlockPc → Prop
  | .idle | .nextIndex _ => True
  | .tryWrite a i _ | .readLoad a i _ | .reading a i | .writing a i => i < m.num a
  | .readCas a i n _ => i < m.num a ∧ 0 ≤ n.toInt

theorem Mapping.num_pos (m : Mapping) (a : BlockArray) : 0 < m.num a := by
  cases a with
  | blocks => exact m.blockNum_pos
  | arenaBlocks => exact Nat.succ_pos _
  | arenaSegment => exact m.arenaSegmentBlockNum_pos

theorem setLock_self (s : BlockSystem ι) (a : BlockArray) (i : Nat) (n : Int32) :
    (s.setLock a i n).lockNum a i = n := by
  simp

theorem setLock_of_ne {b : BlockArray} {j : Nat} (s : BlockSystem ι) (n : Int32)
    (hne : ¬ (a = b ∧ i = j)) : (s.setLock a i n).lockNum b j = s.lockNum b j := by
  by_cases hb : b = a
  · subst hb
    have hj : j ≠ i := fun hj => hne ⟨rfl, hj.symm⟩
    simp [update_of_ne hj]
  · simp [update_of_ne hb]

theorem Knows.put [DecidableEq ι] (h : ∀ t, Knows m (s.pcs t)) (t : ι) {pc : BlockPc}
    (hpc : Knows m pc) (u : ι) : Knows m ((s.put t pc).pcs u) := by
  by_cases hu : u = t
  · subst hu
    simpa only [BlockSystem.put, update_self] using hpc
  · simpa only [BlockSystem.put, update_of_ne hu] using h u

variable [Fintype ι]

structure Inv (m : Mapping) (s : BlockSystem ι) : Prop where
  locks : s.LocksTell
  knows : ∀ t, Knows m (s.pcs t)

theorem Inv.init : Inv m (init : BlockSystem ι) where
  locks a i := by
    refine .inr ⟨count_eq_zero fun _ => rfl, ?_⟩
    rw [count_eq_zero fun _ => rfl]
    rfl
  knows _ := trivial

variable [DecidableEq ι] {old : BlockPc}

theorem Inv.move (h : Inv m s) (hold : s.pcs t = old) (pc : BlockPc)
    (hpc : Knows m pc) (hreads : ∀ a i, pc.reads a i = old.reads a i)
    (hwrites : ∀ a i, pc.writes a i = old.writes a i) : Inv m (s.put t pc) where
  locks a i := by
    have hr := count_update (reads a i) s.pcs t pc
    have hw := count_update (writes a i) s.pcs t pc
    rw [hreads, hold, Nat.add_right_cancel_iff] at hr
    rw [hwrites, hold, Nat.add_right_cancel_iff] at hw
    simp only [put, hr, hw]
    exact h.locks a i
  knows := Knows.put h.knows t hpc

section
variable (h : s.LocksTell)
include h

theorem LocksTell.put (hold : s.pcs t = old) (pc : BlockPc)
    (n : Int32) (hreads : ∀ b j, ¬ (a = b ∧ i = j) → pc.reads b j = old.reads b j)
    (hwrites : ∀ b j, ¬ (a = b ∧ i = j) → pc.writes b j = old.writes b j)
    (hself : ∀ readers writers : Nat,
      readers + (old.reads a i).toNat = count (reads a i) s.pcs + (pc.reads a i).toNat →
      writers + (old.writes a i).toNat = count (writes a i) s.pcs + (pc.writes a i).toNat →
      Agrees n.toInt readers writers) : ((s.setLock a i n).put t pc).LocksTell := by
  subst hold
  intro b j
  have hr := count_update (reads b j) s.pcs t pc
  have hw := count_update (writes b j) s.pcs t pc
  by_cases hab : a = b ∧ i = j
  · obtain ⟨rfl, rfl⟩ := hab
    rw [show ((s.setLock a i n).put t pc).lockNum a i = n from setLock_self s a i n]
    exact hself _ _ hr hw
  · rw [hreads b j hab, Nat.add_right_cancel_iff] at hr
    rw [hwrites b j hab, Nat.add_right_cancel_iff] at hw
    rw [show ((s.setLock a i n).put t pc).lockNum b j = s.lockNum b j from setLock_of_ne s n hab]
    simp only [BlockSystem.put, setLock, hr, hw]
    exact h b j

theorem LocksTell.writeLock {search : Bool}
    (hpc : s.pcs t = .tryWrite a i search) (hfree : s.lockNum a i = 0) :
    ((s.setLock a i (-1)).put t (.writing a i)).LocksTell := by
  have hlock := h a i
  rw [hfree] at hlock
  refine h.put hpc _ _ (fun b j _ => rfl) (fun b j hne => by simpa using hne) ?_
  exact fun readers writers hr hw => hlock.write hr (by simpa using hw)

theorem LocksTell.readLock {tryTimes : Nat}
    (hpc : s.pcs t = .readCas a i (s.lockNum a i) tryTimes) (hpos : 0 ≤ (s.lockNum a i).toInt) :
    ((s.setLock a i (s.lockNum a i + 1)).put t (.reading a i)).LocksTell ↔
      s.lockNum a i ≠ Int32.maxValue := by
  constructor
  · -- past the largest number comes the smallest, which no number of readers is
    intro hafter hmax
    have hwrong := hafter a i
    rw [show ((s.setLock a i (s.lockNum a i + 1)).put t (.reading a i)).lockNum a i =
      s.lockNum a i + 1 from setLock_self s a i _, hmax] at hwrong
    have hmin : (Int32.maxValue + 1).toInt = -2147483648 := by decide
    unfold Agrees at hwrong
    omega
  · intro hne
    have hlt : (s.lockNum a i).toInt < 2 ^ 31 - 1 := by
      have hle := (s.lockNum a i).toInt_lt
      have hmax : (s.lockNum a i).toInt ≠ Int32.maxValue.toInt :=
        fun heq => hne (Int32.toInt_inj.1 heq)
      grind
    refine h.put hpc _ _ (fun b j hne => by simpa using hne) (fun b j _ => rfl) ?_
    exact fun readers writers hr hw => (h a i).read hpos hlt (by simpa using hr) hw

theorem LocksTell.readUnlock (hpc : s.pcs t = .reading a i) :
    ((s.setLock a i (s.lockNum a i - 1)).put t .idle).LocksTell := by
  refine h.put hpc _ _ (fun b j hne => by simpa using hne) (fun b j _ => rfl) ?_
  exact fun readers writers hr hw => (h a i).readUnlock (by simpa using hr) hw

theorem LocksTell.writeUnlock (hpc : s.pcs t = .writing a i) :
    ((s.setLock a i (s.lockNum a i + 1)).put t .idle).LocksTell := by
  refine h.put hpc _ _ (fun b j _ => rfl) (fun b j hne => by simpa using hne) ?_
  exact fun readers writers hr hw => (h a i).writeUnlock hr (by simpa using hw)

end

theorem Inv.callStep_iff (h : Inv m s) (t : ι) (weak : Bool) :
    (s.CanCount (.step t weak) → Inv m (s.callStep m t weak)) ∧
      ((s.callStep m t weak).LocksTell → s.CanCount (.step t weak)) := by
  have hknows := h.knows t
  simp only [callStep, CanCount]
  cases hpc : s.pcs t with
  | nextIndex a =>
    have hmove : Inv m (s.put t (.tryWrite a (s.seq a % m.num a) true)) :=
      h.move hpc _ (Nat.mod_lt _ (Mapping.num_pos m a)) (fun _ _ => rfl) fun _ _ => rfl
    exact ⟨fun _ => ⟨hmove.locks, hmove.knows⟩, fun _ => trivial⟩
  | tryWrite a i search =>
    rw [hpc] at hknows
    refine ⟨fun _ => ?_, fun _ => trivial⟩
    simp only
    split
    · rename_i hcas
      exact ⟨h.locks.writeLock hpc hcas.1, Knows.put h.knows t hknows⟩
    · cases search with
      | true => exact h.move hpc (.nextIndex a) trivial (fun _ _ => rfl) fun _ _ => rfl
      | false => exact h.move hpc .idle trivial (fun _ _ => rfl) fun _ _ => rfl
  | readLoad a i tryTimes =>
    rw [hpc] at hknows
    refine ⟨fun _ => ?_, fun _ => trivial⟩
    simp only
    split
    · exact h.move hpc .idle trivial (fun _ _ => rfl) fun _ _ => rfl
    · rename_i hneg
      have hpos : 0 ≤ (s.lockNum a i).toInt := by
        rw [Int32.lt_iff_toInt_lt] at hneg
        exact Int.not_lt.1 hneg
      exact h.move hpc (.readCas a i _ tryTimes) ⟨hknows, hpos⟩ (fun _ _ => rfl) fun _ _ => rfl
  | readCas a i n tryTimes =>
    rw [hpc] at hknows
    simp only
    by_cases hcas : s.lockNum a i = n ∧ weak = false
    · rw [if_pos hcas]
      obtain ⟨rfl, rfl⟩ := hcas
      have hiff := h.locks.readLock hpc hknows.2
      exact ⟨fun hok => ⟨hiff.2 (hok rfl rfl), Knows.put h.knows t hknows.1⟩,
        fun hafter _ _ => hiff.1 hafter⟩
    · rw [if_neg hcas]
      refine ⟨fun _ => ?_, fun _ hn hweak => absurd ⟨hn, hweak⟩ hcas⟩
      split
      · exact h.move hpc .idle trivial (fun _ _ => rfl) fun _ _ => rfl
      · exact h.move hpc (.readLoad a i (tryTimes + 1)) hknows.1 (fun _ _ => rfl) fun _ _ => rfl
  | idle | reading | writing => exact ⟨fun _ => h, fun _ => trivial⟩

theorem Inv.release (h : Inv m s) (t : ι) : Inv m (s.release m t) := by
  have hknows := h.knows t
  unfold BlockSystem.release
  cases hpc : s.pcs t with
  | reading a i =>
    rw [hpc] at hknows
    simp only [if_pos (show i < m.num a from hknows)]
    exact ⟨h.locks.readUnlock hpc, Knows.put h.knows t trivial⟩
  | writing a i =>
    rw [hpc] at hknows
    simp only [if_pos (show i < m.num a from hknows)]
    exact ⟨h.locks.writeUnlock hpc, Knows.put h.knows t trivial⟩
  | _ => exact h

theorem Inv.step_iff (h : Inv m s) (ev : BlockEvent ι) :
    (s.CanCount ev → Inv m (s.step m ev)) ∧ ((s.step m ev).LocksTell → s.CanCount ev) := by
  cases ev with
  | step t weak => exact h.callStep_iff t weak
  | release t => exact ⟨fun _ => h.release t, fun _ => trivial⟩
  | acquireToWrite t a =>
    refine ⟨fun _ => ?_, fun _ => trivial⟩
    simp only [step]
    split
    · rename_i hpc
      exact h.move hpc (.nextIndex a) trivial (fun _ _ => rfl) (fun _ _ => rfl)
    · exact h
  | lockForWrite t a i =>
    refine ⟨fun _ => ?_, fun _ => trivial⟩
    simp only [step]
    split
    · rename_i hpc
      exact h.move hpc.1 (.tryWrite a i false) hpc.2 (fun _ _ => rfl) (fun _ _ => rfl)
    · exact h
  | lockForRead t a i =>
    refine ⟨fun _ => ?_, fun _ => trivial⟩
    simp only [step]
    split
    · rename_i hpc
      exact h.move hpc.1 (.readLoad a i 0) hpc.2 (fun _ _ => rfl) (fun _ _ => rfl)
    · exact h

/-- **The lock of a block is -1 for one writer, else the number of its readers**, in all three
arrays, for every mapping, all acquirers and every order of their steps, as long as no reader counts
itself in at `2^31 - 1`; and only so long. -/
theorem always_locksTell_iff (m : Mapping) (evs : List (BlockEvent ι)) :
    Always (step m) LocksTell (init : BlockSystem ι) evs ↔
      Along (step m) CanCount (init : BlockSystem ι) evs := by
  apply always_iff_along_of_inv (P := Inv m) Inv.init
  · intro s h
    exact h.locks
  · intro s ev h hok
    exact (h.step_iff ev).1 hok
  · intro s ev h hlocks
    exact (h.step_iff ev).2 hlocks

def readAll (ts : List ι) : List (BlockEvent ι) :=
  ts.flatMap fun t => [.lockForRead t .blocks 0, .step t false, .step t false]

omit [Fintype ι] in
theorem lockNum_readAll (m : Mapping) (ts : List ι) (hnodup : ts.Nodup) (s : BlockSystem ι)
    (hidle : ∀ t ∈ ts, s.pcs t = .idle) (n : Nat) (hn : n + ts.length ≤ 2 ^ 31)
    (hlock : s.lockNum .blocks 0 = Int32.ofNat n) :
    ((readAll ts).foldl (step m) s).lockNum .blocks 0 = Int32.ofNat (n + ts.length) := by
  induction ts generalizing s n with
  | nil => simpa [readAll] using hlock
  | cons t ts ih =>
    rw [length_cons] at hn
    have hcall : s.pcs t = .idle ∧ 0 < m.num .blocks :=
      ⟨hidle t mem_cons_self, Mapping.num_pos m .blocks⟩
    have hpos : ¬ Int32.ofNat n < Block.kRWLockFree := by
      rw [Int32.lt_iff_toInt_lt, Int32.toInt_ofNat_of_lt (by omega)]
      exact Int.not_lt.2 (Int.natCast_nonneg n)
    -- after its three steps the acquirer holds the block, and the others are where they were
    have hsteps : [BlockEvent.lockForRead t .blocks 0, .step t false, .step t false].foldl
        (step m) s =
        (s.setLock .blocks 0 (Int32.ofNat (n + 1))).put t (.reading .blocks 0) := by
      simp [step, callStep, hcall, put, hlock, hpos, Int32.ofNat_add]
    rw [readAll, flatMap_cons, foldl_append, hsteps, length_cons,
      show n + (ts.length + 1) = n + 1 + ts.length by omega]
    refine ih (nodup_cons.1 hnodup).2 _ (fun u hu => ?_) (n + 1) (by omega)
      (setLock_self s .blocks 0 _)
    have hut : u ≠ t := fun heq => (nodup_cons.1 hnodup).1 (heq ▸ hu)
    simpa [put, update_of_ne hut] using hidle u (mem_cons_of_mem t hu)

theorem not_locksTell_readAll (m : Mapping) (ts : List ι) (hnodup : ts.Nodup)
    (hlength : ts.length = 2 ^ 31) :
    ¬ Always (step m) LocksTell (init : BlockSystem ι) (readAll ts) := by
  intro halways
  have hlast := halways.last .blocks 0
  have hlock := lockNum_readAll m ts hnodup (init : BlockSystem ι) (fun _ _ => rfl) 0
    (by rw [hlength, Nat.zero_add]) rfl
  rw [hlock, hlength, Nat.zero_add] at hlast
  have hmin : (Int32.ofNat (2 ^ 31)).toInt = -2147483648 := by decide
  unfold Agrees at hlast
  omega

/-- **`2^31` readers** of one block make its lock negative: it is not their number. -/
theorem not_locksTell_manyReaders :
    ¬ Always (step ⟨512, 64, by decide, by decide⟩) LocksTell
      (init : BlockSystem (Fin (2 ^ 31))) (readAll (List.finRange (2 ^ 31))) :=
  not_locksTell_readAll _ _ (nodup_finRange _) length_finRange

end Shm.BlockSystem
