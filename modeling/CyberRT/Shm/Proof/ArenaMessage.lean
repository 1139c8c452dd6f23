import CyberRT.Shm.BlockLocks

/-!
# Who releases an arena block

As long as each step is `Fresh`, where a writer is tells whether it holds its block
(`ArenaPc.holds`), and the lock of a block is -1 just while a writer holds it.
-/

namespace Shm

attribute [local simp] ArenaMessages.lock

def ArenaPc.holds : ArenaPc → Option Nat
  | .create _ b | .message b false | .setMessage b false | .sendRelease b _ _ | .copyRelease b
  | .delete b false | .deleteRelease b _ => some b
  | _ => none

def ArenaPc.block : ArenaPc → Option Nat
  | .idle | .nextIndex _ | .tryWrite _ _ => none
  | .create _ b | .message b _ | .setMessage b _ | .sendRelease b _ _ | .copyRelease b
  | .delete b _ | .deleteRelease b _ | .done b => some b

def ArenaPc.released : ArenaPc → Nat
  | .message _ true | .setMessage _ true | .delete _ true | .done _ => 1
  | _ => 0

def ArenaPc.InRange (blockNum : Nat) : ArenaPc → Prop
  | .idle | .nextIndex _ => True
  | .sendRelease b _ found => b < blockNum ∧ found = b
  | .tryWrite _ b | .create _ b | .message b _ | .setMessage b _ | .copyRelease b | .delete b _
  | .deleteRelease b _ | .done b => b < blockNum

namespace ArenaMessages

open Function Lib ArenaPc

variable {ι π : Type*} {c : ArenaChannel ι π} {s : ArenaMessages ι π} {t : ι} {b : Nat}
  {old : ArenaPc}

structure Inv (c : ArenaChannel ι π) (s : ArenaMessages ι π) : Prop where
  holder : ∀ t b, s.holder b = some t ↔ (s.pcs t).holds = some b
  held : ∀ t b, s.holder b = some t → s.lockNum b = -1 ∧ s.readers b = 0
  free : ∀ b, s.holder b = none → s.lockNum b = s.readers b
  arenas : ∀ p t b, s.arenas p b = some t → (s.pcs t).block = some b
  inRange : ∀ t, (s.pcs t).InRange c.blockNum
  releases : ∀ t, s.releases t = (s.pcs t).released

theorem Inv.init : Inv c init where
  holder _ _ := by simp [ArenaMessages.init, holds]
  held _ _ h := by cases h
  free _ _ := rfl
  arenas _ _ _ h := by cases h
  inRange _ := trivial
  releases _ := rfl

theorem Inv.lockNum_neg_iff (h : Inv c s) (b : Nat) :
    s.lockNum b < 0 ↔ ∃ t, s.holder b = some t := by
  cases hb : s.holder b with
  | none =>
    have := h.free b hb
    simp
    omega
  | some t =>
    have := (h.held t b hb).1
    simp
    omega

theorem Inv.once (h : Inv c s) : s.Once := by
  intro t
  rw [h.releases t]
  refine ⟨?_, fun b hb => by rw [hb]; rfl⟩
  unfold released
  split <;> omega

theorem Inv.readers (h : Inv c s) (hfree : s.holder b = none) {n : Int} {m : Nat} (hn : n = m) :
    Inv c { s with
      lockNum := update s.lockNum b n, readers := update s.readers b m } := by
  refine ⟨h.holder, fun u d hd => ?_, fun d hd => ?_, h.arenas, h.inRange, h.releases⟩
  · have hdb : d ≠ b := by grind
    simpa only [update_of_ne hdb] using h.held u d hd
  · by_cases hdb : d = b
    · subst hdb
      simpa using hn
    · simpa only [update_of_ne hdb] using h.free d hd

variable [DecidableEq ι] {pc : ArenaPc}

theorem put_eq {α : Type*} (g : ArenaPc → α) (hg : g pc = g (s.pcs t)) (u : ι) :
    g ((s.put t pc).pcs u) = g (s.pcs u) :=
  (forall_update_iff s.pcs fun u pc => g pc = g (s.pcs u)).2 ⟨hg, fun _ _ => rfl⟩ u

attribute [local simp] put removeBlockWriteLock

theorem inRange_put {n : Nat} (h : ∀ u, (s.pcs u).InRange n) (hpc : pc.InRange n)
    (u : ι) : ((s.put t pc).pcs u).InRange n :=
  (forall_update_iff s.pcs fun _ pc => pc.InRange n).2 ⟨hpc, fun v _ => h v⟩ u

theorem Inv.move (h : Inv c s) (hold : s.pcs t = old) (pc : ArenaPc) (hholds : pc.holds = old.holds)
    (hblock : pc.block = old.block) (hreleased : pc.released = old.released)
    (hrange : pc.InRange c.blockNum) : Inv c (s.put t pc) := by
  subst hold
  refine ⟨fun u b => ?_, h.held, h.free, fun p u b hb => ?_, inRange_put h.inRange hrange,
    fun u => ?_⟩
  · rw [put_eq holds hholds]
    exact h.holder u b
  · rw [put_eq block hblock]
    exact h.arenas p u b hb
  · rw [put_eq released hreleased]
    exact h.releases u

theorem Inv.lock (h : Inv c s) {copy : Bool} (hpc : s.pcs t = .tryWrite copy b)
    (hlock : s.lockNum b = 0) : Inv c ((s.lock t b).put t (.create copy b)) := by
  have hfree : s.holder b = none := by
    by_contra hne
    obtain ⟨u, hu⟩ := Option.ne_none_iff_exists'.1 hne
    have := (h.held u b hu).1
    omega
  have hreaders : s.readers b = 0 := by
    have := h.free b hfree
    omega
  have hrange : b < c.blockNum := by
    have := h.inRange t
    rwa [hpc] at this
  refine ⟨fun u d => ?_, fun u d hd => ?_, fun d hd => ?_, fun p u d hd => ?_,
    inRange_put h.inRange hrange, fun u => ?_⟩
  · by_cases hut : u = t
    · subst hut
      by_cases hdb : d = b
      · subst hdb
        simp [holds]
      · have hno : s.holder d ≠ some u := fun heq => by
          rw [h.holder, hpc] at heq
          cases heq
        simp [holds, update_of_ne hdb, hno, Ne.symm hdb]
    · by_cases hdb : d = b
      · subst hdb
        have hno : (s.pcs u).holds ≠ some d := fun heq => by
          rw [(h.holder u d).2 heq] at hfree
          cases hfree
        simp [update_of_ne hut, hno, Ne.symm hut]
      · simpa [update_of_ne hut, update_of_ne hdb] using h.holder u d
  · by_cases hdb : d = b
    · subst hdb
      simp [hreaders]
    · simp only [ArenaMessages.lock, put, update_of_ne hdb] at hd ⊢
      exact h.held u d hd
  · by_cases hdb : d = b
    · subst hdb
      simp at hd
    · simp only [ArenaMessages.lock, put, update_of_ne hdb] at hd ⊢
      exact h.free d hd
  · -- a writer that has got no block yet has no arena
    have hut : u ≠ t := fun heq => by
      have := h.arenas p u d hd
      rw [heq, hpc] at this
      cases this
    simpa [update_of_ne hut] using h.arenas p u d hd
  · have hsame : released (.create copy b) = (s.pcs t).released := by
      rw [hpc]
      rfl
    exact (h.releases u).trans (put_eq released hsame u).symm

theorem Inv.release (h : Inv c s) (hat : s.pcs t = old) (hholds : old.holds = some b)
    (hb : b < c.blockNum) (pc : ArenaPc) (hpc : pc.holds = none) (hblock : pc.block = old.block)
    (hold : old.released = 0) (hnew : pc.released = 1) (hrange : pc.InRange c.blockNum) :
    Inv c ((s.releaseWrittenBlock c.blockNum t b).put t pc) := by
  subst hat
  have hholder : s.holder b = some t := (h.holder t b).2 hholds
  obtain ⟨hlock, hreaders⟩ := h.held t b hholder
  rw [releaseWrittenBlock, if_pos hb]
  refine ⟨fun u d => ?_, fun u d hd => ?_, fun d hd => ?_, fun p u d hd => ?_,
    inRange_put h.inRange hrange, fun u => ?_⟩
  · by_cases hut : u = t
    · subst hut
      by_cases hdb : d = b
      · subst hdb
        simp [hpc]
      · have hno : s.holder d ≠ some u := fun heq => by
          rw [h.holder, hholds, Option.some.injEq] at heq
          exact hdb heq.symm
        simp [hpc, update_of_ne hdb, hno]
    · by_cases hdb : d = b
      · subst hdb
        have hno : (s.pcs u).holds ≠ some d := fun heq => by
          rw [(h.holder u d).2 heq, Option.some.injEq] at hholder
          exact hut hholder
        simp [update_of_ne hut, hno]
      · simpa [update_of_ne hut, update_of_ne hdb] using h.holder u d
  · have hdb : d ≠ b := by
      rintro rfl
      simp at hd
    simp only [removeBlockWriteLock, put, update_of_ne hdb] at hd ⊢
    exact h.held u d hd
  · by_cases hdb : d = b
    · subst hdb
      simp [hlock, hreaders]
    · simp only [removeBlockWriteLock, put, update_of_ne hdb] at hd ⊢
      exact h.free d hd
  · exact (put_eq block hblock u).trans (h.arenas p u d hd)
  · by_cases hut : u = t
    · subst hut
      simp [hnew, h.releases u, hold]
    · simpa [update_of_ne hut] using h.releases u

variable [DecidableEq π]

theorem Inv.setArena (h : Inv c s) (hat : s.pcs t = old) (p : π)
    (hholds : pc.holds = old.holds) (hold : old.block = some b) (hblock : pc.block = some b)
    (hreleased : pc.released = old.released) (hrange : pc.InRange c.blockNum) :
    Inv c ((s.setArena p b t).put t pc) := by
  have hmove := h.move hat pc hholds (hblock.trans hold.symm) hreleased hrange
  refine ⟨hmove.holder, hmove.held, hmove.free, fun q u d hd => ?_, hmove.inRange, hmove.releases⟩
  -- the arena that is new is in the block of its writer
  have hcase : s.arenas q d = some u ∨ u = t ∧ d = b := by
    by_cases hq : q = p
    · subst hq
      by_cases hdb : d = b
      · subst hdb
        simp only [ArenaMessages.setArena, put, update_self, Option.some.injEq] at hd
        exact .inr ⟨hd.symm, rfl⟩
      · simp only [ArenaMessages.setArena, put, update_self, update_of_ne hdb] at hd
        exact .inl hd
    · simp only [ArenaMessages.setArena, put, update_of_ne hq] at hd
      exact .inl hd
  rcases hcase with hold' | ⟨rfl, rfl⟩
  · exact hmove.arenas q u d hold'
  · simpa using hblock

theorem findArena_some {capacity found : Nat} {arenas : Nat → Option ι}
    (h : findArena capacity arenas t = some found) : arenas found = some t := by
  simpa using List.find?_some h

theorem Inv.writerStep (h : Inv c s) (t : ι) (weak : Bool) (hfresh : s.Fresh c (.step t weak)) :
    Inv c (s.writerStep c t weak) := by
  have hrange := h.inRange t
  simp only [Fresh] at hfresh
  unfold ArenaMessages.writerStep
  cases hpc : s.pcs t with
  | nextIndex copy =>
    have hmove := h.move hpc (.tryWrite copy (s.messageSeq % c.blockNum)) rfl
      rfl rfl (Nat.mod_lt _ c.blockNum_pos)
    exact ⟨hmove.holder, hmove.held, hmove.free, hmove.arenas, hmove.inRange, hmove.releases⟩
  | tryWrite copy b =>
    simp only
    split
    · rename_i hcas
      exact h.lock hpc hcas.1
    · exact h.move hpc (.nextIndex copy) rfl rfl rfl trivial
  | create copy b =>
    rw [hpc] at hrange
    cases copy with
    | true => exact h.setArena hpc _ rfl rfl rfl rfl hrange
    | false => exact h.setArena hpc _ rfl rfl rfl rfl hrange
  | setMessage b sent =>
    rw [hpc] at hrange hfresh
    simp only
    split
    · rename_i found hfound
      have hown := h.arenas _ t found (findArena_some hfound)
      rw [hpc, block, Option.some.injEq] at hown
      cases sent with
      | true => rw [hfound] at hfresh; cases hfresh
      | false => exact h.move hpc (.sendRelease b false found) rfl rfl rfl ⟨hrange, hown.symm⟩
    · exact h.move hpc (.message b sent) (by cases sent <;> rfl) rfl (by cases sent <;> rfl) hrange
  | sendRelease b sent found =>
    rw [hpc] at hrange
    obtain ⟨hlt, rfl⟩ := hrange
    exact h.release hpc rfl hlt (.message found true) rfl rfl rfl rfl hlt
  | copyRelease b =>
    rw [hpc] at hrange
    exact h.release hpc rfl hrange (.done b) rfl rfl rfl rfl hrange
  | delete b sent =>
    rw [hpc] at hrange hfresh
    simp only
    cases sent with
    | true =>
      rw [if_neg (Int.not_lt.2 hfresh)]
      exact h.move hpc (.done b) rfl rfl rfl hrange
    | false =>
      -- its own lock
      have hneg : s.lockNum b < 0 :=
        (h.lockNum_neg_iff b).2 ⟨t, (h.holder t b).2 (by rw [hpc]; rfl)⟩
      rw [if_pos hneg]
      exact h.move hpc (.deleteRelease b false) rfl rfl rfl hrange
  | deleteRelease b sent =>
    rw [hpc] at hrange
    exact h.release hpc rfl hrange (.done b) rfl rfl rfl rfl hrange
  | idle | message | done => exact h

theorem Inv.step (h : Inv c s) (ev : ArenaEvent ι) (hfresh : s.Fresh c ev) :
    Inv c (s.step c ev) := by
  cases ev with
  | step t weak => exact h.writerStep t weak hfresh
  | acquireArenaMessage t =>
    simp only [ArenaMessages.step]
    split
    · rename_i hpc
      exact h.move hpc (.nextIndex false) rfl rfl rfl trivial
    · exact h
  | transmitCopy t =>
    simp only [ArenaMessages.step]
    split
    · rename_i hpc
      exact h.move hpc (.nextIndex true) rfl rfl rfl trivial
    · exact h
  | transmit t =>
    have hrange := h.inRange t
    simp only [ArenaMessages.step]
    split
    · rename_i b sent hpc
      rw [hpc] at hrange
      exact h.move hpc (.setMessage b sent) (by cases sent <;> rfl) rfl
        (by cases sent <;> rfl) hrange
    · exact h
  | destroy t =>
    have hrange := h.inRange t
    simp only [ArenaMessages.step]
    split
    · rename_i b sent hpc
      rw [hpc] at hrange
      exact h.move hpc (.delete b sent) (by cases sent <;> rfl) rfl (by cases sent <;> rfl) hrange
    · exact h
  | addBlockReadLock b =>
    simp only [ArenaMessages.step]
    split
    · have hfree : s.holder b = none := by
        by_contra hne
        exact absurd ((h.lockNum_neg_iff b).2 (Option.ne_none_iff_exists'.1 hne)) (by omega)
      exact h.readers hfree (by rw [h.free b hfree]; rfl)
    · exact h
  | removeBlockReadLock b =>
    simp only [ArenaMessages.step]
    split
    · have hfree : s.holder b = none := by
        by_contra hne
        obtain ⟨u, hu⟩ := Option.ne_none_iff_exists'.1 hne
        have := (h.held u b hu).2
        omega
      exact h.readers hfree (by rw [h.free b hfree]; omega)
    · exact h

end ArenaMessages

end Shm
