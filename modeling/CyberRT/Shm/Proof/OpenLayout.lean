import Mathlib.Tactic.Ring
import CyberRT.Shm.Segment

/-!
# The layout an opener finds

A segment is created by one process and opened by another; both work out the address of every
buffer, in loops of their own.
-/

namespace Shm

open Function Lib Segment ShmConf Nat

def MmapOk (base size : Nat) : Prop := 0 < base ∧ base + size ≤ 2 ^ 64

theorem address_eq {base size offset : Nat} (h : MmapOk base size) (ho : offset < size) :
    address base offset = base + offset := by
  obtain ⟨-, h2⟩ := h
  exact mod_eq_of_lt (by omega)

theorem address_ne_zero {base size offset : Nat} (h : MmapOk base size) (ho : offset < size) :
    address base offset ≠ 0 := by
  rw [address_eq h ho]
  have := h.1
  omega

variable (abi : Abi) {nullCheck : Bool} {i : Nat}

theorem arenaBlockBufOffset_lt (n : Nat) (h : i ≤ ShmConf.arenaBlockNum) :
    arenaBlockBufOffset abi (.update n) i < (ShmConf.update n).managedShmSize := by
  have h1 := abi.state_le
  have h2 := mul_le_mul_left (ShmConf.update n).blockNum abi.block_le
  have h3 := mul_le_mul_left ShmConf.arenaBlockNum abi.block_le
  have h4 := mul_le_mul_right ShmConf.arenaMessageSize h
  have hsize : (ShmConf.update n).managedShmSize = extraSize + stateSize +
      ((ShmConf.update n).blockNum * blockSize +
        (ShmConf.update n).blockNum * (ShmConf.update n).blockBufSize) +
      (ShmConf.arenaBlockNum * blockSize +
        ShmConf.arenaBlockNum * ShmConf.arenaMessageSize) := by
    simp only [ShmConf.update]
    ring
  rw [hsize]
  simp only [arenaBlockBufOffset, extraSize]
  omega

theorem blockBufOffset_lt (n : Nat) (h : i ≤ (ShmConf.update n).blockNum) :
    blockBufOffset abi (.update n) i < (ShmConf.update n).managedShmSize := by
  have h0 := arenaBlockBufOffset_lt abi n (zero_le ShmConf.arenaBlockNum)
  have h1 := mul_le_mul_right (ShmConf.update n).blockBufSize h
  simp only [arenaBlockBufOffset, zero_mul] at h0
  simp only [blockBufOffset]
  omega

theorem registerBufs_eq {addr : Nat → Nat} :
    ∀ (rem i : Nat) (bufs : Nat → Option Nat), (∀ j, i ≤ j → j < i + rem → addr j ≠ 0) →
      registerBufs nullCheck addr rem i bufs =
        (i + rem, fun j => if i ≤ j ∧ j < i + rem then some (addr j) else bufs j)
  | 0, i, bufs, _ => by
    have : ∀ j, ¬ (i ≤ j ∧ j < i) := fun j => by omega
    simp [registerBufs, this]
  | rem + 1, i, bufs, h => by
    have hi : (nullCheck && addr i == 0) = false := by simp [h i (le_refl _) (by omega)]
    rw [registerBufs, hi]
    rw [registerBufs_eq rem (i + 1) _ fun j h1 h2 => h j (by omega) (by omega)]
    grind

def opened (conf : ShmConf) (id base : Nat) (seg : Segment) : Segment where
  init := true
  conf := conf
  shm := some id
  base := base
  blockBufAddrs := fun i =>
    if i < conf.blockNum then some (base + blockBufOffset abi conf i) else seg.blockBufAddrs i
  arenaBlockBufAddrs := fun ai =>
    if ai < ShmConf.arenaBlockNum then some (base + arenaBlockBufOffset abi conf ai)
    else seg.arenaBlockBufAddrs ai

theorem registerBufs_address {base size num : Nat} {offset : Nat → Nat}
    (h : MmapOk base size) (hlt : ∀ {i}, i < num → offset i < size) (bufs : Nat → Option Nat) :
    registerBufs nullCheck (fun i => address base (offset i)) num 0 bufs =
      (num, fun i => if i < num then some (base + offset i) else bufs i) := by
  rw [registerBufs_eq _ _ _ fun j _ hj => address_ne_zero h (hlt (by omega))]
  refine Prod.ext (zero_add _) (funext fun i => ?_)
  simp only [zero_le, true_and, zero_add]
  by_cases hi : i < num
  · rw [if_pos hi, if_pos hi, address_eq h (hlt hi)]
  · rw [if_neg hi, if_neg hi]

theorem registerBufs_blocks {n base : Nat}
    (h : MmapOk base (ShmConf.update n).managedShmSize) (bufs : Nat → Option Nat) :
    registerBufs nullCheck (fun i => address base (blockBufOffset abi (.update n) i))
      (ShmConf.update n).blockNum 0 bufs = ((ShmConf.update n).blockNum, fun i =>
        if i < (ShmConf.update n).blockNum then some (base + blockBufOffset abi (.update n) i)
        else bufs i) :=
  registerBufs_address h (fun hi => blockBufOffset_lt abi n (le_of_lt hi)) bufs

theorem registerBufs_arena {n base : Nat}
    (h : MmapOk base (ShmConf.update n).managedShmSize) (bufs : Nat → Option Nat) :
    registerBufs nullCheck (fun ai => address base (arenaBlockBufOffset abi (.update n) ai))
      ShmConf.arenaBlockNum 0 bufs = (ShmConf.arenaBlockNum, fun ai =>
        if ai < ShmConf.arenaBlockNum then some (base + arenaBlockBufOffset abi (.update n) ai)
        else bufs ai) :=
  registerBufs_address h (fun hi => arenaBlockBufOffset_lt abi n (le_of_lt hi)) bufs

theorem create_eq (nullCheck : Bool) (k : Kernel) (seg : Segment) {n base : Nat}
    (hc : seg.conf = .update n) (h : MmapOk base (ShmConf.update n).managedShmSize) :
    create abi nullCheck k seg base = (true,
      (⟨update k.objects k.next (.create (.update n)), some k.next, k.next + 1⟩ :
        Kernel).modify k.next ShmObject.increaseReferenceCounts,
      opened abi (.update n) k.next base seg) := by
  have hceil : (ShmObject.create (ShmConf.update n)).state.ceilingMsgSize =
      (ShmConf.update n).ceilingMsgSize := rfl
  simp only [create, hc, hceil, update_ceiling, registerBufs_blocks abi h,
    registerBufs_arena abi h, finishOpen, ne_eq, not_true_eq_false, or_self, if_false, opened]

theorem xsiOpenOnly_eq {k : Kernel} {seg : Segment} {id n base : Nat} (hi : seg.init = false)
    (hl : k.linked = some id)
    (hn : (k.objects id).state.ceilingMsgSize = (ShmConf.update n).ceilingMsgSize)
    (h : MmapOk base (ShmConf.update n).managedShmSize) :
    xsiOpenOnly abi k seg base = (true, k.modify id ShmObject.increaseReferenceCounts,
      opened abi (.update n) id base seg) := by
  simp only [xsiOpenOnly, hi, hl, hn, update_ceiling, registerBufs_blocks abi h, registerBufs_arena
    abi h, finishOpen, ne_eq, not_true_eq_false, or_self, if_false, opened, Bool.false_eq_true]

/-- **The opener gets the creator's segment**: the open succeeds, the segment stays linked, and
every block and arena block has the offset it has for the creator. -/
structure OpensAs (k : Kernel) (creator : Segment) (r : Bool × Kernel × Segment) : Prop where
  ok : r.1 = true
  linked : r.2.1.linked = k.linked
  blocks : ∀ i < creator.conf.blockNum, ∃ offset,
    creator.blockBufAddrs i = some (creator.base + offset) ∧
      r.2.2.blockBufAddrs i = some (r.2.2.base + offset)
  arena : ∀ ai < ShmConf.arenaBlockNum, ∃ offset,
    creator.arenaBlockBufAddrs ai = some (creator.base + offset) ∧
      r.2.2.arenaBlockBufAddrs ai = some (r.2.2.base + offset)

def sized (n : Nat) : Segment := { Segment.new with conf := .update n }

def XsiReopens (n : Nat) (k : Kernel) (opener : Segment) (base base' : Nat) : Prop :=
  ∀ k1 creator, xsiOpenOrCreate abi k (sized n) base = (true, k1, creator) →
    OpensAs k1 creator (xsiOpenOnly abi k1 opener base')

def PosixReopens (n : Nat) (k : Kernel) (opener : Segment) (base base' : Nat) : Prop :=
  ∀ fuel k1 creator, posixOpenOrCreate abi fuel k (sized n) base = some (true, k1, creator) →
    ∃ fuel' r, posixOpenOnly abi fuel' k1 opener base' = some r ∧ OpensAs k1 creator r

section
variable {n base base' : Nat} {k : Kernel} {opener : Segment}

theorem opened_opensAs (k1 : Kernel) (conf : ShmConf) (id : Nat) (seg : Segment) :
    OpensAs k1 (opened abi conf id base seg)
      (true, k1.modify id ShmObject.increaseReferenceCounts, opened abi conf id base' opener) where
  ok := rfl
  linked := rfl
  blocks i hi := ⟨blockBufOffset abi conf i, if_pos hi, if_pos hi⟩
  arena ai hai := ⟨arenaBlockBufOffset abi conf ai, if_pos hai, if_pos hai⟩

theorem created_linked (k : Kernel) (n : Nat) :
    (((⟨update k.objects k.next (.create (.update n)), some k.next, k.next + 1⟩ :
      Kernel).modify k.next ShmObject.increaseReferenceCounts).objects k.next).state.ceilingMsgSize =
      (ShmConf.update n).ceilingMsgSize := by
  simp [Kernel.modify, ShmObject.increaseReferenceCounts, ShmObject.create]

theorem xsi_reopens (hk : k.linked = none) (ho : opener.init = false)
    (hb : MmapOk base (ShmConf.update n).managedShmSize)
    (hb' : MmapOk base' (ShmConf.update n).managedShmSize) :
    XsiReopens abi n k opener base base' := by
  intro k1 creator hc
  have hnew : (sized n).init = false := rfl
  simp only [xsiOpenOrCreate, hnew, hk, Option.isSome_none, Bool.false_eq_true, if_false,
    create_eq abi false k (sized n) rfl hb, Prod.mk.injEq, true_and] at hc
  obtain ⟨rfl, rfl⟩ := hc
  rw [xsiOpenOnly_eq abi ho rfl (created_linked k n) hb']
  exact opened_opensAs abi _ _ _ _

theorem posixArenaLoop_ne {fuel : Nat} {bufs : Nat → Option Nat} {ai : UInt32}
    {arenaBufs : Nat → Option Nat} (hb : MmapOk base (ShmConf.update n).managedShmSize)
    (h : posixArenaLoop abi (.update n) base i fuel bufs = some (ai, arenaBufs)) :
    ai.toNat ≠ ShmConf.arenaBlockNum := by
  unfold posixArenaLoop at h
  by_cases hi : i < ShmConf.arenaBlockNum
  · -- entered, it can only leave by a null address, which that of index 512 is not
    rcases loop_exit (I := fun _ => True) (fun _ _ _ _ _ => trivial) trivial h with
      ⟨-, hc⟩ | ⟨s, -, -, hbrk⟩
    · simp [hi] at hc
    · dsimp only at hbrk
      split at hbrk
      · rename_i h0
        cases hbrk
        intro hai
        rw [hai] at h0
        exact address_ne_zero hb (arenaBlockBufOffset_lt abi n (le_refl _)) h0
      · cases hbrk
  · -- not entered, `ai` is still 0
    cases fuel with
    | zero => cases h
    | succ fuel =>
      simp only [loop, hi, decide_false, Bool.false_eq_true, if_false, Option.some.injEq,
        Prod.mk.injEq] at h
      rw [← h.1]
      decide

theorem posixOpenOnly_ne_true {id fuel : Nat} {r : Bool × Kernel × Segment}
    (ho : opener.init = false) (hl : k.linked = some id)
    (hn : (k.objects id).state.ceilingMsgSize = (ShmConf.update n).ceilingMsgSize)
    (hb : MmapOk base (ShmConf.update n).managedShmSize)
    (h : posixOpenOnly abi fuel k opener base = some r) : r.1 = false := by
  simp only [posixOpenOnly, ho, hl, hn, update_ceiling, registerBufs_blocks abi hb,
    Bool.false_eq_true, if_false] at h
  split at h
  · cases h
  · rename_i ai arenaBufs hloop
    have hne := posixArenaLoop_ne abi hb hloop
    cases h
    simp [finishOpen, hne]

theorem not_posixReopens (hk : k.linked = none) (ho : opener.init = false)
    (hb : MmapOk base (ShmConf.update n).managedShmSize)
    (hb' : MmapOk base' (ShmConf.update n).managedShmSize) :
    ¬ PosixReopens abi n k opener base base' := by
  intro h
  have hcreate : posixOpenOrCreate abi 0 k (sized n) base =
      some (create abi true k (sized n) base) := by
    simp [posixOpenOrCreate, sized, Segment.new, hk]
  rw [create_eq abi true k (sized n) rfl hb] at hcreate
  obtain ⟨fuel, r, hr, hok⟩ := h 0 _ _ hcreate
  have := posixOpenOnly_ne_true abi ho rfl (created_linked k n) hb' hr
  rw [hok.ok] at this
  cases this

/-- **`PosixSegment` never reopens**, whatever the message size, while `XsiSegment` always does. -/
theorem posix_never_reopens (hk : k.linked = none) (ho : opener.init = false)
    (hb : MmapOk base (ShmConf.update n).managedShmSize)
    (hb' : MmapOk base' (ShmConf.update n).managedShmSize) :
    ¬ PosixReopens abi n k opener base base' ∧ XsiReopens abi n k opener base base' :=
  ⟨not_posixReopens abi hk ho hb hb', xsi_reopens abi hk ho hb hb'⟩

end

def Kernel.empty : Kernel := ⟨fun _ => .create .default, none, 0⟩

theorem posix_never_reopens_default :
    ¬ PosixReopens .lp64 1000 .empty .new 0x7f0000000000 0x7e0000000000 ∧
      XsiReopens .lp64 1000 .empty .new 0x7f0000000000 0x7e0000000000 :=
  posix_never_reopens .lp64 rfl rfl ⟨by decide, by decide⟩ ⟨by decide, by decide⟩

/-- A message of 1000 bytes, in the 16K class: the opener unlinks the segment and fails. -/
theorem posix_not_reopens_16K :
    ¬ PosixReopens .lp64 1000 .empty .new 0x7f0000000000 0x7e0000000000 :=
  not_posixReopens .lp64 rfl rfl ⟨by decide, by decide⟩ ⟨by decide, by decide⟩

end Shm
