import CyberRT.Shm.Proof.SegmentReads
import CyberRT.Transport.ShmTransmitter

/-!
# What a `Transmit` leaves locked

`stageHeld`: the write locks that a `Transmit` has at a stage.
-/

namespace Transport

open Lib Shm Shm.Segment

variable {abi : Abi} {backend : Backend} {a : WritableBlock} {stage : TransmitStage}

/-! ## Locks that a call holds -/

def heldAt (ptr : Option (Nat × Nat)) (id i : Nat) : Int32 :=
  if ptr = some (id, i) then Block.kWriteExclusive else 0

def stageHeld : TransmitStage → Nat → Nat → Int32
  | .start, _, _ => 0
  | .wrapper a, id, i | .copy a _, id, i | .info a, id, i | .branch a, id, i
  | .releaseArena a _, id, i => heldAt a.block id i
  | .body a b, id, i | .bodyInfo a b, id, i | .release a b, id, i =>
    heldAt (a.bind WritableBlock.block) id i + heldAt b.block id i

structure ArenaHeld (k : Kernel) (a : WritableBlock) : Prop where
  block : ∃ id < k.next, a.block = some (id, (k.conf id).blockNum + a.index)
  index_lt : a.index < ShmConf.arenaBlockNum

structure BlockHeld (seg : Segment) (b : WritableBlock) : Prop where
  block : ∃ id, seg.shm = some id ∧ b.block = some (id, b.index)
  index_lt : b.index < seg.conf.blockNum

def StageOk (k : Kernel) (seg : Segment) : TransmitStage → Prop
  | .start => True
  | .wrapper a | .copy a _ | .info a | .branch a =>
    ArenaHeld k a ∧ a.block.map Prod.fst = seg.shm
  | .body a b | .bodyInfo a b | .release a b => (∀ a' ∈ a, ArenaHeld k a') ∧ BlockHeld seg b
  | .releaseArena a _ => ArenaHeld k a ∧ seg.shm ≠ none

theorem ArenaHeld.evolve {k k' : Kernel} (h : ArenaHeld k a)
    (he : Evolves k k') : ArenaHeld k' a := by
  obtain ⟨id, hid, hb⟩ := h.block
  refine ⟨⟨id, Nat.lt_of_lt_of_le hid he.next_le, ?_⟩, h.index_lt⟩
  rw [he.conf id hid]
  exact hb

theorem StageOk.evolve {k k' : Kernel} {seg : Segment}
    (h : StageOk k seg stage) (he : Evolves k k') : StageOk k' seg stage := by
  cases stage with
  | start => trivial
  | wrapper a => exact ⟨h.1.evolve he, h.2⟩
  | copy a w => exact ⟨h.1.evolve he, h.2⟩
  | info a => exact ⟨h.1.evolve he, h.2⟩
  | branch a => exact ⟨h.1.evolve he, h.2⟩
  | body a b => exact ⟨fun a' ha => (h.1 a' ha).evolve he, h.2⟩
  | bodyInfo a b => exact ⟨fun a' ha => (h.1 a' ha).evolve he, h.2⟩
  | release a b => exact ⟨fun a' ha => (h.1 a' ha).evolve he, h.2⟩
  | releaseArena a i => exact ⟨h.1.evolve he, h.2⟩

theorem heldAt_none (id i : Nat) : heldAt none id i = 0 := rfl

theorem heldAt_self (id i : Nat) : heldAt (some (id, i)) id i = -1 := if_pos rfl

theorem ArenaHeld.exists_ne {k : Kernel} (h : ArenaHeld k a) : ∃ id i, heldAt a.block id i ≠ 0 := by
  obtain ⟨id, -, hb⟩ := h.block
  refine ⟨id, (k.conf id).blockNum + a.index, ?_⟩
  rw [hb, heldAt_self]
  decide

/-! ## What the calls do to the locks -/

section
variable {k k' : Kernel} {seg seg' : Segment} {b : WritableBlock}

theorem lockChange_of_eq (h : k'.lockOf = k.lockOf) (id i : Nat) : lockChange k k' id i = 0 := by
  rw [lockChange, h]
  exact Int32.sub_self _

theorem lockChange_writeLocked {id i : Nat} (h0 : k.lockOf id i = 0)
    (h : k'.lockOf = writeLocked k.lockOf id i) (id' j : Nat) :
    lockChange k k' id' j = heldAt (some (id, i)) id' j := by
  rw [lockChange, h, writeLocked, heldAt]
  grind

theorem tryBlock_release {id i : Nat} {r : Bool} (hm : seg.shm = some id) (hid : id < k.next)
    (h : tryBlock i (fun b => some b.releaseWriteLock) (k, seg) = some (r, k', seg')) :
    seg' = seg ∧ ∀ id' j, lockChange k k' id' j = - heldAt (some (id, i)) id' j := by
  simp only [tryBlock, hm, Option.map_some, Option.some.injEq] at h
  cases h
  refine ⟨rfl, fun id' j => ?_⟩
  rw [lockChange, lockOf_setBlock hid, heldAt]
  by_cases he : (id', j) = (id, i)
  · obtain ⟨rfl, rfl⟩ := Prod.mk.inj he
    rw [if_pos rfl, if_pos rfl, Kernel.lockOf, if_pos hid]
    show k.lockNum id' j + 1 - k.lockNum id' j = 1
    grind
  · grind

theorem releaseWrittenBlock_change {r : Bool} (hs : SegOk abi k seg)
    (hb : BlockHeld seg b) (h : releaseWrittenBlock b (k, seg) = some (r, k', seg')) :
    seg' = seg ∧ ∀ id i, lockChange k k' id i = - heldAt b.block id i := by
  obtain ⟨id, hm, hblock⟩ := hb.block
  obtain ⟨seg1, u, hself, h⟩ := bind_eq_some h
  cases hself
  rw [if_pos hb.index_lt] at h
  rw [hblock]
  exact tryBlock_release hm (hs.mapped id hm).lt h

theorem releaseArenaWrittenBlock_change {id : Nat} {r : Bool}
    (hs : SegOk abi k seg) (hm : seg.shm = some id) (ha : a.index < ShmConf.arenaBlockNum)
    (h : releaseArenaWrittenBlock a (k, seg) = some (r, k', seg')) :
    seg' = seg ∧ ∀ id' i, lockChange k k' id' i =
      - heldAt (some (id, (k.conf id).blockNum + a.index)) id' i := by
  rw [releaseArenaWrittenBlock, onArenaBlock, if_pos ha] at h
  obtain ⟨seg1, u, hself, h⟩ := bind_eq_some h
  cases hself
  rw [← (hs.mapped id hm).conf]
  exact tryBlock_release hm (hs.mapped id hm).lt h

def Untouched (seg : Segment) (L : Nat → Nat → Int32) (s : Kernel × Segment) : Prop :=
  s.2 = seg ∧ s.1.lockOf = L

section
variable {L : Nat → Nat → Int32}

theorem untouched_store (buf : Option Nat) (offset : Nat) (bs : List UInt8) :
    Keeps (Untouched seg L) (store buf offset bs) := by
  intro s hs a t h
  obtain ⟨addr, -, h⟩ := Option.bind_eq_some_iff.1 h
  obtain ⟨id, -, h⟩ := Option.bind_eq_some_iff.1 h
  split at h
  · cases h
    refine ⟨hs.1, ?_⟩
    rw [← hs.2]
    exact lockOf_modify fun _ => rfl
  · cases h

theorem untouched_onBlockPtr (ptr : Option (Nat × Nat)) {f : Block → Block}
    (hf : ∀ b, (f b).lockNum = b.lockNum) : Keeps (Untouched seg L) (onBlockPtr ptr f) := by
  intro s hs a t h
  obtain ⟨⟨id, i⟩, -, hr⟩ := Option.map_eq_some_iff.1 h
  cases hr
  refine ⟨hs.1, (funext₂ fun id' j => ?_).trans hs.2⟩
  unfold Kernel.lockOf
  rw [lockNum_setBlock, hf]
  show (if id' < s.1.next then _ else _) = _
  split
  · split
    · rename_i he
      cases he
      rfl
    · rfl
  · rfl

theorem untouched_copyWrapper (b : WritableBlock) (w : Vector UInt8 wrapperSize) :
    Keeps (Untouched seg L) (copyWrapper b w) :=
  .bind (untouched_store _ _ _) fun _ => untouched_onBlockPtr _ fun _ => rfl

theorem writeInfo_true {n : Nat} {info : MessageInfo} {s t : Kernel × Segment}
    {r : Bool} (h : writeInfo b n info s = some (r, t)) : r = true := by
  obtain ⟨_, u, -, h⟩ := bind_eq_some h
  obtain ⟨_, u', -, h⟩ := bind_eq_some h
  cases h
  rfl

theorem untouched_writeInfo (b : WritableBlock) (n : Nat) (info : MessageInfo) :
    Keeps (Untouched seg L) (writeInfo b n info) := by
  exact .bind (untouched_store _ _ _) fun _ => .bind (untouched_onBlockPtr _ fun _ => rfl)
    fun _ => .pure _

end

end

/-! ## The stages -/

section
variable {k₀ : Kernel}

theorem keeps_store (buf : Option Nat) (offset : Nat) (bs : List UInt8) :
    Keeps (Good abi k₀) (store buf offset bs) := by
  intro s hs a t h
  obtain ⟨addr, -, h⟩ := Option.bind_eq_some_iff.1 h
  obtain ⟨id, -, h⟩ := Option.bind_eq_some_iff.1 h
  split at h
  · cases h
    exact hs.modify ⟨rfl, rfl⟩
  · cases h

theorem keeps_onBlockPtr (ptr : Option (Nat × Nat)) (f : Block → Block) :
    Keeps (Good abi k₀) (onBlockPtr ptr f) := by
  intro s hs a t h
  obtain ⟨⟨id, i⟩, -, hr⟩ := Option.map_eq_some_iff.1 h
  cases hr
  exact hs.modify ⟨rfl, rfl⟩

theorem keeps_writeInfo (b : WritableBlock) (n : Nat) (info : MessageInfo) :
    Keeps (Good abi k₀) (writeInfo b n info) := by
  exact .bind (keeps_store _ _ _) fun _ => .bind (keeps_onBlockPtr _ _) fun _ => .pure _

theorem keeps_acquire (c : TransmitCall) (se : StageEnv) (arena : Option WritableBlock) :
    Keeps (Good abi k₀) (c.acquire abi backend se arena) := by
  refine .bind (keeps_acquireBlockToWrite _ _ _) fun r => ?_
  cases r <;> exact .pure _

theorem keeps_next (c : TransmitCall) (se : StageEnv) (stage : TransmitStage) :
    Keeps (Good abi k₀) (c.next abi backend se stage) := by
  cases stage with
  | start =>
    refine .ite (.bind (keeps_acquireArenaBlockToWrite _ _) fun r => ?_) (keeps_acquire c se none)
    cases r <;> exact .pure _
  | wrapper a =>
    unfold TransmitCall.next
    cases c.msg.wrapper with
    | none => exact .bind (keeps_onArenaBlock _ _) fun _ => .pure _
    | some w => exact .pure _
  | copy a w =>
    exact .bind (.bind (keeps_store _ _ _) fun _ => keeps_onBlockPtr _ _) fun _ => .pure _
  | info a =>
    refine .bind (.bind (keeps_writeInfo _ _ _) fun _ => .ite (.pure _) ?_)
      fun _ => .ite (.pure _) (.pure _)
    exact .bind (keeps_onArenaBlock _ _) fun _ => .pure _
  | branch a => exact .ite (keeps_acquire c se (some a)) (.pure _)
  | body a b =>
    unfold TransmitCall.next
    cases c.msg.body with
    | none => exact .bind (keeps_onBlock _ _) fun _ => .pure _
    | some bs =>
      exact .bind (keeps_store _ _ _) fun _ => .bind (keeps_onBlockPtr _ _) fun _ => .pure _
  | bodyInfo a b =>
    refine .bind (keeps_writeInfo _ _ _) fun _ => .ite (.pure _) ?_
    exact .bind (keeps_onBlock _ _) fun _ => .pure _
  | release a b =>
    refine .bind (keeps_onBlock _ _) fun _ => ?_
    cases a <;> exact .pure _
  | releaseArena a i => exact .bind (keeps_onArenaBlock _ _) fun _ => .pure _

end

def Leaves (allowed : Prop) (held : Nat → Nat → Int32) (k k' : Kernel) (seg' : Segment) :
    StageEnd → Prop
  | .goOn stage => allowed ∧ StageOk k' seg' stage ∧
    ∀ id i, held id i + lockChange k k' id i = stageHeld stage id i
  | .returned _ => (∀ id i, held id i + lockChange k k' id i = 0) ↔ allowed

section
variable {k k' : Kernel} {seg seg' : Segment} {c : TransmitCall} {se : StageEnv} {r : StageEnd}

theorem acquire_cases {arena : Option WritableBlock} (hk : KernelOk k) (hs : SegOk abi k seg)
    (ha : ∀ a ∈ arena, ArenaHeld k a)
    (h : c.acquire abi backend se arena (k, seg) = some (r, k', seg')) :
    (∃ b, r = .goOn (.body arena b) ∧ StageOk k' seg' (.body arena b) ∧
      (∀ id i, lockChange k k' id i = heldAt b.block id i) ∧
      acquireBlockToWrite abi backend se.env se.attempts c.msg.byteSize (k, seg) =
        some (some b, k', seg')) ∨ (r = .returned none ∧ (∀ id i, lockChange k k' id i = 0) ∧
      acquireBlockToWrite abi backend se.env se.attempts c.msg.byteSize (k, seg) =
        some (none, k', seg')) := by
  obtain ⟨b, ⟨k1, seg1⟩, hacq, h⟩ := bind_eq_some h
  cases b with
  | none =>
    cases h
    exact .inr ⟨rfl, lockChange_of_eq (acquireBlockToWrite_none hacq), hacq⟩
  | some b =>
    cases h
    have hgood := keeps_acquireBlockToWrite _ _ _ (k, seg) ⟨hk, hs, .refl k⟩ _ _ hacq
    obtain ⟨id, hm, -, hb, hlt, -, hfree, hlock⟩ := acquireBlockToWrite_some hk hs hacq
    have hblock : b.block = some (id, b.index) := congrArg WritableBlock.block hb
    refine .inl ⟨b, rfl, ⟨fun a h => (ha a h).evolve hgood.evolves, ⟨id, hm, hblock⟩, hlt⟩, ?_,
      hacq⟩
    rw [hblock]
    exact lockChange_writeLocked hfree hlock

theorem Leaves.of_untouched {allowed : Prop} {held : Nat → Nat → Int32}
    (hu : Untouched seg k.lockOf (k', seg')) (hallowed : allowed) (hst : StageOk k' seg stage)
    (hheld : ∀ id i, held id i = stageHeld stage id i) :
    Leaves allowed held k k' seg' (.goOn stage) := by
  obtain ⟨rfl, hl⟩ := hu
  refine ⟨hallowed, hst, fun id i => ?_⟩
  rw [lockChange_of_eq hl, Int32.add_zero]
  exact hheld id i

theorem start_leaves (hk : KernelOk k) (hs : SegOk abi k seg)
    (h : c.next abi backend se .start (k, seg) = some (r, k', seg')) :
    Leaves True (fun _ _ => 0) k k' seg' r := by
  have hgood := keeps_next c se .start (k, seg) ⟨hk, hs, .refl k⟩ _ _ h
  simp only [TransmitCall.next, if_apply] at h
  split at h
  · obtain ⟨a, ⟨k1, seg1⟩, hacq, h⟩ := bind_eq_some h
    rcases acquireArenaBlockToWrite_locks hk hs hacq with
      ⟨rfl, hl⟩ | ⟨a, id, rfl, hm, hb, hlt, hfree, hl⟩
    · cases h
      refine iff_true_intro fun id i => ?_
      rw [Int32.zero_add, lockChange_of_eq hl]
    · cases h
      have hmap := hgood.seg.mapped id hm
      refine ⟨trivial, ⟨⟨⟨id, hmap.lt, ?_⟩, hlt⟩, ?_⟩, fun id' i => ?_⟩
      · rw [← hmap.conf]
        exact hb
      · rw [hb, hm]
        rfl
      · rw [Int32.zero_add, lockChange_writeLocked hfree hl, stageHeld, hb]
  · have hnone : ∀ a ∈ (none : Option WritableBlock), ArenaHeld k a := fun a ha => by cases ha
    rcases acquire_cases hk hs hnone h with ⟨b, rfl, hst, hl, -⟩ | ⟨rfl, hl, -⟩
    · refine ⟨trivial, hst, fun id i => ?_⟩
      rw [hl, stageHeld, Option.bind_none, heldAt_none]
    · refine iff_true_intro fun id i => ?_
      rw [Int32.zero_add, hl]

section
variable (hs : SegOk abi k seg)
include hs

theorem releaseArena_held {b : Bool} (ha : ArenaHeld k a) (hm : a.block.map Prod.fst = seg.shm)
    (h : releaseArenaWrittenBlock a (k, seg) = some (b, k', seg')) (id i : Nat) :
    heldAt a.block id i + lockChange k k' id i = 0 := by
  obtain ⟨id', -, hb⟩ := ha.block
  rw [hb] at hm
  rw [(releaseArenaWrittenBlock_change hs hm.symm ha.index_lt h).2, hb]
  exact Int32.add_right_neg _

theorem wrapper_leaves (hst : StageOk k seg (.wrapper a))
    (h : c.next abi backend se (.wrapper a) (k, seg) = some (r, k', seg')) :
    Leaves True (heldAt a.block) k k' seg' r := by
  cases hw : c.msg.wrapper with
  | none =>
    simp only [TransmitCall.next, hw] at h
    obtain ⟨b, ⟨k1, seg1⟩, hrel, h⟩ := bind_eq_some h
    cases h
    exact iff_true_intro (releaseArena_held hs hst.1 hst.2 hrel)
  | some w =>
    simp only [TransmitCall.next, hw] at h
    cases h
    exact .of_untouched ⟨rfl, rfl⟩ trivial hst fun _ _ => rfl

omit hs in
theorem branch_leaves (hk : KernelOk k) (hs : SegOk abi k seg) (hst : StageOk k seg (.branch a))
    (h : c.next abi backend se (.branch a) (k, seg) = some (r, k', seg')) :
    Leaves (TransmitSys.Allowed abi backend k seg c se (.branch a)) (heldAt a.block) k k' seg'
      r := by
  simp only [TransmitCall.next, if_apply] at h
  split at h
  · rename_i hrec
    have ha : ∀ a' ∈ some a, ArenaHeld k a' := fun a' h => Option.some.inj h ▸ hst.1
    rcases acquire_cases hk hs ha h with ⟨b, rfl, hst', hl, hacq⟩ | ⟨rfl, hl, hacq⟩
    · refine ⟨fun _ t ht => ?_, hst', fun id i => ?_⟩
      · rw [hacq] at ht
        cases ht
      · rw [hl]
        rfl
    · refine ⟨fun h0 => ?_, fun hall => absurd hacq (hall hrec _)⟩
      obtain ⟨id, i, hne⟩ := hst.1.exists_ne
      grind
  · rename_i hrec
    cases h
    obtain ⟨id, -, hb⟩ := hst.1.block
    refine .of_untouched ⟨rfl, rfl⟩ (fun h => absurd h hrec) ⟨hst.1, ?_⟩ fun _ _ => rfl
    rw [← hst.2, hb]
    exact Option.some_ne_none _

theorem body_leaves {a : Option WritableBlock} {b : WritableBlock}
    (hgood : Good abi k (k', seg')) (hst : StageOk k seg (.body a b))
    (h : c.next abi backend se (.body a b) (k, seg) = some (r, k', seg')) :
    Leaves (TransmitSys.Allowed abi backend k seg c se (.body a b)) (stageHeld (.body a b)) k k'
      seg' r := by
  cases hbody : c.msg.body with
  | none =>
    simp only [TransmitCall.next, hbody] at h
    obtain ⟨_, ⟨k1, seg1⟩, hrel, h⟩ := bind_eq_some h
    cases h
    -- what is left is the arena block, if there is one
    have hleft : ∀ id i, stageHeld (.body a b) id i + lockChange k k' id i =
        heldAt (a.bind WritableBlock.block) id i := by
      intro id i
      rw [(releaseWrittenBlock_change hs hst.2 hrel).2, stageHeld]
      grind
    simp only [Leaves, hleft]
    cases a with
    | none => exact iff_true_intro heldAt_none
    | some a =>
      obtain ⟨id, i, hne⟩ := (hst.1 a rfl).exists_ne
      exact ⟨fun h0 => absurd (h0 id i) hne, fun hall => absurd hbody hall⟩
  | some bs =>
    simp only [TransmitCall.next, hbody] at h
    obtain ⟨_, s1, hstore, h⟩ := bind_eq_some h
    obtain ⟨_, s2, hptr, h⟩ := bind_eq_some h
    cases h
    have hu := untouched_store _ _ _ _ ⟨rfl, rfl⟩ _ _ hstore
    refine .of_untouched (untouched_onBlockPtr _ ?_ _ hu _ _ hptr) ?_ (hst.evolve hgood.evolves)
      fun _ _ => rfl
    · exact fun _ => rfl
    · cases a with
      | none => trivial
      | some a =>
        show c.msg.body ≠ none
        grind

theorem release_leaves {a : Option WritableBlock} {b : WritableBlock}
    (hgood : Good abi k (k', seg')) (hst : StageOk k seg (.release a b))
    (h : c.next abi backend se (.release a b) (k, seg) = some (r, k', seg')) :
    Leaves True (stageHeld (.release a b)) k k' seg' r := by
  obtain ⟨_, ⟨k1, seg1⟩, hrel, hend⟩ := bind_eq_some h
  obtain ⟨rfl, hl⟩ := releaseWrittenBlock_change hs hst.2 hrel
  cases a with
  | none =>
    cases hend
    refine iff_true_intro fun id i => ?_
    rw [hl, stageHeld, Option.bind_none, heldAt_none]
    grind
  | some a =>
    cases hend
    obtain ⟨id, hm, -⟩ := hst.2.block
    refine ⟨trivial, ⟨(hst.1 a rfl).evolve hgood.evolves, ?_⟩, fun id i => ?_⟩
    · grind
    · rw [hl, stageHeld, stageHeld, Option.bind_some]
      grind

theorem releaseArena_leaves {n : Int} (hst : StageOk k seg (.releaseArena a n))
    (h : c.next abi backend se (.releaseArena a n) (k, seg) = some (r, k', seg')) :
    Leaves (a.block.map Prod.fst = seg.shm) (heldAt a.block) k k' seg' r := by
  obtain ⟨_, ⟨k1, seg1⟩, hrel, h⟩ := bind_eq_some h
  cases h
  refine ⟨fun h0 => ?_, fun hm => releaseArena_held hs hst.1 hm hrel⟩
  obtain ⟨id', hm⟩ := Option.ne_none_iff_exists'.1 hst.2
  obtain ⟨id, -, hb⟩ := hst.1.block
  rw [hb, hm]
  by_contra hne
  -- in the object that the segment maps another lock went up
  have hleft := h0 id ((k.conf id).blockNum + a.index)
  rw [(releaseArenaWrittenBlock_change hs hm hst.1.index_lt hrel).2, hb, heldAt_self, heldAt,
    if_neg fun he => hne (congrArg (Option.map Prod.fst) he).symm] at hleft
  exact absurd hleft (by decide)

end

theorem stage_leaves (hk : KernelOk k) (hs : SegOk abi k seg) (hst : StageOk k seg stage)
    (h : c.next abi backend se stage (k, seg) = some (r, k', seg')) :
    Leaves (TransmitSys.Allowed abi backend k seg c se stage) (stageHeld stage) k k' seg' r := by
  have hgood := keeps_next c se stage (k, seg) ⟨hk, hs, .refl k⟩ _ _ h
  cases stage with
  | start => exact start_leaves hk hs h
  | wrapper a => exact wrapper_leaves hs hst h
  | copy a w =>
    obtain ⟨_, s1, hcopy, h⟩ := bind_eq_some h
    cases h
    have hu := untouched_copyWrapper _ _ _ ⟨rfl, rfl⟩ _ _ hcopy
    exact .of_untouched hu trivial (hst.evolve hgood.evolves) fun _ _ => rfl
  | info a =>
    obtain ⟨ok, s1, hinfo, h⟩ := bind_eq_some h
    obtain ⟨ok', s2, hwrite, hinfo⟩ := bind_eq_some hinfo
    obtain rfl := writeInfo_true hwrite
    cases hinfo
    cases h
    have hu := untouched_writeInfo _ _ _ _ ⟨rfl, rfl⟩ _ _ hwrite
    exact .of_untouched hu trivial (hst.evolve hgood.evolves) fun _ _ => rfl
  | branch a => exact branch_leaves hk hs hst h
  | body a b => exact body_leaves hs hgood hst h
  | bodyInfo a b =>
    obtain ⟨ok, s1, hwrite, h⟩ := bind_eq_some h
    obtain rfl := writeInfo_true hwrite
    cases h
    have hu := untouched_writeInfo _ _ _ _ ⟨rfl, rfl⟩ _ _ hwrite
    exact .of_untouched hu trivial (hst.evolve hgood.evolves) fun _ _ => rfl
  | release a b => exact release_leaves hs hgood hst h
  | releaseArena a i => exact releaseArena_leaves hs hst h

theorem allowed_of_stops (hst : StageOk k seg stage)
    (h : c.next abi backend se stage (k, seg) = none) :
    TransmitSys.Allowed abi backend k seg c se stage := by
  cases stage with
  | branch a =>
    intro hrec t ht
    simp [TransmitCall.next, TransmitCall.acquire, hrec, bind_apply, ht, pure_apply] at h
  | body a b =>
    cases a with
    | none => trivial
    | some a =>
      intro hbody
      obtain ⟨id, hm, -⟩ := hst.2.block
      simp [TransmitCall.next, hbody, bind_apply, pure_apply, releaseWrittenBlock, onBlock, self,
        hst.2.index_lt, tryBlock, hm] at h
  | releaseArena a i =>
    obtain ⟨id, hm⟩ := Option.ne_none_iff_exists'.1 hst.2
    simp [TransmitCall.next, bind_apply, pure_apply, releaseArenaWrittenBlock, onArenaBlock, self,
      hst.1.index_lt, tryBlock, hm] at h
  | _ => trivial

end

/-! ## Whole runs -/

def CallOk (k : Kernel) (seg : Segment) (changed : Nat → Nat → Int32) :
    Option (TransmitCall × TransmitStage) → Prop
  | none => ∀ id i, changed id i = 0
  | some (_, stage) => StageOk k seg stage ∧ ∀ id i, changed id i = stageHeld stage id i

theorem CallOk.evolve {k k' : Kernel} {seg : Segment} {changed : Nat → Nat → Int32}
    {call : Option (TransmitCall × TransmitStage)} (h : CallOk k seg changed call)
    (he : Evolves k k') : CallOk k' seg changed call := by
  cases call with
  | none => exact h
  | some call => exact ⟨h.1.evolve he, h.2⟩

end Transport

theorem Shm.Sys.segs_step {abi : Shm.Abi} {backend : Shm.Backend} {s t : Shm.Sys}
    {op : Shm.SegmentOp} (h : s.step abi backend op = some t) {q : Nat} (hq : q ≠ op.segment) :
    t.segs q = s.segs q := by
  cases op <;>
  · simp only [SegmentOp.segment] at hq
    obtain ⟨⟨a, u⟩, hrun, rfl⟩ := Option.map_eq_some_iff.1 h
    obtain ⟨k, seg, -, rfl⟩ := run_eq_some hrun
    simp [setHeld, hq]

namespace Transport

open Lib Shm Shm.Segment

variable {abi : Abi} {backend : Backend}

namespace TransmitSys

variable {s t : TransmitSys} {op : TransmitSysOp}

structure Inv (abi : Abi) (s : TransmitSys) : Prop where
  sys : s.sys.Ok abi
  calls : ∀ p, CallOk s.sys.kernel (s.sys.segs p) (s.changed p) (s.calls p)

theorem inv_init : Inv abi init where
  sys := Sys.ok_init
  calls _ _ _ := rfl

section
variable (h : Inv abi s)
include h

theorem Inv.balanced : Balanced s := by
  intro p hp
  have hcall := h.calls p
  rw [hp] at hcall
  exact hcall

/-- **A stage in the system**: it keeps the invariant if it is allowed, and if a `Transmit` that it
ends has left every lock as it was, it was allowed. -/
theorem Inv.next {p : Nat} {se : StageEnv} {c : TransmitCall}
    {stage : TransmitStage} (hp : s.calls p = some (c, stage))
    (hstep : step abi backend s (.next p se) = some t) :
    (Allowed abi backend s.sys.kernel (s.sys.segs p) c se stage → Inv abi t) ∧
      (Balanced t → Allowed abi backend s.sys.kernel (s.sys.segs p) c se stage) := by
  have hcall := h.calls p
  rw [hp] at hcall
  obtain ⟨hst, hheld⟩ := hcall
  simp only [step, hp] at hstep
  obtain ⟨⟨r, sys⟩, hrun, rfl⟩ := Option.map_eq_some_iff.1 hstep
  obtain ⟨hok, he⟩ := h.sys.run (keeps_next c se stage) hrun
  obtain ⟨k, seg, hnext, rfl⟩ := Sys.run_eq_some hrun
  have hleaves := stage_leaves h.sys.kernel (h.sys.segs p) hst hnext
  rw [← funext₂ hheld] at hleaves
  refine ⟨fun hallowed => ⟨hok, fun q => ?_⟩, fun hbal => ?_⟩
  · by_cases hq : q = p
    · subst hq
      simp only [Function.update_self]
      cases r with
      | goOn stage' => exact hleaves.2
      | returned result => exact hleaves.2 hallowed
    · simp only [Function.update_of_ne hq]
      exact (h.calls q).evolve he
  · cases r with
    | goOn stage' => exact hleaves.1
    | returned result =>
      refine hleaves.1 ?_
      simpa only [Function.update_self] using hbal p (by simp [after])

theorem inv_step (hstep : step abi backend s op = some t) :
    (StepOk abi backend s op → Inv abi t) ∧ (Balanced t → StepOk abi backend s op) := by
  cases op with
  | transmit p c =>
    refine ⟨fun _ => ?_, fun _ => trivial⟩
    cases hp : s.calls p with
    | some call =>
      simp only [step, hp] at hstep
      cases hstep
      exact h
    | none =>
      simp only [step, hp] at hstep
      cases hstep
      refine ⟨h.sys, fun q => ?_⟩
      by_cases hq : q = p
      · subst hq
        simp only [Function.update_self]
        exact ⟨trivial, fun _ _ => rfl⟩
      · simp only [Function.update_of_ne hq]
        exact h.calls q
  | next p se =>
    cases hp : s.calls p with
    | none =>
      simp only [step, hp] at hstep
      cases hstep
      refine ⟨fun _ => h, fun _ c stage hc => ?_⟩
      rw [hp] at hc
      cases hc
    | some call =>
      obtain ⟨c, stage⟩ := call
      obtain ⟨hinv, hallowed⟩ := h.next hp hstep
      refine ⟨fun hok => hinv (hok c stage hp), fun hbal c' stage' hc => ?_⟩
      grind
  | other op =>
    refine ⟨fun _ => ?_, fun _ => trivial⟩
    simp only [step] at hstep
    split at hstep
    · cases hstep
      exact h
    · rename_i hidle
      obtain ⟨sys, hsys, rfl⟩ := Option.map_eq_some_iff.1 hstep
      obtain ⟨hok, he⟩ := h.sys.step hsys
      refine ⟨hok, fun q => ?_⟩
      by_cases hq : q = op.segment
      · -- outside of a call nothing is known of the segment
        have hnone : s.calls q = none := by
          subst hq
          simpa using hidle
        have hcall := h.calls q
        rw [hnone] at hcall
        rw [hnone]
        exact hcall
      · rw [Sys.segs_step hsys hq]
        exact (h.calls q).evolve he

theorem stepOk_of_stops (hstep : step abi backend s op = none) : StepOk abi backend s op := by
  cases op with
  | transmit p c => trivial
  | other op => trivial
  | next p se =>
    intro c stage hp
    have hcall := h.calls p
    rw [hp] at hcall
    simp only [step, hp, Option.map_eq_none_iff, Sys.run] at hstep
    exact allowed_of_stops hcall.1 hstep

end

/-- **Every `Transmit` of a run releases what it has locked, once and where it has locked it, and
changes no other lock, exactly when** in the arena path no acquire of an ordinary block and no
`SerializeToArray` fails, and the segment still maps the object of the arena block when that is
released. -/
theorem always_releases_iff (abi : Abi) (backend : Backend) (ops : List TransmitSysOp) :
    Always (bindStep (step abi backend)) (fun o => ∀ s ∈ o, Balanced s) (some init) ops ↔
      Along (bindStep (step abi backend)) (onSome (StepOk abi backend)) (some init) ops := by
  refine always_iff_along_of_inv (P := fun o => ∀ s ∈ o, Inv abi s) ?_ ?_ ?_ ?_
  · intro s hs
    cases hs
    exact inv_init
  · exact fun o ho s hs => (ho s hs).balanced
  · intro o op ho hok t ht
    obtain ⟨s, hs, hstep⟩ := Option.bind_eq_some_iff.1 ht
    exact (inv_step (ho s hs) hstep).1 (hok s hs)
  · intro o op ho hbal s hs
    cases hstep : step abi backend s op with
    | none => exact stepOk_of_stops (ho s hs) hstep
    | some t =>
      refine (inv_step (ho s hs) hstep).2 (hbal t ?_)
      obtain rfl := Option.mem_def.1 hs
      exact hstep

theorem emptyBody_length : ∀ bs ∈ some ([] : List UInt8), bs.length = 0 := by simp

def emptyCall : TransmitCall where
  arenaTransmit := true
  msg := ⟨some (.replicate wrapperSize 0), 0, some [], emptyBody_length⟩
  info := ⟨⟨.replicate idSize 0, 0⟩, 0, 0, ⟨.replicate idSize 0, 0⟩, 0⟩

def atOnce : StageEnv := ⟨Sys.someEnv, [false], true⟩

def recreatedBetween : List TransmitSysOp :=
  .transmit 0 emptyCall :: .replicate 4 (.next 0 atOnce) ++
    .other (.acquireBlockToWrite 1 Sys.someEnv [false] 20000) :: .replicate 5 (.next 0 atOnce)

theorem recreatedBetween_changed :
    (recreatedBetween.foldl (bindStep (step .lp64 .xsi)) (some init)).map (fun s =>
      ((s.calls 0).isNone, s.changed 0 0 512, s.changed 0 1 128)) = some (true, -1, 1) := by
  decide +kernel

theorem not_always_releases_recreated :
    ¬ Always (bindStep (step .lp64 .xsi)) (fun o => ∀ s ∈ o, Balanced s) (some init)
      recreatedBetween := by
  intro h
  obtain ⟨s, hs, hr⟩ := Option.map_eq_some_iff.1 recreatedBetween_changed
  simp only [Prod.mk.injEq, Option.isNone_iff_eq_none] at hr
  obtain ⟨hcall, hleft, -⟩ := hr
  have hzero := h.last s hs 0 hcall 0 512
  grind

end TransmitSys

end Transport
