import CyberRT.Shm.Proof.SegmentReads
import CyberRT.Transport.ShmTransmitter

/-!
# What the calls of a channel do to its arena blocks

While the segment is not recreated there is one object (`OneObject`), and of it a call changes
little that the arena blocks see.
-/

namespace Transport

open Function Lib Shm Shm.Segment ShmConf MessageInfo Triple ArenaSys

variable {abi : Abi} {backend : Backend}

/-! ## The arena part of an object -/

variable {i spurious : Nat} {attempts : List Bool} {r : Bool}

def objectConf (o : ShmObject) : ShmConf := .update o.state.ceilingMsgSize

def arenaBlock (o : ShmObject) (j : Nat) : Block := o.blocks ((objectConf o).blockNum + j)

def arenaOffset (abi : Abi) (o : ShmObject) (j : Nat) : Nat :=
  arenaBlockBufOffset abi (objectConf o) j

variable (abi) in
theorem arenaOffset_eq (o : ShmObject) (j : Nat) :
    arenaOffset abi o j = arenaOffset abi o 0 + j * wrapperSize := by
  simp [arenaOffset, arenaBlockBufOffset, arenaMessageSize, wrapperSize]

structure HasWrapper (abi : Abi) (o : ShmObject) (j : Nat) (w : Vector UInt8 wrapperSize) :
    Prop where
  data : read o.mem (arenaOffset abi o j) wrapperSize = w.toList
  msgSize : (arenaBlock o j).msgSize = wrapperSize

structure HasInfo (abi : Abi) (o : ShmObject) (j : Nat) (info : MessageInfo) : Prop where
  data : read o.mem (arenaOffset abi o j + wrapperSize) fieldSize = info.bytes
  msgInfoSize : (arenaBlock o j).msgInfoSize = kSize

structure Relocks (abi : Abi) (o o' : ShmObject) (g : Nat → Int32) : Prop where
  size : o'.size = o.size
  ceiling : o'.state.ceilingMsgSize = o.state.ceilingMsgSize
  needRemap : o'.state.needRemap = o.state.needRemap
  mem : ∀ x, arenaOffset abi o 0 ≤ x → o'.mem x = o.mem x
  block : ∀ j, arenaBlock o' j = { arenaBlock o j with lockNum := g j }

def arenaLock (o : ShmObject) (j : Nat) : Int32 := (arenaBlock o j).lockNum

section
variable {o o' o'' : ShmObject} {g g' : Nat → Int32} {j : Nat}

theorem Relocks.refl (o : ShmObject) : Relocks abi o o (arenaLock o) :=
  ⟨rfl, rfl, rfl, fun _ _ => rfl, fun _ => rfl⟩

section
variable (h : Relocks abi o o' g)
include h

theorem Relocks.conf : objectConf o' = objectConf o := by
  rw [objectConf, h.ceiling, objectConf]

theorem Relocks.offset (j : Nat) : arenaOffset abi o' j = arenaOffset abi o j := by
  rw [arenaOffset, h.conf, arenaOffset]

theorem Relocks.lock (j : Nat) : arenaLock o' j = g j := by
  rw [arenaLock, h.block]

theorem Relocks.trans (h' : Relocks abi o' o'' g') : Relocks abi o o'' g' where
  size := h'.size.trans h.size
  ceiling := h'.ceiling.trans h.ceiling
  needRemap := h'.needRemap.trans h.needRemap
  mem x hx := (h'.mem x (by rwa [h.offset])).trans (h.mem x hx)
  block j := by rw [h'.block, h.block]

end

theorem HasWrapper.relock {w : Vector UInt8 wrapperSize} (h : HasWrapper abi o j w)
    (hr : Relocks abi o o' g) : HasWrapper abi o' j w where
  data := by
    rw [← h.data, hr.offset]
    refine read_congr fun x hx _ => hr.mem x ?_
    have := arenaOffset_eq abi o j
    omega
  msgSize := by
    rw [hr.block]
    exact h.msgSize

theorem HasInfo.relock {info : MessageInfo} (h : HasInfo abi o j info)
    (hr : Relocks abi o o' g) : HasInfo abi o' j info where
  data := by
    rw [← h.data, hr.offset]
    refine read_congr fun x hx _ => hr.mem x ?_
    have := arenaOffset_eq abi o j
    omega
  msgInfoSize := by
    rw [hr.block]
    exact h.msgInfoSize

theorem Relocks.state (o : ShmObject) {st : State}
    (hc : st.ceilingMsgSize = o.state.ceilingMsgSize) (hn : st.needRemap = o.state.needRemap) :
    Relocks abi o { o with state := st } (arenaLock o) where
  size := rfl
  ceiling := hc
  needRemap := hn
  mem _ _ := rfl
  block j := by
    have hconf : objectConf { o with state := st } = objectConf o := by
      rw [objectConf, hc, objectConf]
    rw [arenaBlock, hconf]
    rfl

variable (abi) in
theorem Relocks.arena (o : ShmObject) (j : Nat) {b : Block}
    (hb : b = { arenaBlock o j with lockNum := b.lockNum }) :
    Relocks abi o { o with blocks := update o.blocks ((objectConf o).blockNum + j) b }
      (update (arenaLock o) j b.lockNum) where
  size := rfl
  ceiling := rfl
  needRemap := rfl
  mem _ _ := rfl
  block i := by
    show update o.blocks ((objectConf o).blockNum + j) b ((objectConf o).blockNum + i) = _
    by_cases hi : i = j
    · grind
    · rw [update_of_ne (by omega), update_of_ne hi]
      rfl

theorem Relocks.ordinary (o : ShmObject) {i : Nat} (b : Block) (hi : i < (objectConf o).blockNum) :
    Relocks abi o { o with blocks := update o.blocks i b } (arenaLock o) where
  size := rfl
  ceiling := rfl
  needRemap := rfl
  mem _ _ := rfl
  block j := by
    show update o.blocks i b ((objectConf o).blockNum + j) = _
    rw [update_of_ne (by omega)]
    rfl

theorem Relocks.store (o : ShmObject) {off : Nat} {bs : List UInt8}
    (h : off + bs.length ≤ arenaOffset abi o 0) :
    Relocks abi o { o with mem := write o.mem off bs } (arenaLock o) where
  size := rfl
  ceiling := rfl
  needRemap := rfl
  mem x hx := write_of_disjoint (.inr (by omega))
  block _ := rfl

end

/-! ## One object -/

structure OneObject (k : Kernel) : Prop where
  next_le : k.next ≤ 1
  linked : 0 < k.next → k.linked = some 0
  needRemap : (k.objects 0).state.needRemap = false

section
variable {k k' : Kernel} {seg seg' : Segment} {e : Env} {first id : Nat}

theorem OneObject.eq_zero (h : OneObject k) (hid : id < k.next) : id = 0 := by
  have := h.next_le
  omega

theorem OneObject.mapped (h : OneObject k) (hs : SegOk abi k seg)
    (hid : seg.shm = some id) : id = 0 :=
  h.eq_zero (hs.mapped id hid).lt

theorem OneObject.modify (h : OneObject k) {f : ShmObject → ShmObject}
    (hf : (f (k.objects 0)).state.needRemap = (k.objects 0).state.needRemap) :
    OneObject (k.modify 0 f) where
  next_le := h.next_le
  linked := h.linked
  needRemap := by
    rw [objects_modify_self, hf]
    exact h.needRemap

structure Attached (abi : Abi) (k k' : Kernel) : Prop where
  one : OneObject k'
  next_le : k.next ≤ k'.next
  old : 0 < k.next → Relocks abi (k.objects 0) (k'.objects 0) (arenaLock (k.objects 0)) ∧
    (k'.objects 0).state.arenaSeq = (k.objects 0).state.arenaSeq
  fresh : k.next = 0 → 0 < k'.next → ∀ j, arenaLock (k'.objects 0) j = 0

theorem Attached.refl (h : OneObject k) : Attached abi k k where
  one := h
  next_le := Nat.le_refl _
  old _ := ⟨.refl _, rfl⟩
  fresh h0 h1 := absurd h1 (by omega)

theorem Attached.increaseReferenceCounts (h : OneObject k) (h0 : 0 < k.next) :
    Attached abi k (k.modify 0 ShmObject.increaseReferenceCounts) where
  one := h.modify rfl
  next_le := Nat.le_refl _
  old _ := by exact ⟨.state _ rfl rfl, rfl⟩
  fresh h1 := absurd h1 (by omega)

theorem ready_openOrCreate_attached (hk : KernelOk k) (hs : SegOk abi k seg) (h1 : OneObject k)
    (hopen : seg.init = false → k.linked ≠ none → backend = .xsi)
    (h : ready (openOrCreate abi backend e.fuel e.openAt) (k, seg) = some (r, k', seg')) :
    r = true ∧ Attached abi k k' := by
  cases hi : seg.init with
  | true =>
    simp only [ready, bind_apply, self, Option.bind_some, hi, if_true, pure_apply] at h
    cases h
    exact ⟨rfl, .refl h1⟩
  | false =>
    simp only [ready, bind_apply, self, Option.bind_some, hi, Bool.false_eq_true, if_false] at h
    cases hl : k.linked with
    | none =>
      have h0 : k.next = 0 := by
        by_contra hne
        have := h1.linked (by omega)
        rw [hl] at this
        cases this
      obtain ⟨n, hn⟩ := hs.sized
      have hcreate : ∃ nullCheck, create abi nullCheck k seg e.openAt.val = (r, k', seg') := by
        cases backend <;>
          simp only [openOrCreate, xsiOpenOrCreate, posixOpenOrCreate, hi, hl, Option.isSome_none,
            Bool.false_eq_true, if_false, Option.some.injEq] at h <;>
          exact ⟨_, h⟩
      obtain ⟨nullCheck, hc⟩ := hcreate
      rw [create_eq abi nullCheck k seg hn (e.openAt.mmapOk n), h0] at hc
      cases hc
      have hobj : (⟨update k.objects 0 (.create (.update n)), some 0, 0 + 1⟩ :
          Kernel).objects 0 = .create (.update n) := by
        dsimp only
        rw [update_self]
      refine ⟨rfl, ⟨Nat.le_refl _, fun _ => rfl, ?_⟩, by rw [h0]; exact Nat.zero_le _, fun hp => ?_,
        fun _ _ j => ?_⟩
      · rfl
      · omega
      · rfl
    | some id =>
      have hid := hk.linked_lt id hl
      obtain rfl := h1.eq_zero hid
      obtain rfl := hopen hi (by rw [hl]; exact Option.some_ne_none 0)
      have ho : openOnly abi .xsi e.fuel e.openAt (k, seg) = some (r, k', seg') := by
        simpa only [openOrCreate, xsiOpenOrCreate, hi, hl, Option.isSome_some, Bool.false_eq_true,
          if_false, if_true, openOnly] using h
      obtain ⟨n, hn, -⟩ := hk.exists_conf hid
      simp only [openOnly, xsiOpenOnly_eq abi hi hl hn (e.openAt.mmapOk n), Option.some.injEq,
        Prod.mk.injEq] at ho
      obtain ⟨rfl, rfl, -⟩ := ho
      exact ⟨rfl, .increaseReferenceCounts h1 hid⟩

theorem remapIfNeeded_one (hs : SegOk abi k seg) (h1 : OneObject k)
    (h : remapIfNeeded abi backend e (k, seg) = some (r, k', seg')) :
    r = true ∧ seg.shm = some 0 ∧ k' = k ∧ seg' = seg := by
  obtain ⟨need, u, hneed, hrest⟩ := bind_eq_some h
  obtain ⟨id, hid, hr⟩ := Option.map_eq_some_iff.1 hneed
  cases hr
  obtain rfl := h1.mapped hs hid
  simp only [h1.needRemap, Bool.false_eq_true, if_false, pure_apply] at hrest
  grind

/-! ## Acquiring an arena block -/

theorem tryLockForWrite_eq {b b' : Block} {spurious : Bool}
    (h : b.tryLockForWrite spurious = some b') : b.lockNum = 0 ∧ b' = { b with lockNum := -1 } := by
  unfold Block.tryLockForWrite at h
  split at h
  · rename_i hc
    cases h
    exact ⟨hc.1, rfl⟩
  · cases h

theorem nextArenaBlock_congr {o o' : ShmObject}
    (h : ∀ j, o'.blocks (first + j) = o.blocks (first + j)) (seq : UInt32) (attempts : List Bool) :
    nextArenaBlock o' first seq attempts =
      nextArenaBlock o first seq attempts := by
  induction attempts generalizing seq with
  | nil => rfl
  | cons spurious rest ih => simp only [nextArenaBlock, h, ih]

variable (abi) in
theorem relocks_draw (k : Kernel) :
    Relocks abi (k.objects 0)
      ((k.setState 0 (fetchAddArenaSeq (k.objects 0).state).2).objects 0)
      (arenaLock (k.objects 0)) := by
  exact .state _ rfl rfl

variable (abi) in
theorem nextIndex_arena {j : Nat} (hm : seg.shm = some 0)
    (hfirst : first = (objectConf (k.objects 0)).blockNum)
    (h : nextIndex fetchAddArenaSeq first arenaBlockNum attempts (k, seg) =
      some (j, k', seg')) :
    seg' = seg ∧ j < arenaBlockNum ∧ k'.next = k.next ∧ k'.linked = k.linked ∧
      nextArenaBlock (k.objects 0) first (k.objects 0).state.arenaSeq attempts = some j ∧
      arenaLock (k.objects 0) j = 0 ∧
      Relocks abi (k.objects 0) (k'.objects 0) (update (arenaLock (k.objects 0)) j (-1)) := by
  induction attempts generalizing k with
  | nil => cases h
  | cons spurious rest ih =>
    obtain ⟨seq, u, hseq, h⟩ := bind_eq_some h
    simp only [onState, hm, Option.map_some, Option.some.injEq] at hseq
    cases hseq
    obtain ⟨locked, u, htry, h⟩ := bind_eq_some h
    have hrel := relocks_draw abi k
    have hblocks : ((k.setState 0 (fetchAddArenaSeq (k.objects 0).state).2).objects 0).blocks =
        (k.objects 0).blocks := by
      rw [Kernel.setState, objects_modify_self]
    have hseq' : ((k.setState 0 (fetchAddArenaSeq (k.objects 0).state).2).objects 0).state.arenaSeq =
        (k.objects 0).state.arenaSeq + 1 := by
      rw [Kernel.setState, objects_modify_self]
      rfl
    have hlocks := funext hrel.lock
    have hconf := hfirst.trans (congrArg blockNum hrel.conf.symm)
    generalize hk1 : k.setState 0 (fetchAddArenaSeq (k.objects 0).state).2 = k1 at *
    have hnext : k1.next = k.next ∧ k1.linked = k.linked := by
      rw [← hk1]
      exact ⟨rfl, rfl⟩
    have hlt : (fetchAddArenaSeq (k.objects 0).state).1.toNat % arenaBlockNum <
        arenaBlockNum := Nat.mod_lt _ (by decide)
    generalize hi : (fetchAddArenaSeq (k.objects 0).state).1.toNat % arenaBlockNum = i at *
    replace hi : (k.objects 0).state.arenaSeq.toNat % arenaBlockNum = i := hi
    simp only [tryBlock, hm, Option.map_some, Option.some.injEq, hblocks] at htry
    cases hb : ((k.objects 0).blocks (first + i)).tryLockForWrite spurious with
    | none =>
      rw [hb] at htry
      obtain ⟨rfl, rfl⟩ := Prod.mk.inj htry
      obtain ⟨h1, h2, h3, h4, h5, h6, h7⟩ := ih hconf h
      rw [nextArenaBlock_congr fun _ => congrFun hblocks _, hseq'] at h5
      rw [hlocks] at h6 h7
      refine ⟨h1, h2, h3.trans hnext.1, h4.trans hnext.2, ?_, h6, hrel.trans h7⟩
      rw [nextArenaBlock, hi, hb]
      exact h5
    | some b' =>
      rw [hb] at htry
      obtain ⟨rfl, rfl⟩ := Prod.mk.inj htry
      cases h
      obtain ⟨hfree, hb'⟩ := tryLockForWrite_eq hb
      have harena := Relocks.arena abi (k1.objects 0) j (b := b') (by
        rw [hb', arenaBlock, ← hconf, hblocks])
      rw [← hconf, hlocks] at harena
      refine ⟨rfl, hlt, hnext.1, hnext.2, ?_, ?_, hrel.trans ?_⟩
      · rw [nextArenaBlock, hi, hb]
        rfl
      · rw [arenaLock, arenaBlock, ← hfirst]
        exact hfree
      · rw [Kernel.setBlock, objects_modify_self]
        grind

/-- **What `AcquireArenaBlockToWrite` hands out and locks.** -/
structure Acquired (abi : Abi) (k k' : Kernel) (seg : Segment) (b : WritableBlock) : Prop where
  one : OneObject k'
  next_eq : k'.next = 1
  shm : seg.shm = some 0
  index_lt : b.index < arenaBlockNum
  block : b.block = some (0, (objectConf (k'.objects 0)).blockNum + b.index)
  buf : b.buf = some (seg.base + arenaOffset abi (k'.objects 0) b.index)
  lock : arenaLock (k'.objects 0) b.index = -1
  old : 0 < k.next → arenaLock (k.objects 0) b.index = 0 ∧ Relocks abi (k.objects 0) (k'.objects 0)
    (update (arenaLock (k.objects 0)) b.index (-1))
  fresh : k.next = 0 → ∀ j, j ≠ b.index → arenaLock (k'.objects 0) j = 0

theorem acquireArenaBlockToWrite_seg (hs : SegOk abi k seg) (h1 : OneObject k)
    (hi : seg.init = true) (hm : seg.shm = some 0) {r : Option WritableBlock}
    (h : acquireArenaBlockToWrite abi backend e attempts (k, seg) = some (r, k', seg')) :
    seg' = seg := by
  simp only [acquireArenaBlockToWrite, ready, bind_apply, self, Option.bind_some, hi, if_true,
    pure_apply, remapIfNeeded, needRemap, hm, Option.map_some, h1.needRemap, Bool.false_eq_true,
    if_false] at h
  obtain ⟨⟨j, k3, seg3⟩, hnext, hr⟩ := Option.bind_eq_some_iff.1 h
  cases hr
  have hconf : seg.conf = objectConf (k.objects 0) := (hs.mapped 0 hm).conf
  rw [hconf] at hnext
  exact (nextIndex_arena abi hm rfl hnext).1

theorem acquireArenaBlockToWrite_outcome (hk : KernelOk k) (hs : SegOk abi k seg) (h1 : OneObject k)
    (hopen : seg.init = false → k.linked ≠ none → backend = .xsi) {r : Option WritableBlock}
    (h : acquireArenaBlockToWrite abi backend e attempts (k, seg) = some (r, k', seg')) :
    ∃ b, r = some b ∧ Acquired abi k k' seg' b ∧ (0 < k.next →
      nextArenaBlock (k.objects 0) (k.conf 0).blockNum (k.objects 0).state.arenaSeq attempts =
        some b.index) := by
  obtain ⟨r1, ⟨k1, seg1⟩, hready, h⟩ := bind_eq_some h
  have hgood1 := keeps_ready (keeps_openOrCreate _ _) (k, seg) ⟨hk, hs, .refl k⟩ _ _ hready
  obtain ⟨rfl, hat⟩ := ready_openOrCreate_attached hk hs h1 hopen hready
  simp only [if_true] at h
  obtain ⟨r2, ⟨k2, seg2⟩, hremap, hrest⟩ := bind_eq_some h
  obtain ⟨-, hm, rfl, rfl⟩ := remapIfNeeded_one hgood1.seg hat.one hremap
  dsimp only at hm
  simp only [bind_apply, self, Option.bind_some] at hrest
  obtain ⟨⟨j, k3, seg3⟩, hnext, hr⟩ := Option.bind_eq_some_iff.1 hrest
  cases hr
  have hconf : seg2.conf = objectConf (k2.objects 0) := (hgood1.seg.mapped 0 hm).conf
  rw [hconf] at hnext
  obtain ⟨rfl, hlt, hn, hl, hpick, hfree, hrel⟩ := nextIndex_arena abi hm rfl hnext
  have hpos : 0 < k2.next := (hgood1.seg.mapped 0 hm).lt
  have hone : k2.next = 1 := by
    have := hat.one.next_le
    omega
  refine ⟨_, rfl, ⟨⟨?_, ?_, ?_⟩, hn.trans hone, hm, hlt, ?_, ?_, ?_, ?_, ?_⟩, ?_⟩
  · exact hn.symm ▸ hat.one.next_le
  · intro _
    rw [hl]
    exact hat.one.linked hpos
  · rw [hrel.needRemap]
    exact hat.one.needRemap
  · simp only [hm, Option.map_some, hconf, hrel.conf]
  · show seg'.arenaBlockBufAddrs j = _
    rw [(hgood1.seg.mapped 0 hm).arenaBufs j hlt, hconf, hrel.offset]
    rfl
  · rw [hrel.lock, update_self]
  · intro h0
    obtain ⟨hold, -⟩ := hat.old h0
    have hlocks := funext hold.lock
    rw [hlocks] at hrel hfree
    exact ⟨hfree, hold.trans hrel⟩
  · intro h0 i hi
    rw [hrel.lock, update_of_ne hi]
    exact hat.fresh h0 hpos i
  · intro h0
    obtain ⟨hold, hseq⟩ := hat.old h0
    rw [hold.conf, hseq] at hpick
    rw [← hpick]
    refine (nextArenaBlock_congr (fun i => ?_) _ _).symm
    have hblock := hold.block i
    rw [arenaBlock, hold.conf] at hblock
    exact hblock

/-- **What `AcquireArenaBlockToRead` hands out and locks.** -/
structure AcquiredToRead (abi : Abi) (k k' : Kernel) (seg : Segment) (i : Nat) (b : ReadableBlock) :
    Prop where
  shm : seg.shm = some 0
  index : b.index = i
  index_lt : i < arenaBlockNum
  block : b.block = some (0, (objectConf (k.objects 0)).blockNum + i)
  buf : b.buf = some (seg.base + arenaOffset abi (k.objects 0) i)
  lock : ¬ arenaLock (k.objects 0) i < 0
  relocks : Relocks abi (k.objects 0) (k'.objects 0)
    (update (arenaLock (k.objects 0)) i (arenaLock (k.objects 0) i + 1))

def SameLinks (k k' : Kernel) : Prop := k'.next = k.next ∧ k'.linked = k.linked

theorem OneObject.relocks {g : Nat → Int32} (h : OneObject k) (hl : SameLinks k k')
    (hr : Relocks abi (k.objects 0) (k'.objects 0) g) : OneObject k' where
  next_le := hl.1 ▸ h.next_le
  linked h0 := by
    rw [hl.2]
    exact h.linked (hl.1 ▸ h0)
  needRemap := by
    rw [hr.needRemap]
    exact h.needRemap

theorem tryLockForRead_nonneg {b b' : Block} {spurious : Nat}
    (h : b.tryLockForRead spurious = some b') : ¬ b.lockNum < 0 := by
  unfold Block.tryLockForRead at h
  split at h
  · cases h
  · rename_i hn
    exact hn

variable (abi) in
theorem tryBlock_arena {locked : Bool} (hm : seg.shm = some 0)
    (h : tryBlock ((objectConf (k.objects 0)).blockNum + i) (Block.tryLockForRead spurious) (k, seg) =
      some (locked, k', seg')) :
    seg' = seg ∧ SameLinks k k' ∧ if locked then ¬ arenaLock (k.objects 0) i < 0 ∧
      Relocks abi (k.objects 0) (k'.objects 0)
        (update (arenaLock (k.objects 0)) i (arenaLock (k.objects 0) i + 1))
    else k' = k := by
  simp only [tryBlock, hm, Option.map_some, Option.some.injEq] at h
  split at h
  · cases h
    exact ⟨rfl, ⟨rfl, rfl⟩, rfl⟩
  · rename_i b' hb
    cases h
    refine ⟨rfl, ⟨rfl, rfl⟩, tryLockForRead_nonneg hb, ?_⟩
    have hb' := tryLockForRead_eq hb
    have harena := Relocks.arena abi (k.objects 0) i (b := b') (by rw [hb']; rfl)
    rw [hb'] at harena ⊢
    exact harena

theorem acquireArenaBlockToRead_ready {k1 : Kernel} {seg1 : Segment}
    {r : Option ReadableBlock} (hs : SegOk abi k1 seg1) (h1 : OneObject k1)
    (hready : ready (openOnly abi backend e.fuel e.openAt) (k, seg) = some (true, k1, seg1))
    (h : acquireArenaBlockToRead abi backend e spurious i (k, seg) = some (r, k', seg')) :
    SameLinks k1 k' ∧ seg' = seg1 ∧ (r = none → k' = k1) ∧
      ∀ b, r = some b → AcquiredToRead abi k1 k' seg' i b := by
  simp only [acquireArenaBlockToRead, bind_apply, hready, Option.bind_some, if_true, if_apply,
    self] at h
  split at h
  · rename_i hlt
    obtain ⟨⟨r2, k2, seg2⟩, hremap, hrest⟩ := Option.bind_eq_some_iff.1 h
    obtain ⟨rfl, hm, rfl, rfl⟩ := remapIfNeeded_one hs h1 hremap
    have hconf : seg2.conf = objectConf (k2.objects 0) := (hs.mapped 0 hm).conf
    obtain ⟨⟨locked, k3, seg3⟩, htry, hr⟩ := Option.bind_eq_some_iff.1 hrest
    rw [hconf] at htry
    obtain ⟨rfl, hlinks, hlock⟩ := tryBlock_arena abi hm htry
    cases locked with
    | false =>
      cases hr
      exact ⟨hlinks, rfl, fun _ => hlock, fun _ hb => by cases hb⟩
    | true =>
      cases hr
      refine ⟨hlinks, rfl, fun hn => (by cases hn), fun b hb => ?_⟩
      cases hb
      refine ⟨hm, rfl, hlt, ?_, ?_, hlock.1, hlock.2⟩
      · simp only [hm, Option.map_some, hconf]
      · show seg'.arenaBlockBufAddrs i = _
        rw [(hs.mapped 0 hm).arenaBufs i hlt, hconf]
        rfl
  · cases h
    exact ⟨⟨rfl, rfl⟩, rfl, fun _ => rfl, fun _ hb => by cases hb⟩

theorem ready_of_init (openIt : Call Bool) (hi : seg.init = true) :
    ready openIt (k, seg) = some (true, k, seg) := by
  simp only [ready, bind_apply, self, Option.bind_some, hi, if_true, pure_apply]

theorem acquireArenaBlockToRead_seg {r : Option ReadableBlock}
    (hs : SegOk abi k seg) (h1 : OneObject k) (hi : seg.init = true)
    (h : acquireArenaBlockToRead abi backend e spurious i (k, seg) = some (r, k', seg')) :
    seg' = seg :=
  (acquireArenaBlockToRead_ready hs h1 (ready_of_init _ hi) h).2.1

theorem acquireArenaBlockToRead_some {b : ReadableBlock} (hk : KernelOk k)
    (hs : SegOk abi k seg) (h1 : OneObject k)
    (h : acquireArenaBlockToRead abi backend e spurious i (k, seg) = some (some b, k', seg')) :
    0 < k.next ∧ SameLinks k k' ∧ AcquiredToRead abi k k' seg' i b := by
  obtain ⟨r1, ⟨k1, seg1⟩, hready, -⟩ := bind_eq_some h
  cases r1 with
  | false =>
    simp only [acquireArenaBlockToRead, bind_apply, hready, Option.bind_some, Bool.false_eq_true,
      if_false] at h
    cases h
  | true =>
    have hgood1 := keeps_ready (keeps_openOnly _ _) (k, seg) ⟨hk, hs, .refl k⟩ _ _ hready
    rcases ready_openOnly_cases hk hready with ⟨-, rfl, rfl⟩ | ⟨id, hl, rfl, -⟩
    · obtain ⟨hlinks, -, -, hb⟩ := acquireArenaBlockToRead_ready hs h1 hready h
      obtain rfl : seg' = seg1 := (acquireArenaBlockToRead_ready hs h1 hready h).2.1
      exact ⟨(hs.mapped 0 (hb b rfl).shm).lt, hlinks, hb b rfl⟩
    · -- opened just now: one reference more, which the arena blocks do not see
      have hid := hk.linked_lt id hl
      obtain rfl := h1.eq_zero hid
      have hat : Attached abi k (k.modify 0 ShmObject.increaseReferenceCounts) :=
        .increaseReferenceCounts h1 hid
      obtain ⟨hrel, -⟩ := hat.old hid
      obtain ⟨hlinks, -, -, hb⟩ := acquireArenaBlockToRead_ready hgood1.seg hat.one hready h
      obtain ⟨hm, hi, hlt, hblock, hbuf, hlock, hrel'⟩ := hb b rfl
      rw [hrel.conf] at hblock
      rw [hrel.offset] at hbuf
      rw [hrel.lock] at hlock
      rw [show arenaLock _ = _ from funext hrel.lock] at hrel'
      exact ⟨hid, hlinks, hm, hi, hlt, hblock, hbuf, hlock, hrel.trans hrel'⟩

theorem acquireArenaBlockToRead_none (hk : KernelOk k) (hs : SegOk abi k seg)
    (h1 : OneObject k) (hopen : seg.init = false → k.linked ≠ none → backend = .xsi)
    (h : acquireArenaBlockToRead abi backend e spurious i (k, seg) = some (none, k', seg')) :
    SameLinks k k' ∧ Relocks abi (k.objects 0) (k'.objects 0) (arenaLock (k.objects 0)) := by
  obtain ⟨r1, ⟨k1, seg1⟩, hready, -⟩ := bind_eq_some h
  cases r1 with
  | false =>
    have hr := hready
    simp only [acquireArenaBlockToRead, bind_apply, hready, Option.bind_some, Bool.false_eq_true,
      if_false] at h
    cases h
    cases hi : seg.init with
    | true =>
      simp only [ready, bind_apply, self, Option.bind_some, hi, if_true, pure_apply] at hr
      cases hr
    | false =>
      simp only [ready, bind_apply, self, Option.bind_some, hi, Bool.false_eq_true, if_false] at hr
      cases hl : k.linked with
      | none =>
        cases backend <;>
          simp only [openOnly, xsiOpenOnly, posixOpenOnly, hi, hl, Bool.false_eq_true, if_false,
            Option.some.injEq] at hr <;>
          cases hr <;> exact ⟨⟨rfl, hl.symm ▸ rfl⟩, .refl _⟩
      | some id =>
        obtain rfl := hopen hi (by rw [hl]; exact Option.some_ne_none id)
        obtain ⟨n, hn, -⟩ := hk.exists_conf (hk.linked_lt id hl)
        simp only [openOnly, xsiOpenOnly_eq abi hi hl hn (e.openAt.mmapOk n)] at hr
        cases hr
  | true =>
    have hgood1 := keeps_ready (keeps_openOnly _ _) (k, seg) ⟨hk, hs, .refl k⟩ _ _ hready
    rcases ready_openOnly_cases hk hready with ⟨-, rfl, rfl⟩ | ⟨id, hl, rfl, -⟩
    · obtain ⟨hlinks, -, hn, -⟩ := acquireArenaBlockToRead_ready hs h1 hready h
      rw [hn rfl]
      exact ⟨⟨rfl, rfl⟩, .refl _⟩
    · have hid := hk.linked_lt id hl
      obtain rfl := h1.eq_zero hid
      have hat : Attached abi k (k.modify 0 ShmObject.increaseReferenceCounts) :=
        .increaseReferenceCounts h1 hid
      obtain ⟨hlinks, -, hn, -⟩ := acquireArenaBlockToRead_ready hgood1.seg hat.one hready h
      rw [hn rfl]
      exact ⟨⟨rfl, rfl⟩, (hat.old hid).1⟩

variable (abi) in
theorem onArenaBlock_lock {i : Nat} {f : Block → Block} (hm : seg.shm = some 0)
    (hconf : seg.conf = objectConf (k.objects 0)) (hi : i < arenaBlockNum)
    (hf : ∀ b, f b = { b with lockNum := (f b).lockNum })
    (h : onArenaBlock i (fun b => some (f b)) (k, seg) = some (r, k', seg')) :
    seg' = seg ∧ SameLinks k k' ∧ Relocks abi (k.objects 0) (k'.objects 0)
      (update (arenaLock (k.objects 0)) i (f (arenaBlock (k.objects 0) i)).lockNum) := by
  simp only [onArenaBlock, hi, if_true, bind_apply, self, Option.bind_some, tryBlock, hm,
    Option.map_some, Option.some.injEq] at h
  cases h
  refine ⟨rfl, ⟨rfl, rfl⟩, ?_⟩
  rw [hconf, Kernel.setBlock, objects_modify_self]
  exact Relocks.arena abi (k.objects 0) i (hf _)

end

/-! ## The serialized message -/

structure Frame (abi : Abi) (k : Kernel) (seg : Segment) (s : Kernel × Segment) : Prop where
  seg : s.2 = seg
  links : SameLinks k s.1
  relocks : Relocks abi (k.objects 0) (s.1.objects 0) (arenaLock (k.objects 0))

structure OnObject (abi : Abi) (k : Kernel) (seg : Segment) : Prop where
  init : seg.init = true
  shm : seg.shm = some 0
  one : OneObject k
  mapped : Mapped abi k seg 0
  sized : ∃ n, seg.conf = .update n

section
variable {k : Kernel} {seg : Segment}

theorem OnObject.conf (h : OnObject abi k seg) :
    seg.conf = objectConf (k.objects 0) := h.mapped.conf

theorem Frame.refl : Frame abi k seg (k, seg) := ⟨rfl, ⟨rfl, rfl⟩, .refl _⟩

theorem Frame.modify {s : Kernel × Segment} (h : Frame abi k seg s) {f : ShmObject → ShmObject}
    (hf : Relocks abi (s.1.objects 0) (f (s.1.objects 0)) (arenaLock (s.1.objects 0))) :
    Frame abi k seg (s.1.modify 0 f, s.2) where
  seg := h.seg
  links := h.links
  relocks := by
    have := h.relocks.trans hf
    rwa [show arenaLock (s.1.objects 0) = arenaLock (k.objects 0) from
      funext h.relocks.lock] at this

theorem frame_onState (hm : seg.shm = some 0) {α : Type} {f : State → α × State}
    (hc : ∀ st, (f st).2.ceilingMsgSize = st.ceilingMsgSize)
    (hn : ∀ st, (f st).2.needRemap = st.needRemap) : Keeps (Frame abi k seg) (onState f) := by
  intro s hs a t h
  obtain ⟨id, hid, hr⟩ := Option.map_eq_some_iff.1 h
  rw [hs.seg, hm] at hid
  cases hid
  cases hr
  exact hs.modify (.state _ (hc _) (hn _))

theorem frame_tryBlock (hm : seg.shm = some 0) {i : Nat} (f : Block → Option Block)
    (hi : i < (objectConf (k.objects 0)).blockNum) : Keeps (Frame abi k seg) (tryBlock i f) := by
  intro s hs a t h
  obtain ⟨id, hid, hr⟩ := Option.map_eq_some_iff.1 h
  rw [hs.seg, hm] at hid
  cases hid
  split at hr
  · cases hr
    exact hs
  · cases hr
    exact hs.modify (.ordinary _ _ (by rwa [hs.relocks.conf]))

theorem frame_self : Triple (Frame abi k seg) self fun a s => a = seg ∧ Frame abi k seg s := by
  intro s hs a t h
  cases h
  exact ⟨hs.seg, hs⟩

theorem frame_nextIndex (hm : seg.shm = some 0) (hpos : 0 < (objectConf (k.objects 0)).blockNum) :
    ∀ attempts, Triple (Frame abi k seg)
      (nextIndex fetchAddSeq 0 (objectConf (k.objects 0)).blockNum attempts)
      fun j s => j < (objectConf (k.objects 0)).blockNum ∧ Frame abi k seg s
  | [] => fun _ _ _ _ h => by cases h
  | _ :: rest => by
    refine bind (frame_onState hm (fun _ => rfl) fun _ => rfl) fun seq => ?_
    have hlt : seq.toNat % (objectConf (k.objects 0)).blockNum <
        (objectConf (k.objects 0)).blockNum :=
      Nat.mod_lt _ hpos
    refine bind (frame_tryBlock hm _ (by omega)) fun _ => ?_
    exact ite (fun _ => pure fun _ hs => ⟨hlt, hs⟩)
      fun _ => frame_nextIndex hm hpos rest

theorem OnObject.blockNum_pos (h : OnObject abi k seg) :
    0 < (objectConf (k.objects 0)).blockNum := by
  obtain ⟨n, hn⟩ := h.sized
  have := (blockNum_bounds n).1
  rw [← h.conf, hn]
  omega

theorem frame_acquireBlockToWrite (ho : OnObject abi k seg) (e : Env) (attempts : List Bool)
    {n : Nat} (hn : n ≤ seg.conf.ceilingMsgSize) :
    Triple (Frame abi k seg) (acquireBlockToWrite abi backend e attempts n) fun r s =>
      Frame abi k seg s ∧ ∀ b, r = some b → b.index < (objectConf (k.objects 0)).blockNum ∧
        b.block = some (0, b.index) ∧
        b.buf = some (seg.base + blockBufOffset abi (objectConf (k.objects 0)) b.index) := by
  rintro ⟨k1, seg1⟩ hs r t h
  obtain rfl : seg1 = seg := hs.seg
  have hneed : (k1.objects 0).state.needRemap = false := by
    rw [hs.relocks.needRemap]
    exact ho.one.needRemap
  -- the three guards do nothing
  simp only [acquireBlockToWrite, ready, bind_apply, self, Option.bind_some, ho.init, if_true,
    pure_apply, remapIfNeeded, needRemap, ho.shm, Option.map_some, hneed, Bool.false_eq_true, if_false,
    recreateIfLarger, Nat.not_lt.2 hn] at h
  obtain ⟨⟨j, k2, seg2⟩, hnext, hr⟩ := Option.bind_eq_some_iff.1 h
  rw [ho.conf] at hnext
  obtain ⟨hlt, hs2⟩ := frame_nextIndex ho.shm ho.blockNum_pos attempts _ hs _ _ hnext
  obtain rfl : seg2 = seg1 := hs2.seg
  cases hr
  refine ⟨hs2, fun b hb => ?_⟩
  cases hb
  refine ⟨hlt, by simp [ho.shm], ?_⟩
  rw [ho.mapped.bufs j (by rwa [ho.conf]), ho.conf]

theorem frame_store (hm : seg.shm = some 0) {buf : Option Nat} {a off : Nat} {bs : List UInt8}
    (hbuf : buf = some (seg.base + a)) (h : a + off + bs.length ≤ arenaOffset abi (k.objects 0) 0) :
    Keeps (Frame abi k seg) (store buf off bs) := by
  intro s hs u t hst
  simp only [store, hbuf, hs.seg, hm, Option.bind_some] at hst
  split at hst
  · cases hst
    have hoff : seg.base + a - seg.base + off = a + off := by omega
    rw [hoff]
    have := hs.modify (f := fun o => { o with mem := write o.mem (a + off) bs })
      (.store _ (by rwa [hs.relocks.offset]))
    rwa [hs.seg] at this
  · cases hst

theorem frame_onBlockPtr {ptr : Option (Nat × Nat)} {i : Nat} (f : Block → Block)
    (hp : ptr = some (0, i)) (hi : i < (objectConf (k.objects 0)).blockNum) :
    Keeps (Frame abi k seg) (onBlockPtr ptr f) := by
  intro s hs u t h
  simp only [onBlockPtr, hp, Option.map_some, Option.some.injEq] at h
  cases h
  exact hs.modify (.ordinary _ _ (by rwa [hs.relocks.conf]))

theorem frame_releaseWrittenBlock (hm : seg.shm = some 0) (b : WritableBlock)
    (hi : b.index < (objectConf (k.objects 0)).blockNum) :
    Keeps (Frame abi k seg) (releaseWrittenBlock b) :=
  bind frame_self fun _ => ite
    (fun _ => (frame_tryBlock hm _ hi).conseq fun _ h => h.2)
    fun _ => pure fun _ h => h.2

theorem frame_writeInfo (hm : seg.shm = some 0) {b : WritableBlock} {a n : Nat} (info : MessageInfo)
    (hbuf : b.buf = some (seg.base + a)) (hp : b.block = some (0, b.index))
    (hi : b.index < (objectConf (k.objects 0)).blockNum)
    (h : a + n + fieldSize ≤ arenaOffset abi (k.objects 0) 0) :
    Keeps (Frame abi k seg) (writeInfo b n info) := by
  unfold writeInfo
  split
  · exact Keeps.pure _
  · rename_i bs hbs
    have hlen : bs.length = fieldSize := by
      simp only [serializeTo, Nat.lt_irrefl, if_false, Option.some.injEq] at hbs
      rw [← hbs, bytes_length]
    refine .bind (frame_store hm hbuf (by rwa [hlen])) fun _ => ?_
    exact .bind (frame_onBlockPtr _ hp hi) fun _ => .pure _

variable (abi) in
theorem blockBuf_le_arenaOffset (o : ShmObject) {i size : Nat} (hi : i < (objectConf o).blockNum)
    (hs : size ≤ (objectConf o).ceilingMsgSize) :
    blockBufOffset abi (objectConf o) i + size + fieldSize ≤ arenaOffset abi o 0 := by
  have hbuf : (objectConf o).blockBufSize =
      (objectConf o).ceilingMsgSize + messageInfoSize := by rfl
  have hmul : (i + 1) * (objectConf o).blockBufSize ≤
      (objectConf o).blockNum * (objectConf o).blockBufSize := Nat.mul_le_mul_right _ hi
  have hone : (i + 1) * (objectConf o).blockBufSize =
      i * (objectConf o).blockBufSize + (objectConf o).blockBufSize := Nat.succ_mul _ _
  have hinfo : fieldSize ≤ messageInfoSize := by decide
  simp only [arenaOffset, arenaBlockBufOffset, blockBufOffset, Nat.zero_mul]
  omega

theorem sendSerialized_keeps (ho : OnObject abi k seg) (e : Env) (attempts : List Bool)
    {msg : Message} (info : MessageInfo) (hn : msg.byteSize ≤ seg.conf.ceilingMsgSize) :
    Keeps (Frame abi k seg) (sendSerialized abi backend e attempts msg info) := by
  refine bind (frame_acquireBlockToWrite ho e attempts hn) fun r => ?_
  cases r with
  | none => exact pure fun _ h => h.1
  | some b =>
    rintro s ⟨hs, hb⟩
    obtain ⟨hi, hp, hbuf⟩ := hb b rfl
    obtain ⟨n, hsized⟩ := ho.sized
    have hroom := blockBuf_le_arenaOffset abi (k.objects 0) hi (ho.conf ▸ hn)
    refine (?_ : Keeps (Frame abi k seg) _) s hs
    dsimp only
    split
    · exact .bind (frame_releaseWrittenBlock ho.shm b hi) fun _ => .pure _
    · rename_i bs hbody
      have hlen := msg.body_length bs hbody
      refine .bind (frame_store ho.shm hbuf (by omega)) fun _ => ?_
      refine .bind (frame_onBlockPtr _ hp hi) fun _ => ?_
      refine .bind (frame_writeInfo ho.shm info hbuf hp hi hroom) fun _ => ?_
      exact .bind (frame_releaseWrittenBlock ho.shm b hi) fun _ => .pure _

end

end Transport
