import CyberRT.Shm.Proof.SegmentKeeps

/-!
# Reading across a remap

`AcquireBlockToRead` compares the index with the configuration it has, and only then maps the
segment again if a writer has recreated it.
-/

namespace Shm

open Function Lib Segment ShmConf ShmObject

variable {abi : Abi} {backend : Backend}

attribute [local simp] Kernel.setBlock Kernel.lockNum Kernel.modify

theorem readLockLoop_eq {b b' : Block} {spurious tryTimes : Nat}
    (h : b.readLockLoop spurious tryTimes = some b') : b' = { b with lockNum := b.lockNum + 1 } := by
  induction spurious generalizing tryTimes with
  | zero =>
    cases h
    rfl
  | succ spurious ih =>
    unfold Block.readLockLoop at h
    grind

theorem tryLockForRead_eq {b b' : Block} {spurious : Nat}
    (h : b.tryLockForRead spurious = some b') : b' = { b with lockNum := b.lockNum + 1 } := by
  unfold Block.tryLockForRead at h
  split at h
  · cases h
  · exact readLockLoop_eq h

theorem lockNum_setBlock (k : Kernel) (id i : Nat) (b : Block) (id' j : Nat) :
    (k.setBlock id i b).lockNum id' j =
      if (id, i) = (id', j) then b.lockNum else k.lockNum id' j := by
  by_cases hid : id' = id
  · subst hid
    by_cases hj : j = i
    · subst hj
      simp
    · simp [hj, Ne.symm hj]
  · simp [hid, Ne.symm hid]

theorem blocks_increaseReferenceCounts (k : Kernel) (id id' : Nat) :
    ((k.modify id increaseReferenceCounts).objects id').blocks =
      (k.objects id').blocks := by
  by_cases h : id' = id
  · subst h
    rw [objects_modify_self]
    rfl
  · rw [objects_modify_of_ne h]

theorem conf_increaseReferenceCounts (k : Kernel) (id id' : Nat) :
    (k.modify id increaseReferenceCounts).conf id' = k.conf id' :=
  conf_modify (sameCeiling_increaseReferenceCounts k id) id'

theorem tryBlock_true {k k' : Kernel} {seg seg' : Segment} {i : Nat} {f : Block → Option Block}
    (h : tryBlock i f (k, seg) = some (true, k', seg')) :
    ∃ id b, seg.shm = some id ∧ f ((k.objects id).blocks i) = some b ∧ k' = k.setBlock id i b ∧
      seg' = seg := by
  obtain ⟨id, hid, hr⟩ := Option.map_eq_some_iff.1 h
  grind

section
variable {k k' : Kernel} {seg seg' : Segment} {e : Env} {spurious i id : Nat} {b : ReadableBlock}

theorem ready_openOnly_cases (hk : KernelOk k)
    (h : ready (openOnly abi backend e.fuel e.openAt) (k, seg) = some (true, k', seg')) :
    (seg.init = true ∧ k' = k ∧ seg' = seg) ∨ ∃ id, k.linked = some id ∧
      k' = k.modify id increaseReferenceCounts ∧
      seg' = opened abi (k.conf id) id e.openAt.val seg := by
  cases hi : seg.init with
  | true =>
    simp only [ready, bind_apply, self, Option.bind_some, hi, if_true, pure_apply] at h
    grind
  | false =>
    simp only [ready, bind_apply, self, Option.bind_some, hi, Bool.false_eq_true, if_false] at h
    rcases openOnly_cases hk hi h with ⟨-, -, id, hl, hk', hs'⟩ | ⟨hr, -⟩
    all_goals grind

theorem remapIfNeeded_cases (hk : KernelOk k)
    (h : remapIfNeeded abi backend e (k, seg) = some (true, k', seg')) :
    ∃ old, seg.shm = some old ∧ ((k' = k ∧ seg' = seg) ∨
      ((k.objects old).state.needRemap = true ∧ backend = .xsi ∧ ∃ id, k.linked = some id ∧
        k' = k.modify id increaseReferenceCounts ∧
        seg' = opened abi (k.conf id) id e.remapAt.val { seg with init := false }.reset)) := by
  obtain ⟨need, u, hneed, hrest⟩ := bind_eq_some h
  obtain ⟨old, hold, hr⟩ := Option.map_eq_some_iff.1 hneed
  cases hr
  cases hn : (k.objects old).state.needRemap with
  | false =>
    simp only [hn, Bool.false_eq_true, if_false, pure_apply] at hrest
    grind
  | true =>
    simp only [hn, if_true, remap_apply] at hrest
    rcases openOnly_cases hk rfl hrest with ⟨-, hx, id, hl, hk', hs'⟩ | ⟨hf, -⟩
    all_goals grind

/-- **The index was checked against a configuration that is then left**: the segment is open, a
writer has asked for a remap, and object `id` is linked now. -/
structure Stale (backend : Backend) (k : Kernel) (seg : Segment) (i id : Nat) : Prop where
  xsi : backend = .xsi
  init : seg.init = true
  needRemap : ∃ old, seg.shm = some old ∧ (k.objects old).state.needRemap = true
  linked : k.linked = some id
  index_lt : i < seg.conf.blockNum

structure AtLock (abi : Abi) (backend : Backend) (k k' : Kernel) (seg seg' : Segment) (i : Nat) :
    Prop where
  blocks : ∀ id, (k'.objects id).blocks = (k.objects id).blocks
  index_lt : i < seg'.conf.blockNum ∨
    ∃ id, Stale backend k seg i id ∧ seg'.shm = some id ∧ seg'.conf = k.conf id

theorem atLock {k1 : Kernel} {seg1 : Segment} (hk : KernelOk k)
    (hready : ready (openOnly abi backend e.fuel e.openAt) (k, seg) = some (true, k1, seg1))
    (hlt : i < seg1.conf.blockNum)
    (hremap : remapIfNeeded abi backend e (k1, seg1) = some (true, k', seg')) :
    AtLock abi backend k k' seg seg' i := by
  rcases ready_openOnly_cases hk hready with ⟨hi, rfl, rfl⟩ | ⟨id, hl, rfl, rfl⟩
  · obtain ⟨old, hold, ⟨rfl, rfl⟩ | ⟨hn, hx, id, hl, rfl, rfl⟩⟩ := remapIfNeeded_cases hk hremap
    · exact ⟨fun _ => rfl, .inl hlt⟩
    · exact ⟨blocks_increaseReferenceCounts _ _,
        .inr ⟨id, ⟨hx, hi, ⟨old, hold, hn⟩, hl, hlt⟩, rfl, rfl⟩⟩
  · -- just opened: a remap finds the same object again
    obtain ⟨old, -, ⟨rfl, rfl⟩ | ⟨-, -, id', hl', rfl, rfl⟩⟩ :=
      remapIfNeeded_cases (hk.modify (sameCeiling_increaseReferenceCounts k id)) hremap
    · exact ⟨blocks_increaseReferenceCounts _ _, .inl hlt⟩
    · have hid : id' = id := Option.some.inj (hl'.symm.trans hl)
      subst hid
      refine ⟨fun id => ?_, .inl ?_⟩
      · rw [blocks_increaseReferenceCounts, blocks_increaseReferenceCounts]
      · rw [conf_increaseReferenceCounts]
        exact hlt

theorem acquireBlockToRead_some (hk : KernelOk k) (hs : SegOk abi k seg)
    (h : acquireBlockToRead abi backend e spurious i (k, seg) = some (some b, k', seg')) :
    ∃ id b', Mapped abi k' seg' id ∧ seg'.shm = some id ∧
      b = ⟨i, some (id, i), seg'.blockBufAddrs i⟩ ∧
      ((k.objects id).blocks i).tryLockForRead spurious = some b' ∧
      (∀ id' j, k'.lockNum id' j =
        if b.block = some (id', j) then k.lockNum id' j + 1 else k.lockNum id' j) ∧
      (i < seg'.conf.blockNum ∨ ∃ id, Stale backend k seg i id ∧ seg'.shm = some id ∧
        seg'.conf = k.conf id) := by
  have hgood := keeps_acquireBlockToRead e spurious i (k, seg) ⟨hk, hs, .refl k⟩ _ _ h
  obtain ⟨r1, ⟨k1, seg1⟩, hready, h⟩ := bind_eq_some h
  cases r1 with
  | false => cases h
  | true =>
  simp only [if_true, bind_apply, self, Option.bind_some, if_apply] at h
  split at h
  case isFalse => cases h
  case isTrue hlt =>
  obtain ⟨⟨r2, k2, seg2⟩, hremap, h⟩ := Option.bind_eq_some_iff.1 h
  cases r2 with
  | false => cases h
  | true =>
  obtain ⟨⟨r3, k3, seg3⟩, htry, h⟩ := Option.bind_eq_some_iff.1 h
  cases r3 with
  | false => cases h
  | true =>
  cases h
  obtain ⟨id, b', hid, hlock, rfl, rfl⟩ := tryBlock_true htry
  have hat := atLock hk hready hlt hremap
  rw [hat.blocks] at hlock
  refine ⟨id, b', hgood.seg.mapped id hid, hid, by simp [hid], hlock, fun id' j => ?_, hat.index_lt⟩
  have hnum : k2.lockNum id' j = k.lockNum id' j := by
    rw [Kernel.lockNum, hat.blocks, Kernel.lockNum]
  rw [lockNum_setBlock, tryLockForRead_eq hlock, hnum]
  simp only [hid, Option.map_some, Option.some.injEq]
  split
  · rename_i he
    cases he
    rfl
  · rfl

theorem remapIfNeeded_stale (hk : KernelOk k) (hst : Stale backend k seg i id) :
    remapIfNeeded abi backend e (k, seg) =
      some (true, k.modify id increaseReferenceCounts,
        opened abi (k.conf id) id e.remapAt.val { seg with init := false }.reset) := by
  obtain ⟨rfl, -, ⟨old, hold, hn⟩, hl, -⟩ := hst
  obtain ⟨n, hn', hconf⟩ := hk.exists_conf (hk.linked_lt id hl)
  have hneed : needRemap (k, seg) = some (true, k, seg) := by
    simp only [needRemap, hold, Option.map_some, hn]
  rw [remapIfNeeded, bind_apply, hneed, hconf]
  show remap abi .xsi e (k, seg) = _
  exact congrArg some (xsiOpenOnly_eq abi rfl hl hn' (e.remapAt.mmapOk n))

variable (abi) in
theorem acquireBlockToRead_stale (hk : KernelOk k) (hst : Stale backend k seg i id)
    {b' : Block} (hb : ((k.objects id).blocks i).tryLockForRead spurious = some b') :
    ∃ b k' seg', acquireBlockToRead abi backend e spurious i (k, seg) = some (some b, k', seg') ∧
      seg'.conf = k.conf id := by
  have hready : ready (openOnly abi backend e.fuel e.openAt) (k, seg) = some (true, k, seg) := by
    simp only [ready, bind_apply, self, Option.bind_some, hst.init, if_true, pure_apply]
  have hblocks := blocks_increaseReferenceCounts k id id
  refine ⟨⟨i, some (id, i), (opened abi (k.conf id) id e.remapAt.val
      { seg with init := false }.reset).blockBufAddrs i⟩,
    (k.modify id increaseReferenceCounts).setBlock id i b',
    opened abi (k.conf id) id e.remapAt.val { seg with init := false }.reset, ?_, rfl⟩
  simp only [acquireBlockToRead, bind_apply, hready, Option.bind_some, if_true, self, if_apply,
    hst.index_lt, remapIfNeeded_stale hk hst, tryBlock, opened, Option.map_some, hblocks, hb,
    pure_apply]

theorem ne_sub_one (x : Int32) : x ≠ x - 1 := by
  grind

theorem releaseReadBlock_gives_iff (hs : SegOk abi k seg)
    (hb : b.block = some (id, b.index)) (hlt : b.index < (k.conf id).blockNum) :
    (∃ r k' seg', releaseReadBlock b (k, seg) = some (r, k', seg') ∧ GivesBack k k' b) ↔
      seg.shm = some id := by
  refine ⟨fun ⟨r, k', seg', h, hg⟩ => ?_, fun hm => ?_⟩
  · -- the lock of `b` went down, so the call reached it
    have hdown := hg id b.index
    rw [if_pos hb] at hdown
    obtain ⟨seg1, u, hself, h⟩ := bind_eq_some h
    cases hself
    split at h
    · obtain ⟨id', hid', hr⟩ := Option.map_eq_some_iff.1 h
      cases hr
      rw [lockNum_setBlock] at hdown
      grind
    · cases h
      exact absurd hdown (ne_sub_one _)
  · have hlt' : b.index < seg.conf.blockNum := by
      rw [(hs.mapped id hm).conf]
      exact hlt
    refine ⟨true, k.setBlock id b.index ((k.objects id).blocks b.index).releaseReadLock, seg, ?_,
      fun id' j => ?_⟩
    · simp only [releaseReadBlock, onBlock, bind_apply, self, Option.bind_some, hlt', if_true,
        tryBlock, hm, Option.map_some]
    · rw [lockNum_setBlock, hb]
      simp only [Option.some.injEq]
      split
      · rename_i he
        cases he
        rfl
      · rfl

end

structure Sys.Inv (abi : Abi) (s : Sys) : Prop extends Sys.Ok abi s where
  held : ∀ p, ∀ b ∈ s.held p, ∃ id < s.kernel.next, b.block = some (id, b.index) ∧
    b.index < (s.kernel.conf id).blockNum

namespace Sys

theorem inv_init : Inv abi init :=
  { ok_init with held := fun _ _ h => by cases h }

section
variable {s t : Sys} {p : Nat} {op : SegmentOp}

theorem held_run {α : Type} {c : Call α} {a : α} (h : s.run p c = some (a, t)) :
    t.held = s.held := by
  obtain ⟨k, seg, -, rfl⟩ := run_eq_some h
  rfl

theorem held_step (h : s.step abi backend op = some t) {q : Nat}
    {b : ReadableBlock} (hb : b ∈ t.held q) : b ∈ s.held q ∨ ∃ e spurious i k seg,
      op = .acquireBlockToRead q e spurious i ∧
      acquireBlockToRead abi backend e spurious i (s.kernel, s.segs q) = some (some b, k, seg) ∧
      t.kernel = k := by
  cases op with
  | acquireBlockToRead p e spurious i =>
    obtain ⟨⟨a, u⟩, hrun, rfl⟩ := Option.map_eq_some_iff.1 h
    have hu := held_run hrun
    by_cases hq : q = p
    · subst hq
      simp only [setHeld, update_self] at hb
      rcases List.mem_append.1 hb with hnew | hold
      · obtain rfl : a = some b := Option.mem_toList.1 hnew
        obtain ⟨k, seg, hcall, rfl⟩ := run_eq_some hrun
        exact .inr ⟨e, spurious, i, k, seg, rfl, hcall, rfl⟩
      · exact .inl hold
    · simp only [setHeld, update_of_ne hq] at hb
      exact .inl (hu ▸ hb)
  | releaseReadBlock p b' =>
    obtain ⟨⟨a, u⟩, hrun, rfl⟩ := Option.map_eq_some_iff.1 h
    have hu := held_run hrun
    by_cases hq : q = p
    · subst hq
      simp only [setHeld, update_self] at hb
      exact .inl (List.mem_of_mem_erase hb)
    · simp only [setHeld, update_of_ne hq] at hb
      exact .inl (hu ▸ hb)
  | _ =>
    obtain ⟨⟨a, u⟩, hrun, rfl⟩ := Option.map_eq_some_iff.1 h
    exact .inl (held_run hrun ▸ hb)

theorem safe_acquire_iff (h : Inv abi s) (e : Env) (spurious i : Nat) :
    s.Safe abi backend (.acquireBlockToRead p e spurious i) ↔
      s.StepOk backend (.acquireBlockToRead p e spurious i) := by
  refine ⟨fun hsafe old id hx hi hold hn hl hlt => ?_, fun hok b k seg hcall => ?_⟩
  · cases hb : ((s.kernel.objects id).blocks i).tryLockForRead spurious with
    | none => exact .inr rfl
    | some b' =>
      obtain ⟨b, k, seg, hcall, hconf⟩ := acquireBlockToRead_stale abi (e := e) h.kernel
        (⟨hx, hi, ⟨old, hold, hn⟩, hl, hlt⟩ : Stale backend s.kernel (s.segs p) i id) hb
      have hr := (hsafe b k seg hcall).index_lt
      rw [hconf] at hr
      exact .inl hr
  · obtain ⟨id, b', hm, hid, rfl, hb, hlock, hlt⟩ :=
      acquireBlockToRead_some h.kernel (h.segs p) hcall
    have hi : i < seg.conf.blockNum := by
      rcases hlt with hlt | ⟨id', hst, hid', hconf⟩
      · exact hlt
      · have he : id' = id := Option.some.inj (hid'.symm.trans hid)
        obtain ⟨old, hold, hn⟩ := hst.needRemap
        rcases hok old id' hst.xsi hst.init hold hn hst.linked hst.index_lt with hr | hr
        all_goals grind
    exact ⟨hi, rfl, hm.bufs i hi, id, hid, rfl, hlock⟩

theorem safe_iff_stepOk (h : Inv abi s) (op : SegmentOp) :
    s.Safe abi backend op ↔ s.StepOk backend op := by
  cases op with
  | acquireBlockToRead p e spurious i => exact safe_acquire_iff h e spurious i
  | releaseReadBlock p b =>
    refine forall_congr' fun hb => ?_
    obtain ⟨id, -, hblock, hlt⟩ := h.held p b hb
    rw [releaseReadBlock_gives_iff (h.segs p) hblock hlt, hblock]
    exact eq_comm
  | _ => exact Iff.rfl

theorem step_inv (h : Inv abi s) (hok : s.StepOk backend op)
    (hstep : s.step abi backend op = some t) : Inv abi t := by
  obtain ⟨hok', he⟩ := h.toOk.step hstep
  refine { hok' with held := fun q b hb => ?_ }
  rcases held_step hstep hb with hold | ⟨e, spurious, i, k, seg, rfl, hcall, hk⟩
  · obtain ⟨id, hid, hblock, hlt⟩ := h.held q b hold
    exact ⟨id, Nat.lt_of_lt_of_le hid he.next_le, hblock, by rw [he.conf id hid]; exact hlt⟩
  · -- the block just handed out is one of its object's, as the call was safe
    have hsafe := (safe_acquire_iff h e spurious i).2 hok b k seg hcall
    obtain ⟨id, b', hm, -, rfl, -⟩ := acquireBlockToRead_some h.kernel (h.segs q) hcall
    rw [hk]
    exact ⟨id, hm.lt, rfl, hm.conf ▸ hsafe.index_lt⟩

end

/-- **Readers are safe in a run exactly when every call of it meets the condition**: whatever the
calls of the other segments, writers that recreate the segment among them. -/
theorem reads_safe_iff (abi : Abi) (backend : Backend) (ops : List SegmentOp) :
    Along (bindStep (step abi backend)) (onSome (Safe abi backend)) (some init) ops ↔
      Along (bindStep (step abi backend)) (onSome (StepOk backend)) (some init) ops := by
  refine along_congr (P := fun o => ∀ s ∈ o, Inv abi s) ?_ ?_ ?_
  · intro s hs
    cases hs
    exact inv_init
  · intro o op ho
    exact forall₂_congr fun s hs => safe_iff_stepOk (ho s hs) op
  · intro o op ho hsafe t ht
    obtain ⟨s, hs, hstep⟩ := Option.bind_eq_some_iff.1 ht
    exact step_inv (ho s hs) ((safe_iff_stepOk (ho s hs) op).1 (hsafe s hs)) hstep

def someEnv : Env :=
  ⟨⟨0x7f0000000000, by decide, by decide⟩, ⟨0x7e0000000000, by decide, by decide⟩,
    ⟨0x7d0000000000, by decide, by decide⟩, 0⟩

/-- Segment 0 writes a message of 1000 bytes, segment 1 comes to read it while it is being written,
and segment 0 goes on to one of 200000 bytes, for which it recreates the segment: 64 blocks for
512. -/
def recreatedRun : List SegmentOp :=
  [.acquireBlockToWrite 0 someEnv [false] 1000, .acquireBlockToRead 1 someEnv 0 0,
    .acquireBlockToWrite 0 someEnv [false] 200000]

theorem recreatedRun_reads_200 :
    ((recreatedRun.foldl (bindStep (step .lp64 .xsi)) (some init)).bind fun s =>
      (acquireBlockToRead .lp64 .xsi someEnv 0 200 (s.kernel, s.segs 1)).map fun r =>
        (r.1, r.2.2.conf.blockNum)) = some (some ⟨200, some (1, 200), none⟩, 64) := by
  decide +kernel

theorem not_reads_safe_recreated :
    ¬ Along (bindStep (step .lp64 .xsi)) (onSome (Safe .lp64 .xsi)) (some init)
      (recreatedRun ++ [.acquireBlockToRead 1 someEnv 0 200]) := by
  intro h
  obtain ⟨s, hs, hcall⟩ := Option.bind_eq_some_iff.1 recreatedRun_reads_200
  obtain ⟨⟨r, k, seg⟩, hr, he⟩ := Option.map_eq_some_iff.1 hcall
  simp only [Prod.mk.injEq] at he
  obtain ⟨rfl, hnum⟩ := he
  have hsafe := (along_append.1 h).2.1 s hs
  have hlt := (hsafe _ k seg hr).index_lt
  omega

end Sys

/-!
## Writing to a segment

What the two acquires of a writer leave.
-/

open Option

section
variable {L : Nat → Nat → Int32}

theorem lockOf_modify {k : Kernel} {id : Nat} {f : ShmObject → ShmObject}
    (hf : ∀ o, (f o).blocks = o.blocks) : (k.modify id f).lockOf = k.lockOf := by
  funext id' i
  have hnum : (k.modify id f).lockNum id' i = k.lockNum id' i := by
    unfold Kernel.lockNum
    by_cases h : id' = id
    · subst h
      rw [objects_modify_self, hf]
    · rw [objects_modify_of_ne h]
  unfold Kernel.lockOf
  rw [hnum]
  rfl

theorem lockOf_setState (k : Kernel) (id : Nat) (st : State) :
    (k.setState id st).lockOf = k.lockOf :=
  lockOf_modify fun _ => rfl

theorem lockOf_unlink (k : Kernel) : { k with linked := none }.lockOf = k.lockOf := rfl

theorem lockOf_create (k : Kernel) (conf : ShmConf) (l : Option Nat) :
    (⟨Function.update k.objects k.next (.create conf), l, k.next + 1⟩ : Kernel).lockOf =
      k.lockOf := by
  funext id i
  unfold Kernel.lockOf Kernel.lockNum
  by_cases h : id = k.next
  · subst h
    simp [ShmObject.create]
  · grind

theorem lockOf_finishOpen (k : Kernel) (seg : Segment) (id : Nat) (conf : ShmConf) (base : Nat)
    (bufs arenaBufs : Nat × (Nat → Option Nat)) :
    (finishOpen k seg id conf base bufs arenaBufs).2.1.lockOf = k.lockOf := by
  unfold finishOpen
  split
  · rfl
  · exact lockOf_modify fun _ => rfl

theorem keeps_lockOf_openOnly (fuel : Nat) (base : MapAddr) :
    Keeps (fun s => s.1.lockOf = L) (openOnly abi backend fuel base) := by
  intro s hs r t h
  rw [← hs]
  cases backend with
  | xsi =>
    simp only [openOnly, xsiOpenOnly, Option.some.injEq] at h
    split at h
    · cases h
      rfl
    · split at h
      · cases h
        rfl
      · have := congrArg (fun r => r.2.1.lockOf) h
        exact this.symm.trans (lockOf_finishOpen ..)
  | posix =>
    simp only [openOnly, posixOpenOnly] at h
    split at h
    · cases h
      rfl
    · split at h
      · cases h
        rfl
      · split at h
        · cases h
        · have := congrArg (fun r => r.2.1.lockOf) (Option.some.inj h)
          exact this.symm.trans (lockOf_finishOpen ..)

theorem keeps_lockOf_openOrCreate (fuel : Nat) (base : MapAddr) :
    Keeps (fun s => s.1.lockOf = L) (openOrCreate abi backend fuel base) := by
  intro s hs r t h
  rcases openOrCreate_cases h with ho | ⟨-, -, nullCheck, hc⟩
  · exact keeps_lockOf_openOnly fuel base s hs r t ho
  · rw [← hs, ← lockOf_create s.1 s.2.conf (some s.1.next)]
    have := congrArg (fun r => r.2.1.lockOf) hc
    exact this.symm.trans (lockOf_finishOpen ..)

theorem keeps_lockOf_remap (e : Env) : Keeps (fun s => s.1.lockOf = L) (remap abi backend e) := by
  intro s hs r t h
  refine keeps_lockOf_openOnly _ _ _ ?_ r t h
  exact hs

theorem keeps_lockOf_recreate (e : Env) (n : Nat) :
    Keeps (fun s => s.1.lockOf = L) (recreate abi backend e n) := by
  intro s hs r t h
  rw [recreate_apply] at h
  obtain ⟨id, -, ho⟩ := bind_eq_some_iff.1 h
  refine keeps_lockOf_openOrCreate _ _ _ ?_ r t ho
  exact (lockOf_unlink _).trans ((lockOf_setState ..).trans hs)

theorem keeps_lockOf_ready (fuel : Nat) (base : MapAddr) :
    Keeps (fun s => s.1.lockOf = L) (ready (openOrCreate abi backend fuel base)) :=
  .bind (.reads fun _ _ _ h => by cases h; rfl) fun _ =>
    .ite (.pure _) (keeps_lockOf_openOrCreate fuel base)

theorem keeps_lockOf_remapIfNeeded (e : Env) :
    Keeps (fun s => s.1.lockOf = L) (remapIfNeeded abi backend e) := by
  refine .bind (.reads fun s a t h => ?_) fun _ => .ite (keeps_lockOf_remap e) (.pure _)
  obtain ⟨id, -, hr⟩ := map_eq_some_iff.1 h
  cases hr
  rfl

theorem keeps_lockOf_recreateIfLarger (e : Env) (n : Nat) (r : Bool) :
    Keeps (fun s => s.1.lockOf = L) (recreateIfLarger abi backend e n r) :=
  .bind (.reads fun _ _ _ h => by cases h; rfl) fun _ => .ite (keeps_lockOf_recreate e n) (.pure _)

end

def writeLocked (L : Nat → Nat → Int32) (id i : Nat) : Nat → Nat → Int32 := fun id' j =>
  if (id', j) = (id, i) then Block.kWriteExclusive else L id' j

section
variable {k k' : Kernel} {seg seg' : Segment} {e : Env} {attempts : List Bool} {msgSize : Nat}
  {b : WritableBlock} {fetchAdd : State → UInt32 × State}

theorem lockOf_setBlock {id i : Nat} {b : Block} (hid : id < k.next) (id' j : Nat) :
    (k.setBlock id i b).lockOf id' j =
      if (id', j) = (id, i) then b.lockNum else k.lockOf id' j := by
  unfold Kernel.lockOf
  rw [lockNum_setBlock]
  show (if id' < k.next then _ else _) = _
  grind

theorem nextIndex_some {first blockNum id j : Nat}
    (hm : seg.shm = some id) (hid : id < k.next) (hpos : 0 < blockNum)
    (h : nextIndex fetchAdd first blockNum attempts (k, seg) = some (j, k', seg')) :
    seg' = seg ∧ j < blockNum ∧ k.lockOf id (first + j) = 0 ∧
      k'.lockOf = writeLocked k.lockOf id (first + j) := by
  induction attempts generalizing k with
  | nil => cases h
  | cons spurious rest ih =>
    obtain ⟨seq, ⟨k1, seg1⟩, hseq, h⟩ := bind_eq_some h
    simp only [onState, hm, map_some, Option.some.injEq] at hseq
    obtain ⟨rfl, hk1⟩ := Prod.mk.inj hseq
    obtain ⟨hk1', rfl⟩ := Prod.mk.inj hk1
    have hlock1 : k1.lockOf = k.lockOf := hk1' ▸ lockOf_setState ..
    have hid1 : id < k1.next := hk1' ▸ hid
    obtain ⟨locked, ⟨k2, seg2⟩, htry, h⟩ := bind_eq_some h
    cases locked with
    | false =>
      simp only [tryBlock, hm, map_some, Option.some.injEq] at htry
      split at htry
      · cases htry
        rw [← hlock1]
        exact ih hid1 h
      · cases htry
    | true =>
      cases h
      obtain ⟨id', b', hid', hb', rfl, rfl⟩ := tryBlock_true htry
      obtain rfl : id' = id := Option.some.inj (hid'.symm.trans hm)
      unfold Block.tryLockForWrite at hb'
      split at hb'
      case isFalse => cases hb'
      case isTrue hfree =>
      cases hb'
      refine ⟨rfl, Nat.mod_lt _ hpos, ?_, ?_⟩
      · rw [← hlock1, Kernel.lockOf, if_pos hid1]
        exact hfree.1
      · funext id' j
        rw [lockOf_setBlock hid1, hlock1]
        rfl

theorem nextIndex_mapped {first blockNum j : Nat}
    (h : nextIndex fetchAdd first blockNum attempts (k, seg) = some (j, k', seg')) :
    ∃ id, seg.shm = some id := by
  cases attempts with
  | nil => cases h
  | cons spurious rest =>
    obtain ⟨seq, u, hseq, -⟩ := bind_eq_some h
    obtain ⟨id, hid, -⟩ := map_eq_some_iff.1 hseq
    exact ⟨id, hid⟩

theorem recreateIfLarger_ceiling {s t : Kernel × Segment} {r : Bool}
    (h : recreateIfLarger abi backend e msgSize r s = some (true, t)) :
    min msgSize messageSizeMore ≤ t.2.conf.ceilingMsgSize := by
  obtain ⟨seg1, u, hself, h⟩ := bind_eq_some h
  cases hself
  split at h
  · rw [recreate_apply] at h
    obtain ⟨id, -, ho⟩ := bind_eq_some_iff.1 h
    rcases openOrCreate_cases ho with hopen | ⟨-, -, nullCheck, hc⟩
    · -- nothing is linked any more
      rw [openOnly_of_unlinked rfl rfl] at hopen
      cases hopen
    · rw [create_eq abi nullCheck _ _ rfl (e.recreateAt.mmapOk msgSize)] at hc
      cases hc
      exact le_getCeilingMessageSize msgSize
  · rename_i hle
    cases h
    exact Nat.le_trans (Nat.min_le_left ..) (Nat.le_of_not_lt hle)

theorem acquireBlockToWrite_some (hk : KernelOk k) (hs : SegOk abi k seg)
    (h : acquireBlockToWrite abi backend e attempts msgSize (k, seg) = some (some b, k', seg')) :
    ∃ id, seg'.shm = some id ∧ Mapped abi k' seg' id ∧
      b = ⟨b.index, some (id, b.index), seg'.blockBufAddrs b.index⟩ ∧
      b.index < seg'.conf.blockNum ∧
      min msgSize messageSizeMore ≤ seg'.conf.ceilingMsgSize ∧
      k.lockOf id b.index = 0 ∧ k'.lockOf = writeLocked k.lockOf id b.index := by
  have hgood := keeps_acquireBlockToWrite e attempts msgSize (k, seg) ⟨hk, hs, .refl k⟩ _ _ h
  obtain ⟨r1, s1, hready, h⟩ := bind_eq_some h
  have hg1 := keeps_ready (keeps_openOrCreate _ _) (k, seg) ⟨hk, hs, .refl k⟩ _ _ hready
  have hl1 := keeps_lockOf_ready _ _ (k, seg) rfl _ _ hready
  cases r1 with
  | false => cases h
  | true =>
  obtain ⟨r2, s2, hremap, h⟩ := bind_eq_some h
  have hg2 := keeps_remapIfNeeded e _ hg1 _ _ hremap
  have hl2 := keeps_lockOf_remapIfNeeded e _ hl1 _ _ hremap
  obtain ⟨r3, ⟨k3, seg3⟩, hrec, h⟩ := bind_eq_some h
  have hg3 := keeps_recreateIfLarger e msgSize r2 _ hg2 _ _ hrec
  have hl3 := keeps_lockOf_recreateIfLarger e msgSize r2 _ hl2 _ _ hrec
  cases r3 with
  | false => cases h
  | true =>
  have hceil := recreateIfLarger_ceiling hrec
  obtain ⟨seg4, u, hself, h⟩ := bind_eq_some h
  cases hself
  obtain ⟨j, ⟨k5, seg5⟩, hnext, h⟩ := bind_eq_some h
  cases h
  obtain ⟨id, hm⟩ := nextIndex_mapped hnext
  obtain ⟨n, hn⟩ := hg3.seg.sized
  have hpos : 0 < seg3.conf.blockNum := by
    have := blockNum_bounds n
    rw [hn]
    omega
  have hid := (hg3.seg.mapped id hm).lt
  obtain ⟨rfl, hlt, hfree, hlock⟩ := nextIndex_some hm hid hpos hnext
  rw [hl3, Nat.zero_add] at hfree hlock
  exact ⟨id, hm, hgood.seg.mapped id hm, by simp [hm], hlt, hceil, hfree, hlock⟩

theorem acquireBlockToWrite_none
    (h : acquireBlockToWrite abi backend e attempts msgSize (k, seg) = some (none, k', seg')) :
    k'.lockOf = k.lockOf := by
  obtain ⟨r1, s1, hready, h⟩ := bind_eq_some h
  have hl1 := keeps_lockOf_ready _ _ (k, seg) rfl _ _ hready
  cases r1 with
  | false =>
    cases h
    exact hl1
  | true =>
  obtain ⟨r2, s2, hremap, h⟩ := bind_eq_some h
  have hl2 := keeps_lockOf_remapIfNeeded e _ hl1 _ _ hremap
  obtain ⟨r3, s3, hrec, h⟩ := bind_eq_some h
  have hl3 := keeps_lockOf_recreateIfLarger e msgSize r2 _ hl2 _ _ hrec
  cases r3 with
  | false =>
    cases h
    exact hl3
  | true =>
    obtain ⟨seg4, u, -, h⟩ := bind_eq_some h
    obtain ⟨j, u', -, h⟩ := bind_eq_some h
    cases h

/-- **What `AcquireArenaBlockToWrite` leaves**: an arena block of the mapped object is taken, or
nothing is. -/
theorem acquireArenaBlockToWrite_locks {r : Option WritableBlock} (hk : KernelOk k)
    (hs : SegOk abi k seg)
    (h : acquireArenaBlockToWrite abi backend e attempts (k, seg) = some (r, k', seg')) :
    (r = none ∧ k'.lockOf = k.lockOf) ∨ ∃ b id, r = some b ∧ seg'.shm = some id ∧
      b.block = some (id, seg'.conf.blockNum + b.index) ∧ b.index < arenaBlockNum ∧
      k.lockOf id (seg'.conf.blockNum + b.index) = 0 ∧
      k'.lockOf = writeLocked k.lockOf id (seg'.conf.blockNum + b.index) := by
  obtain ⟨r1, s1, hready, h⟩ := bind_eq_some h
  have hg1 := keeps_ready (keeps_openOrCreate _ _) (k, seg) ⟨hk, hs, .refl k⟩ _ _ hready
  have hl1 := keeps_lockOf_ready _ _ (k, seg) rfl _ _ hready
  cases r1 with
  | false =>
    cases h
    exact .inl ⟨rfl, hl1⟩
  | true =>
  obtain ⟨r2, ⟨k2, seg2⟩, hremap, h⟩ := bind_eq_some h
  have hg2 := keeps_remapIfNeeded e _ hg1 _ _ hremap
  have hl2 := keeps_lockOf_remapIfNeeded e _ hl1 _ _ hremap
  obtain ⟨seg3, u, hself, h⟩ := bind_eq_some h
  cases hself
  obtain ⟨j, ⟨k4, seg4⟩, hnext, h⟩ := bind_eq_some h
  cases h
  obtain ⟨id, hm⟩ := nextIndex_mapped hnext
  obtain ⟨rfl, hlt, hfree, hlock⟩ := nextIndex_some hm (hg2.seg.mapped id hm).lt (by decide) hnext
  rw [hl2] at hfree hlock
  exact .inr ⟨_, id, rfl, hm, by simp [hm], hlt, hfree, hlock⟩

theorem blockBufOffset_succ (abi : Abi) (conf : ShmConf) (i : Nat) :
    blockBufOffset abi conf (i + 1) = blockBufOffset abi conf i + conf.blockBufSize := by
  simp only [blockBufOffset, Nat.succ_mul]
  omega

theorem blockBufOffset_le (abi : Abi) (conf : ShmConf) {i j : Nat} (h : i ≤ j) :
    blockBufOffset abi conf i ≤ blockBufOffset abi conf j :=
  Nat.add_le_add_left (Nat.mul_le_mul_right _ h) _

theorem apart_buffers (abi : Abi) (conf : ShmConf) {i j : Nat} (h : j ≠ i) :
    Apart (blockBufOffset abi conf i) conf.blockBufSize (blockBufOffset abi conf j)
      conf.blockBufSize := by
  unfold Apart
  rw [← blockBufOffset_succ, ← blockBufOffset_succ]
  rcases Nat.lt_or_gt_of_ne h with hlt | hlt
  · exact .inr (blockBufOffset_le abi conf hlt)
  · exact .inl (blockBufOffset_le abi conf hlt)

theorem ownBuffer {id i : Nat} (hk : KernelOk k) (hm : Mapped abi k seg id)
    (hid : seg.shm = some id) (hi : i < seg.conf.blockNum) (hb : b.index = i)
    (hbuf : b.buf = seg.blockBufAddrs i) :
    OwnBuffer abi k seg b (blockBufOffset abi seg.conf i) := by
  subst hb
  obtain ⟨n, -, hn⟩ := hk.exists_conf hm.lt
  have hend := blockBufOffset_le abi seg.conf hi
  rw [blockBufOffset_succ] at hend
  have hfirst := blockBufOffset_le abi seg.conf (Nat.zero_le b.index)
  have harena : arenaBlockBufOffset abi seg.conf 0 =
      blockBufOffset abi seg.conf seg.conf.blockNum := by
    simp [arenaBlockBufOffset, blockBufOffset]
  refine ⟨hbuf.trans (hm.bufs _ hi), hi, ⟨id, hid, ?_⟩, .inr ?_, .inr ?_,
    fun j _ hj => apart_buffers abi seg.conf hj, .inl ?_⟩
  · have hlt := blockBufOffset_lt abi n (i := seg.conf.blockNum) (by rw [hm.conf, hn])
    rw [hk.size id hm.lt, hn]
    rw [hm.conf, hn] at hend
    rw [hm.conf, hn] at hlt
    rw [hm.conf, hn]
    omega
  · simp only [blockBufOffset]
    omega
  · rw [Nat.add_mul]
    simp only [blockBufOffset]
    omega
  · rw [harena]
    exact hend

theorem room_iff {n : Nat} (hc : seg.conf = .update n)
    (hceil : min msgSize messageSizeMore ≤ seg.conf.ceilingMsgSize) :
    msgSize + Transport.MessageInfo.kSize ≤ seg.conf.blockBufSize ↔
      msgSize + Transport.MessageInfo.kSize ≤
        messageSizeMore + messageInfoSize := by
  have hle : seg.conf.ceilingMsgSize ≤ messageSizeMore := by
    rw [hc]
    exact getCeilingMessageSize_le n
  have hsize : seg.conf.blockBufSize = seg.conf.ceilingMsgSize + messageInfoSize := by
    rw [hc]
    rfl
  simp only [Transport.MessageInfo.kSize, Transport.idSize, messageInfoSize, messageSizeMore] at *
  omega

end

namespace Sys

variable {s : Sys}

theorem roomy_iff_roomOk (h : Ok abi s) (op : SegmentOp) :
    s.Roomy abi backend op ↔ s.RoomOk abi backend op := by
  cases op with
  | acquireBlockToWrite p e attempts msgSize =>
    refine forall₃_congr fun b k seg => forall_congr' fun hcall => ?_
    have hgood := keeps_acquireBlockToWrite e attempts msgSize _ (h.good p) _ _ hcall
    obtain ⟨id, hid, hm, hb, hlt, hceil, -⟩ := acquireBlockToWrite_some h.kernel (h.segs p) hcall
    obtain ⟨n, hn⟩ := hgood.seg.sized
    have hbuf : b.buf = seg.blockBufAddrs b.index := congrArg WritableBlock.buf hb
    rw [room_iff hn hceil]
    exact and_iff_left ⟨_, ownBuffer hgood.kernel hm hid hlt rfl hbuf⟩
  | _ => exact Iff.rfl

/-- **Every successful `AcquireBlockToWrite` of a run hands out a buffer of its own with room for
the message and its info exactly when no message is larger than the largest size class** and the
slack of its buffer: whatever the calls of the other segments. -/
theorem hands_out_room_iff (abi : Abi) (backend : Backend) (ops : List SegmentOp) :
    Along (bindStep (step abi backend)) (onSome (Roomy abi backend)) (some init) ops ↔
      Along (bindStep (step abi backend)) (onSome (RoomOk abi backend)) (some init) ops := by
  refine along_congr (P := fun o => ∀ s ∈ o, Ok abi s) ?_ ?_ ?_
  · intro s hs
    cases hs
    exact ok_init
  · intro o op ho
    exact forall₂_congr fun s hs => roomy_iff_roomOk (ho s hs) op
  · intro o op ho _ t ht
    obtain ⟨s, hs, hstep⟩ := bind_eq_some_iff.1 ht
    exact ((ho s hs).step hstep).1

theorem acquire_tooLarge :
    (acquireBlockToWrite .lp64 .xsi someEnv [false] 33555413 (init.kernel, init.segs 0)).map
      (fun r => (r.1.isSome, r.2.2.conf.blockBufSize)) = some (true, 33555456) := by
  decide +kernel

theorem not_hands_out_room_tooLarge :
    ¬ Along (bindStep (step .lp64 .xsi)) (onSome (Roomy .lp64 .xsi)) (some init)
      [.acquireBlockToWrite 0 someEnv [false] 33555413] := by
  intro h
  obtain ⟨⟨b, k, seg⟩, hcall, hr⟩ := map_eq_some_iff.1 acquire_tooLarge
  obtain ⟨hsome, hsize⟩ := Prod.mk.inj hr
  obtain ⟨b, rfl⟩ := isSome_iff_exists.1 hsome
  have hroom := (h.1 init rfl b k seg hcall).1
  rw [show seg.conf.blockBufSize = 33555456 from hsize] at hroom
  exact absurd hroom (by decide)

end Sys

end Shm
