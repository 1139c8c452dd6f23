import CyberRT.Transport.Proof.ArenaFrame

/-!
# What an arena block holds

The buffers of the arena blocks are 1024 bytes apart, the wrapper fills all of them, and the info
goes behind it: into the first 40 bytes of the next block's buffer.
-/

namespace Transport

open Function Lib Shm Shm.Segment MessageInfo Int32

variable {abi : Abi} {backend : Backend}

/-! ## Writing to a block -/

attribute [local simp] ArenaSys.put

structure Writes (abi : Abi) (o o' : ShmObject) (j lo n : Nat) : Prop where
  size : o'.size = o.size
  ceiling : o'.state.ceilingMsgSize = o.state.ceilingMsgSize
  needRemap : o'.state.needRemap = o.state.needRemap
  mem : ∀ x, x < arenaOffset abi o j + lo ∨ arenaOffset abi o j + lo + n ≤ x → o'.mem x = o.mem x
  block : ∀ i, i ≠ j → arenaBlock o' i = arenaBlock o i
  lock : ∀ i, arenaLock o' i = arenaLock o i

section
variable {o o' : ShmObject} {i j lo n : Nat}

theorem Writes.conf (h : Writes abi o o' j lo n) : objectConf o' = objectConf o := by
  rw [objectConf, h.ceiling, objectConf]

theorem Writes.offset (h : Writes abi o o' j lo n) (i : Nat) :
    arenaOffset abi o' i = arenaOffset abi o i := by
  rw [arenaOffset, h.conf, arenaOffset]

theorem HasWrapper.writes {w : Vector UInt8 wrapperSize} (h : HasWrapper abi o i w)
    (hw : Writes abi o o' j lo n) (hi : i ≠ j) (hd : (i + 1) * wrapperSize ≤ j * wrapperSize + lo ∨
      j * wrapperSize + lo + n ≤ i * wrapperSize) : HasWrapper abi o' i w where
  data := by
    rw [← h.data, hw.offset]
    have h1 := arenaOffset_eq abi o i
    have h2 := arenaOffset_eq abi o j
    have h3 : (i + 1) * wrapperSize = i * wrapperSize + wrapperSize := Nat.succ_mul _ _
    exact read_congr fun x hx hx' => hw.mem x (by omega)
  msgSize := by
    rw [hw.block i hi]
    exact h.msgSize

theorem HasInfo.writes {info : MessageInfo} (h : HasInfo abi o i info)
    (hw : Writes abi o o' j lo n) (hi : i ≠ j)
    (hd : (i + 1) * wrapperSize + fieldSize ≤ j * wrapperSize + lo ∨
      j * wrapperSize + lo + n ≤ (i + 1) * wrapperSize) : HasInfo abi o' i info where
  data := by
    rw [← h.data, hw.offset]
    have h1 := arenaOffset_eq abi o i
    have h2 := arenaOffset_eq abi o j
    have h3 : (i + 1) * wrapperSize = i * wrapperSize + wrapperSize := Nat.succ_mul _ _
    exact read_congr fun x hx hx' => hw.mem x (by omega)
  msgInfoSize := by
    rw [hw.block i hi]
    exact h.msgInfoSize

end

def written (abi : Abi) (o : ShmObject) (j lo : Nat) (bs : List UInt8) (b : Block) : ShmObject :=
  { o with
    mem := write o.mem (arenaOffset abi o j + lo) bs
    blocks := update o.blocks ((objectConf o).blockNum + j) b }

theorem arenaBlock_written_self (o : ShmObject) (j lo : Nat) (bs : List UInt8) (b : Block) :
    arenaBlock (written abi o j lo bs b) j = b := by
  show update o.blocks ((objectConf o).blockNum + j) b ((objectConf o).blockNum + j) = b
  rw [update_self]

theorem arenaBlock_written_of_ne (o : ShmObject) {i j : Nat} (lo : Nat) (bs : List UInt8)
    (b : Block) (h : i ≠ j) : arenaBlock (written abi o j lo bs b) i = arenaBlock o i := by
  show update o.blocks ((objectConf o).blockNum + j) b ((objectConf o).blockNum + i) = _
  rw [update_of_ne (by omega)]
  rfl

variable (abi) in
theorem writes_written (o : ShmObject) {j : Nat} (lo : Nat) (bs : List UInt8) {b : Block}
    (hb : b.lockNum = arenaLock o j) : Writes abi o (written abi o j lo bs b) j lo bs.length where
  size := rfl
  ceiling := rfl
  needRemap := rfl
  mem x hx := write_of_disjoint hx
  block i hi := arenaBlock_written_of_ne o lo bs b hi
  lock i := by
    by_cases hi : i = j
    · subst hi
      rw [arenaLock, arenaBlock_written_self, hb]
    · rw [arenaLock, arenaBlock_written_of_ne o lo bs b hi, arenaLock]

structure Owned (abi : Abi) (o : ShmObject) (seg : Segment) (b : WritableBlock) : Prop where
  shm : seg.shm = some 0
  index_lt : b.index < ShmConf.arenaBlockNum
  block : b.block = some (0, (objectConf o).blockNum + b.index)
  buf : b.buf = some (seg.base + arenaOffset abi o b.index)

section
variable {k k' : Kernel} {seg seg' : Segment} {b : WritableBlock} {u : Unit}

theorem Owned.writes {o o' : ShmObject} {j lo n : Nat}
    (h : Owned abi o seg b) (hw : Writes abi o o' j lo n) : Owned abi o' seg b :=
  { h with
    block := by rw [hw.conf, h.block]
    buf := by rw [hw.offset, h.buf] }

theorem OneObject.writes {j lo n : Nat} (h : OneObject k) (hl : SameLinks k k')
    (hw : Writes abi (k.objects 0) (k'.objects 0) j lo n) : OneObject k' where
  next_le := hl.1 ▸ h.next_le
  linked h0 := by
    rw [hl.2]
    exact h.linked (hl.1 ▸ h0)
  needRemap := by
    rw [hw.needRemap]
    exact h.needRemap

section
variable (ho : Owned abi (k.objects 0) seg b)
include ho

theorem store_owned {lo : Nat} {bs : List UInt8} {f : Block → Block}
    (h : (do store b.buf lo bs; onBlockPtr b.block f : Call Unit) (k, seg) = some (u, k', seg')) :
    seg' = seg ∧ SameLinks k k' ∧ k'.objects 0 =
      written abi (k.objects 0) b.index lo bs (f (arenaBlock (k.objects 0) b.index)) := by
  obtain ⟨u, ⟨k1, seg1⟩, hst, hptr⟩ := bind_eq_some h
  simp only [store, ho.buf, ho.shm, Option.bind_some, Nat.add_sub_cancel_left] at hst
  split at hst
  case isFalse => cases hst
  case isTrue =>
    cases hst
    simp only [onBlockPtr, ho.block, Option.map_some, Option.some.injEq] at hptr
    cases hptr
    refine ⟨rfl, ⟨rfl, rfl⟩, ?_⟩
    rfl

theorem copyWrapper_outcome {w : Vector UInt8 wrapperSize}
    (h : copyWrapper b w (k, seg) = some (u, k', seg')) :
    seg' = seg ∧ SameLinks k k' ∧
      Writes abi (k.objects 0) (k'.objects 0) b.index 0 wrapperSize ∧
      HasWrapper abi (k'.objects 0) b.index w := by
  obtain ⟨hseg, hlinks, hobj⟩ := store_owned ho h
  have hw := writes_written abi (k.objects 0) (j := b.index) 0 w.toList
    (b := { arenaBlock (k.objects 0) b.index with msgSize := wrapperSize }) rfl
  rw [← hobj, Vector.length_toList] at hw
  refine ⟨hseg, hlinks, hw, ?_, ?_⟩
  · have hself := read_write_self (k.objects 0).mem (arenaOffset abi (k.objects 0) b.index) w.toList
    rw [Vector.length_toList] at hself
    rw [hw.offset, hobj]
    exact hself
  · rw [hobj, arenaBlock_written_self]

theorem infoArena_outcome {info : MessageInfo} {r : Bool}
    (h : infoArena b info (k, seg) = some (r, k', seg')) :
    r = true ∧ seg' = seg ∧ SameLinks k k' ∧
      Writes abi (k.objects 0) (k'.objects 0) b.index wrapperSize fieldSize ∧
      HasInfo abi (k'.objects 0) b.index info ∧
      ∀ w, HasWrapper abi (k.objects 0) b.index w → HasWrapper abi (k'.objects 0) b.index w := by
  have hser : info.serializeTo kSize = some info.bytes := by
    simp [serializeTo]
  obtain ⟨ok, ⟨k1, seg1⟩, hwrite, hrest⟩ := bind_eq_some h
  simp only [writeInfo, hser] at hwrite
  rw [← bind_assoc] at hwrite
  obtain ⟨u, ⟨k2, seg2⟩, hst, hpure⟩ := bind_eq_some hwrite
  cases hpure
  cases hrest
  obtain ⟨hseg, hlinks, hobj⟩ := store_owned ho hst
  have hw := writes_written abi (k.objects 0) (j := b.index) wrapperSize info.bytes
    (b := { arenaBlock (k.objects 0) b.index with msgInfoSize := kSize }) rfl
  rw [← hobj, bytes_length] at hw
  refine ⟨rfl, hseg, hlinks, hw, ⟨?_, ?_⟩, fun w hwr => ⟨?_, ?_⟩⟩
  · have hself := read_write_self (k.objects 0).mem
      (arenaOffset abi (k.objects 0) b.index + wrapperSize) info.bytes
    rw [bytes_length] at hself
    rw [hw.offset, hobj]
    exact hself
  · rw [hobj, arenaBlock_written_self]
  · rw [← hwr.data, hw.offset]
    exact read_congr fun x hx hx' => hw.mem x (by omega)
  · rw [hobj, arenaBlock_written_self]
    exact hwr.msgSize

end

end

namespace ArenaSys

/-! ## The invariant -/

structure WritingOk (abi : Abi) (o : ShmObject) (seg : Segment)
    (last : Nat → Option (Vector UInt8 wrapperSize × MessageInfo)) (w : Writing) : Prop where
  owned : Owned abi o seg w.block
  wrapper : w.phase ≠ .copy → HasWrapper abi o w.block.index w.wrapper
  info : w.phase = .serialize ∨ w.phase = .release → HasInfo abi o w.block.index w.info ∧
    last w.block.index = some (w.wrapper, w.info)

structure Core (abi : Abi) (s : ArenaSys) : Prop where
  kernel : KernelOk s.kernel
  segs : ∀ p, SegOk abi s.kernel (s.segs p)
  one : OneObject s.kernel
  writing : ∀ p w, s.writing p = some w → WritingOk abi (s.kernel.objects 0) (s.segs p) s.last w
  alone : ∀ p q w v, s.writing p = some w → s.writing q = some v →
    w.block.index = v.block.index → p = q
  held : ∀ x ∈ s.held, (s.segs x.1).shm = some 0 ∧ x.2.index < ShmConf.arenaBlockNum
  last_next : ∀ j m, s.last j = some m → 0 < s.kernel.next
  last : ∀ j m, s.last j = some m → s.Idle j →
    HasWrapper abi (s.kernel.objects 0) j m.1 ∧ HasInfo abi (s.kernel.objects 0) j m.2
  apart : ∀ j, ¬ s.Untouched j → s.Untouched (j + 1)

def readers (s : ArenaSys) (j : Nat) : Nat := s.held.countP fun x => x.2.index == j

def LockOk (s : ArenaSys) (j : Nat) : Prop :=
  (arenaLock (s.kernel.objects 0) j = -1 ∧ s.readers j = 0) ∨
    (s.Idle j ∧ s.readers j < 2 ^ 31 ∧ arenaLock (s.kernel.objects 0) j = ofNat (s.readers j))

structure Inv (abi : Abi) (s : ArenaSys) : Prop extends Core abi s where
  locks : ∀ j, LockOk s j

section
variable {s : ArenaSys} {p : Nat} {k' : Kernel} {seg' : Segment} {g : Nat → Int32} {w : Writing}
  {t : ArenaSys} {last' : Nat → Option (Vector UInt8 wrapperSize × MessageInfo)}
  {attempts : List Bool} {e : Env}

theorem WritingOk.relock {o o' : ShmObject} {seg : Segment}
    {last : Nat → Option (Vector UInt8 wrapperSize × MessageInfo)}
    (h : WritingOk abi o seg last w) (hr : Relocks abi o o' g) : WritingOk abi o' seg last w where
  owned :=
    { h.owned with
      block := by rw [hr.conf, h.owned.block]
      buf := by rw [hr.offset, h.owned.buf] }
  wrapper hp := (h.wrapper hp).relock hr
  info hp := ⟨(h.info hp).1.relock hr, (h.info hp).2⟩

theorem init_of_shm {k : Kernel} {seg : Segment} (hs : SegOk abi k seg) (hm : seg.shm = some 0) :
    seg.init = true := by
  cases hi : seg.init with
  | true => rfl
  | false =>
    rw [hs.closed hi] at hm
    cases hm

section
variable (h : Core abi s)
include h

theorem Core.on (hm : (s.segs p).shm = some 0) : OnObject abi s.kernel (s.segs p) :=
  ⟨init_of_shm (h.segs p) hm, hm, h.one, (h.segs p).mapped 0 hm, (h.segs p).sized⟩

theorem Core.writing_next (hw : s.writing p = some w) : 0 < s.kernel.next :=
  ((h.segs p).mapped 0 (h.writing p w hw).owned.shm).lt

theorem Core.held_next {x : Nat × ReadableBlock} (hx : x ∈ s.held) : 0 < s.kernel.next :=
  ((h.segs x.1).mapped 0 (h.held x hx).1).lt

theorem Core.untouched_of_next (h0 : s.kernel.next = 0) (j : Nat) : s.Untouched j := by
  refine ⟨?_, fun q w hw => absurd (h.writing_next hw) (by omega)⟩
  cases hl : s.last j with
  | none => rfl
  | some m => exact absurd (h.last_next j m hl) (by omega)

theorem Core.put (hg : Good abi s.kernel (k', seg')) (hone : OneObject k')
    (hsame : (s.segs p).shm = some 0 → seg' = s.segs p)
    (hrel : 0 < s.kernel.next → Relocks abi (s.kernel.objects 0) (k'.objects 0) g) :
    Core abi (s.put p (k', seg')) := by
  have hsegs : ∀ q, (s.segs q).shm = some 0 → (s.put p (k', seg')).segs q = s.segs q := by
    intro q hq
    by_cases he : q = p
    · subst he
      simp [hsame hq]
    · simp [he]
  refine ⟨hg.kernel, fun q => ?_, hone, fun q w hw => ?_, h.alone, fun x hx => ?_, fun j m hm => ?_,
    fun j m hm hi => ?_, h.apart⟩
  · by_cases he : q = p
    · subst he
      simpa using hg.seg
    · simpa [he] using (h.segs q).evolve hg.evolves
  · have hok := h.writing q w hw
    rw [hsegs q hok.owned.shm]
    exact hok.relock (hrel (h.writing_next hw))
  · obtain ⟨hm, hlt⟩ := h.held x hx
    grind
  · exact Nat.lt_of_lt_of_le (h.last_next j m hm) hg.evolves.next_le
  · obtain ⟨h1, h2⟩ := h.last j m hm hi
    have hr := hrel (h.last_next j m hm)
    exact ⟨h1.relock hr, h2.relock hr⟩

end

theorem run_eq_some {α : Type} {c : Call α} {a : α} (h : s.run p c = some (a, t)) :
    ∃ k' seg', c (s.kernel, s.segs p) = some (a, k', seg') ∧ t = s.put p (k', seg') := by
  obtain ⟨⟨a', k', seg'⟩, hc, hr⟩ := Option.map_eq_some_iff.1 h
  grind

theorem Core.setHeld (h : Core abi s) {l : List (Nat × ReadableBlock)}
    (hl : ∀ x ∈ l, (s.segs x.1).shm = some 0 ∧ x.2.index < ShmConf.arenaBlockNum) :
    Core abi { s with held := l } :=
  { h with held := hl }

/-! ## Counting readers -/

theorem ofNat_add_one (n : Nat) : ofNat n + 1 = ofNat (n + 1) := by
  rw [ofNat_add]
  rfl

theorem ofNat_sub_one {n : Nat} (h : 0 < n) : ofNat n - 1 = ofNat (n - 1) := by
  obtain ⟨m, rfl⟩ : ∃ m, n = m + 1 := ⟨n - 1, by omega⟩
  rw [← ofNat_add_one, Nat.add_sub_cancel]
  grind

theorem LockOk.of_nonneg {j : Nat} (h : LockOk s j) (hn : ¬ arenaLock (s.kernel.objects 0) j < 0) :
    s.Idle j ∧ s.readers j < 2 ^ 31 ∧
      arenaLock (s.kernel.objects 0) j = ofNat (s.readers j) := by
  rcases h with ⟨hl, -⟩ | h
  all_goals grind

theorem LockOk.of_readers {j : Nat} (h : LockOk s j) (hr : s.readers j ≠ 0) :
    s.Idle j ∧ s.readers j < 2 ^ 31 ∧
      arenaLock (s.kernel.objects 0) j = ofNat (s.readers j) := by
  rcases h with ⟨-, h0⟩ | h
  · exact absurd h0 hr
  · exact h

theorem LockOk.of_free {j : Nat} (h : LockOk s j) (hf : arenaLock (s.kernel.objects 0) j = 0) :
    s.Idle j ∧ s.readers j = 0 := by
  obtain ⟨hi, hlt, hl⟩ := h.of_nonneg (by rw [hf]; decide)
  have := congrArg toInt (hf.symm.trans hl)
  rw [toInt_ofNat_of_lt hlt] at this
  grind

theorem LockOk.congr {j : Nat} (h : LockOk s j)
    (hl : arenaLock (t.kernel.objects 0) j = arenaLock (s.kernel.objects 0) j)
    (hr : t.readers j = s.readers j) (hi : s.Idle j → t.Idle j) : LockOk t j := by
  rw [LockOk, hl, hr]
  exact h.imp id fun ⟨h1, h2⟩ => ⟨hi h1, h2⟩

theorem Inv.lock_writing (h : Inv abi s) (hw : s.writing p = some w) :
    arenaLock (s.kernel.objects 0) w.block.index = -1 ∧ s.readers w.block.index = 0 := by
  rcases h.locks w.block.index with hl | ⟨hi, -⟩
  · exact hl
  · exact absurd rfl (hi p w hw)

/-! ## The steps -/

theorem Inv.releaseRead (h : Inv abi s) {b : ReadableBlock} (hmem : (p, b) ∈ s.held) {a : Bool}
    (hr : s.run p (releaseArenaReadBlock b) = some (a, t)) :
    Inv abi { t with held := s.held.erase (p, b) } := by
  obtain ⟨k', seg', hc, rfl⟩ := run_eq_some hr
  obtain ⟨hm, hlt⟩ := h.held _ hmem
  have hg := keeps_onArenaBlock _ _ _ ⟨h.kernel, h.segs p, .refl _⟩ _ _ hc
  obtain ⟨rfl, hlinks, hrel⟩ := onArenaBlock_lock abi hm (h.on hm).conf hlt (fun _ => rfl) hc
  have hcore := h.put hg (OneObject.relocks h.one hlinks hrel) (fun _ => rfl) fun _ => hrel
  refine ⟨hcore.setHeld fun x hx => hcore.held x (List.mem_of_mem_erase hx), fun j => ?_⟩
  have hlock : arenaLock (k'.objects 0) j = _ := hrel.lock j
  by_cases hj : j = b.index
  · -- one reader less
    subst hj
    have hpos : 0 < s.readers b.index := List.countP_pos_iff.2 ⟨(p, b), hmem, beq_self_eq_true _⟩
    obtain ⟨hi, hn, hl⟩ := (h.locks b.index).of_readers (by omega)
    have hcount : (s.held.erase (p, b)).countP (fun x => x.2.index == b.index) =
        s.readers b.index - 1 := by
      rw [List.countP_erase, if_pos ⟨hmem, beq_self_eq_true _⟩]
      rfl
    rw [update_self] at hlock
    refine .inr ⟨hi, ?_, ?_⟩
    · show List.countP _ (s.held.erase (p, b)) < _
      rw [hcount]
      omega
    · show arenaLock (k'.objects 0) b.index = ofNat (List.countP _ (s.held.erase (p, b)))
      rw [hcount, hlock, ← ofNat_sub_one hpos, ← hl]
      rfl
  · have hcount : (s.held.erase (p, b)).countP (fun x => x.2.index == j) = s.readers j := by
      rw [List.countP_erase, if_neg fun hc => hj (beq_iff_eq.1 hc.2).symm]
      rfl
    rw [update_of_ne hj] at hlock
    exact (h.locks j).congr hlock hcount id

theorem Inv.acquireRead (h : Inv abi s) {spurious i : Nat}
    (hok : s.StepOk backend (.acquire p e spurious i)) {r : Option ReadableBlock}
    (hr : s.run p (acquireArenaBlockToRead abi backend e spurious i) = some (r, t)) :
    Inv abi { t with held := r.toList.map (p, ·) ++ s.held } := by
  obtain ⟨k', seg', hc, rfl⟩ := run_eq_some hr
  have hg := keeps_acquireArenaBlockToRead _ _ _ _ ⟨h.kernel, h.segs p, .refl _⟩ _ _ hc
  have hsame : (s.segs p).shm = some 0 → seg' = s.segs p := fun hm =>
    acquireArenaBlockToRead_seg (h.segs p) h.one (init_of_shm (h.segs p) hm) hc
  cases r with
  | none =>
    obtain ⟨hlinks, hrel⟩ := acquireArenaBlockToRead_none h.kernel (h.segs p) h.one hok.1 hc
    have hcore := h.put hg (OneObject.relocks h.one hlinks hrel) hsame fun _ => hrel
    exact ⟨hcore, fun j => (h.locks j).congr (hrel.lock j) rfl id⟩
  | some b =>
    obtain ⟨h0, hlinks, hacq⟩ := acquireArenaBlockToRead_some h.kernel (h.segs p) h.one hc
    have hrel := hacq.relocks
    have hcore := h.put hg (OneObject.relocks h.one hlinks hrel) hsame fun _ => hrel
    refine ⟨hcore.setHeld fun x hx => ?_, fun j => ?_⟩
    · rcases List.mem_cons.1 hx with rfl | hx
      · refine ⟨?_, hacq.index.symm ▸ hacq.index_lt⟩
        simpa using hacq.shm
      · exact hcore.held x hx
    have hlock : arenaLock (k'.objects 0) j = _ := hrel.lock j
    by_cases hj : j = i
    · -- one reader more, and the counter does not overflow
      subst hj
      obtain ⟨hi, hn, hl⟩ := (h.locks j).of_nonneg hacq.lock
      have hmax := hok.2 0 (h.one.linked h0)
      replace hmax : arenaLock (s.kernel.objects 0) j ≠ maxValue := hmax
      have hlt : s.readers j + 1 < 2 ^ 31 := by
        rcases Nat.lt_or_ge (s.readers j + 1) (2 ^ 31) with hlt | hge
        · exact hlt
        · refine absurd ?_ hmax
          rw [hl, show s.readers j = 2 ^ 31 - 1 by omega]
          rfl
      have hcount : List.countP (fun x => x.2.index == j) ((p, b) :: s.held) = s.readers j + 1 :=
        List.countP_cons_of_pos (by simp [hacq.index])
      rw [update_self] at hlock
      refine .inr ⟨hi, ?_, ?_⟩
      · show List.countP _ ((p, b) :: s.held) < _
        rw [hcount]
        exact hlt
      · show arenaLock (k'.objects 0) j = ofNat (List.countP _ ((p, b) :: s.held))
        rw [hcount, hlock, hl, ofNat_add_one]
    · have hcount : List.countP (fun x => x.2.index == j) ((p, b) :: s.held) = s.readers j :=
        List.countP_cons_of_neg (by simp [hacq.index, Ne.symm hj])
      rw [update_of_ne hj] at hlock
      exact (h.locks j).congr hlock hcount id

/-! ### The transmitters -/

theorem writing_setWriting (s : ArenaSys) (p q : Nat) (w : Option Writing) :
    (s.setWriting p w).writing q = if q = p then w else s.writing q := by
  by_cases h : q = p
  · subst h
    simp [setWriting]
  · simp [setWriting, h]

theorem idle_setWriting_some {w w' : Writing} (hw : s.writing p = some w)
    (hb : w'.block = w.block) (j : Nat) : (s.setWriting p (some w')).Idle j ↔ s.Idle j := by
  refine ⟨fun h q v hv => ?_, fun h q v hv => ?_⟩
  · by_cases hq : q = p
    · subst hq
      cases hw.symm.trans hv
      rw [← hb]
      exact h q w' (by rw [writing_setWriting, if_pos rfl])
    · exact h q v (by rw [writing_setWriting, if_neg hq]; exact hv)
  · rw [writing_setWriting] at hv
    split at hv
    · cases hv
      rw [hb]
      exact h p w hw
    · exact h q v hv

theorem idle_begin (hp : s.writing p = none) (j : Nat) :
    (s.setWriting p (some w)).Idle j ↔ s.Idle j ∧ w.block.index ≠ j := by
  refine ⟨fun h => ⟨fun q v hv => ?_, h p w (by rw [writing_setWriting, if_pos rfl])⟩,
    fun h q v hv => ?_⟩
  · have hq : q ≠ p := by grind
    exact h q v (by rw [writing_setWriting, if_neg hq]; exact hv)
  · rw [writing_setWriting] at hv
    split at hv
    · cases hv
      exact h.2
    · exact h.1 q v hv

section
variable (h : Core abi s)
include h

theorem idle_finish (hw : s.writing p = some w) (j : Nat) :
    (s.setWriting p none).Idle j ↔ s.Idle j ∨ w.block.index = j := by
  refine ⟨fun hi => ?_, fun hi q v hv => ?_⟩
  · by_cases hj : w.block.index = j
    · exact .inr hj
    · refine .inl fun q v hv => ?_
      by_cases hq : q = p
      · grind
      · exact hi q v (by rw [writing_setWriting, if_neg hq]; exact hv)
  · rw [writing_setWriting] at hv
    split at hv
    · cases hv
    · rename_i hq
      rcases hi with hi | rfl
      · exact hi q v hv
      · exact fun he => hq (h.alone q p v w hv hw he)

theorem Core.begin (hp : s.writing p = none)
    (hok : WritingOk abi (s.kernel.objects 0) (s.segs p) s.last w) (hidle : s.Idle w.block.index)
    (hnext : s.Untouched (w.block.index + 1)) (hprev : ∀ i, i + 1 = w.block.index → s.Untouched i) :
    Core abi (s.setWriting p (some w)) := by
  have huntouched : ∀ i, (s.setWriting p (some w)).Untouched i ↔
      s.Untouched i ∧ w.block.index ≠ i := fun i => by
    rw [Untouched, idle_begin hp, Untouched, and_assoc]
    rfl
  refine ⟨h.kernel, h.segs, h.one, fun q v hv => ?_, fun q q' v v' hv hv' he => ?_, h.held,
    h.last_next, fun j m hm hi => h.last j m hm ((idle_begin hp j).1 hi).1, fun j hj => ?_⟩
  · rw [writing_setWriting] at hv
    split at hv
    · rename_i hq
      cases hv
      rw [hq]
      exact hok
    · exact h.writing q v hv
  · rw [writing_setWriting] at hv hv'
    split at hv <;> split at hv'
    · rename_i hq hq'
      rw [hq, hq']
    · cases hv
      exact absurd he.symm (hidle q' v' hv')
    · cases hv'
      exact absurd he (hidle q v hv)
    · exact h.alone q q' v v' hv hv' he
  · rw [huntouched] at hj ⊢
    by_cases he : w.block.index = j
    · grind
    · have ht : ¬ s.Untouched j := fun hu => hj ⟨hu, he⟩
      exact ⟨h.apart j ht, fun hj' => ht (hprev j hj'.symm)⟩

theorem Core.finish (hw : s.writing p = some w)
    (hphase : w.phase = .serialize ∨ w.phase = .release) : Core abi (s.setWriting p none) := by
  have hok := h.writing p w hw
  have hcopy : w.phase ≠ .copy := by grind
  obtain ⟨hinfo, hlast⟩ := hok.info hphase
  have huntouched : ∀ i, (s.setWriting p none).Untouched i ↔ s.Untouched i := fun i => by
    rw [Untouched, idle_finish h hw, Untouched]
    refine and_congr_right fun hl => or_iff_left ?_
    rintro rfl
    rw [show (s.setWriting p none).last w.block.index = s.last w.block.index from rfl, hlast] at hl
    cases hl
  refine ⟨h.kernel, h.segs, h.one, fun q v hv => ?_, fun q q' v v' hv hv' he => ?_, h.held,
    h.last_next, fun j m hm hi => ?_, fun j hj => ?_⟩
  · rw [writing_setWriting] at hv
    split at hv
    · cases hv
    · exact h.writing q v hv
  · rw [writing_setWriting] at hv hv'
    split at hv
    · cases hv
    · split at hv'
      · cases hv'
      · exact h.alone q q' v v' hv hv' he
  · rcases (idle_finish h hw j).1 hi with hi | rfl
    · exact h.last j m hm hi
    · cases hlast.symm.trans hm
      exact ⟨hok.wrapper hcopy, hinfo⟩
  · rw [huntouched] at hj ⊢
    exact h.apart j hj

theorem Core.far {i j : Nat} (hi : ¬ s.Untouched i) (hj : ¬ s.Untouched j) :
    i ≠ j + 1 ∧ i + 1 ≠ j := by
  refine ⟨?_, ?_⟩
  · rintro rfl
    exact hi (h.apart j hj)
  · rintro rfl
    exact hj (h.apart i hi)

end

theorem not_untouched_writing (hw : s.writing p = some w) :
    ¬ s.Untouched w.block.index := fun hu => hu.2 p w hw rfl

theorem not_untouched_last {j : Nat} {m : Vector UInt8 wrapperSize × MessageInfo}
    (hm : s.last j = some m) : ¬ s.Untouched j := fun hu => by
  rw [hu.1] at hm
  cases hm

theorem Core.write (h : Core abi s) {w w' : Writing} (hw : s.writing p = some w)
    (hb : w'.block = w.block) (hg : Good abi s.kernel (k', s.segs p)) (hone : OneObject k')
    {lo n : Nat} (hn : lo + n ≤ wrapperSize + fieldSize)
    (hwr : Writes abi (s.kernel.objects 0) (k'.objects 0) w.block.index lo n)
    (hlast : ∀ i, i ≠ w.block.index → last' i = s.last i)
    (hok : WritingOk abi (k'.objects 0) (s.segs p) last' w') :
    Core abi ({ s.put p (k', s.segs p) with last := last' }.setWriting p (some w')) := by
  have hsegs : update s.segs p (s.segs p) = s.segs := update_eq_self p s.segs
  have hidle := idle_setWriting_some (s := { s.put p (k', s.segs p) with last := last' }) hw hb
  have huse := not_untouched_writing hw
  -- a block in use, other than the one written, is two blocks away
  have hkeep : ∀ i, ¬ s.Untouched i → i ≠ w.block.index →
      (∀ v, HasWrapper abi (s.kernel.objects 0) i v → HasWrapper abi (k'.objects 0) i v) ∧
      ∀ m, HasInfo abi (s.kernel.objects 0) i m → HasInfo abi (k'.objects 0) i m := by
    intro i hi hne
    obtain ⟨h1, h2⟩ := h.far hi huse
    have hsize : wrapperSize = 1024 := rfl
    have hfield : fieldSize = 40 := rfl
    rw [hsize, hfield] at hn
    refine ⟨fun v hv => hv.writes hwr hne ?_, fun m hm => hm.writes hwr hne ?_⟩
    all_goals grind
  refine ⟨hg.kernel, fun q => ?_, hone, fun q v hv => ?_, fun q q' v v' hv hv' he => ?_,
    fun x hx => ?_, fun j m hm => ?_, fun j m hm hi => ?_, fun j hj => ?_⟩
  · show SegOk abi k' (update s.segs p (s.segs p) q)
    rw [hsegs]
    exact (h.segs q).evolve hg.evolves
  · show WritingOk abi (k'.objects 0) (update s.segs p (s.segs p) q) last' v
    rw [hsegs]
    rw [writing_setWriting] at hv
    split at hv
    · grind
    · rename_i hq
      have hne : v.block.index ≠ w.block.index := fun he => hq (h.alone q p v w hv hw he)
      obtain ⟨k1, k2⟩ := hkeep _ (not_untouched_writing hv) hne
      have hv := h.writing q v hv
      refine ⟨⟨hv.owned.shm, hv.owned.index_lt, ?_, ?_⟩, fun hp => k1 _ (hv.wrapper hp),
        fun hp => ?_⟩
      · rw [hwr.conf, hv.owned.block]
      · rw [hwr.offset, hv.owned.buf]
      · rw [hlast _ hne]
        exact ⟨k2 _ (hv.info hp).1, (hv.info hp).2⟩
  · rw [writing_setWriting] at hv hv'
    have hal : ∀ q v, (if q = p then some w' else s.writing q) = some v →
        ∃ u, s.writing q = some u ∧ u.block = v.block := by
      grind
    obtain ⟨u, hu, hub⟩ := hal q v hv
    obtain ⟨u', hu', hub'⟩ := hal q' v' hv'
    exact h.alone q q' u u' hu hu' (by rw [hub, hub', he])
  · show (update s.segs p (s.segs p) x.1).shm = _ ∧ _
    rw [hsegs]
    exact h.held x hx
  · exact Nat.lt_of_lt_of_le (h.writing_next hw) hg.evolves.next_le
  · replace hi : s.Idle j := (hidle j).1 hi
    have hne : j ≠ w.block.index := (hi p w hw).symm
    replace hm : last' j = some m := hm
    rw [hlast j hne] at hm
    obtain ⟨k1, k2⟩ := hkeep j (not_untouched_last hm) hne
    obtain ⟨h1, h2⟩ := h.last j m hm hi
    exact ⟨k1 _ h1, k2 _ h2⟩
  · have huntouched : ∀ i, ({ s.put p (k', s.segs p) with last := last' }.setWriting p
        (some w')).Untouched i ↔ s.Untouched i := by
      intro i
      by_cases hi : i = w.block.index
      · subst hi
        exact ⟨fun hu => absurd ((hidle _).1 hu.2) fun hid => hid p w hw rfl,
          fun hu => absurd hu huse⟩
      · show last' i = none ∧ _ ↔ _
        rw [hlast i hi, hidle]
        exact Iff.rfl
    rw [huntouched] at hj ⊢
    exact h.apart j hj

theorem Core.goOn (h : Core abi s) {w w' : Writing} (hw : s.writing p = some w)
    (hb : w'.block = w.block) (hok : WritingOk abi (s.kernel.objects 0) (s.segs p) s.last w') :
    Core abi (s.setWriting p (some w')) := by
  have hnone : Writes abi (s.kernel.objects 0) (s.kernel.objects 0) w.block.index 0 0 :=
    ⟨rfl, rfl, rfl, fun _ _ => rfl, fun _ _ => rfl, fun _ => rfl⟩
  have := h.write hw hb ⟨h.kernel, h.segs p, .refl _⟩ h.one (Nat.zero_le _) hnone
    (fun _ _ => rfl) hok
  have hput : { s.put p (s.kernel, s.segs p) with last := s.last } = s := by simp
  rwa [hput] at this

theorem Inv.transmit (h : Inv abi s) {msg : Message} {info : MessageInfo} (hp : s.writing p = none)
    (hok : s.StepOk backend (.transmit p e attempts msg info))
    {r : Option (WritableBlock × Vector UInt8 wrapperSize)}
    (hr : s.run p (beginArena abi backend e attempts msg) = some (r, t)) :
    Inv abi (t.setWriting p (r.map fun bw => ⟨bw.1, bw.2, msg, info, .copy⟩)) := by
  obtain ⟨k', seg', hc, rfl⟩ := run_eq_some hr
  obtain ⟨hopen, hnb⟩ := hok hp
  obtain ⟨ob, ⟨k1, seg1⟩, hacq, hrest⟩ := bind_eq_some hc
  have hg1 := keeps_acquireArenaBlockToWrite _ _ _ ⟨h.kernel, h.segs p, .refl _⟩ _ _ hacq
  obtain ⟨b, rfl, ha, hpick⟩ :=
    acquireArenaBlockToWrite_outcome h.kernel (h.segs p) h.one hopen hacq
  have hsame : (s.segs p).shm = some 0 → seg1 = s.segs p := fun hm =>
    acquireArenaBlockToWrite_seg (h.segs p) h.one (init_of_shm (h.segs p) hm) hm hacq
  -- the block was free, so no one was at it
  have hfree : s.Idle b.index ∧ s.readers b.index = 0 := by
    rcases Nat.eq_zero_or_pos s.kernel.next with h0 | h0
    · refine ⟨(h.untouched_of_next h0 _).2, List.countP_eq_zero.2 fun x hx => ?_⟩
      exact absurd (h.held_next hx) (by omega)
    · exact (h.locks b.index).of_free (ha.old h0).1
  have hcore := h.put hg1 ha.one hsame fun h0 => (ha.old h0).2
  have hother : ∀ j, j ≠ b.index → LockOk (s.put p (k1, seg1)) j := by
    intro j hj
    rcases Nat.eq_zero_or_pos s.kernel.next with h0 | h0
    · have hr0 : s.readers j = 0 := List.countP_eq_zero.2 fun x hx =>
        absurd (h.held_next hx) (by omega)
      refine .inr ⟨(h.untouched_of_next h0 j).2, ?_, ?_⟩
      · show s.readers j < _
        omega
      · show arenaLock (k1.objects 0) j = ofNat (s.readers j)
        rw [ha.fresh h0 j hj, hr0]
        rfl
    · refine (h.locks j).congr ?_ rfl id
      show arenaLock (k1.objects 0) j = _
      rw [(ha.old h0).2.lock, update_of_ne hj]
  cases hw : msg.wrapper with
  | some w =>
    simp only [hw] at hrest
    cases hrest
    have hseg : (s.put p (k', seg')).segs p = seg' := by simp
    have hown : Owned abi (k'.objects 0) seg' b := ⟨ha.shm, ha.index_lt, ha.block, ha.buf⟩
    have hbegin : Core abi ((s.put p (k', seg')).setWriting p (some ⟨b, w, msg, info, .copy⟩)) := by
      refine hcore.begin hp ⟨hseg.symm ▸ hown, fun hc => absurd rfl hc, ?_⟩ hfree.1 ?_ ?_
      · rintro (hc | hc) <;> cases hc
      · rcases Nat.eq_zero_or_pos s.kernel.next with h0 | h0
        · exact h.untouched_of_next h0 _
        · exact (hnb 0 b.index (h.one.linked h0) (hpick h0)).1
      · rcases Nat.eq_zero_or_pos s.kernel.next with h0 | h0
        · exact fun i _ => h.untouched_of_next h0 i
        · exact (hnb 0 b.index (h.one.linked h0) (hpick h0)).2
    refine ⟨hbegin, fun j => ?_⟩
    by_cases hj : j = b.index
    · subst hj
      exact .inl ⟨ha.lock, hfree.2⟩
    · refine (hother j hj).congr rfl rfl fun hi => ?_
      exact (idle_begin (s := s.put p (k', seg')) hp j).2 ⟨hi, Ne.symm hj⟩
  | none =>
    -- the wrapper could not be made: the block is released again
    simp only [hw] at hrest
    obtain ⟨u, ⟨k2, seg2⟩, hrel, hr⟩ := bind_eq_some hrest
    cases hr
    have hg2 := keeps_onArenaBlock _ _ _ ⟨hg1.kernel, hg1.seg, .refl k1⟩ _ _ hrel
    obtain ⟨rfl, hlinks, hrl⟩ := onArenaBlock_lock abi ha.shm
      (hg1.seg.mapped 0 ha.shm).conf ha.index_lt (fun _ => rfl) hrel
    have hput : (s.put p (k1, seg')).put p (k', seg') = s.put p (k', seg') := by simp
    have hnone : (s.put p (k', seg')).setWriting p none = s.put p (k', seg') := by
      have : update s.writing p none = s.writing := by rw [← hp, update_eq_self]
      simp only [setWriting, ArenaSys.put, this]
    have hcore' := hcore.put (p := p) hg2 (OneObject.relocks ha.one hlinks hrl)
      (fun _ => by simp) fun _ => hrl
    rw [hput] at hcore'
    rw [Option.map_none, hnone]
    refine ⟨hcore', fun j => ?_⟩
    have hlock : arenaLock (k'.objects 0) j = _ := hrl.lock j
    by_cases hj : j = b.index
    · subst hj
      have hzero : (-1 : Int32) + 1 = 0 := by decide
      rw [update_self] at hlock
      refine .inr ⟨hfree.1, ?_, ?_⟩
      · show s.readers b.index < _
        rw [hfree.2]
        decide
      · show arenaLock (k'.objects 0) b.index = ofNat (s.readers b.index)
        rw [hlock, hfree.2]
        show arenaLock (k1.objects 0) b.index + 1 = _
        rw [ha.lock, hzero]
        rfl
    · rw [update_of_ne hj] at hlock
      exact (hother j hj).congr hlock rfl id

theorem Core.good (h : Core abi s) (hl : SameLinks s.kernel k')
    (hz : (k'.objects 0).size = (s.kernel.objects 0).size)
    (hc : (k'.objects 0).state.ceilingMsgSize = (s.kernel.objects 0).state.ceilingMsgSize) :
    Good abi s.kernel (k', s.segs p) := by
  have hev : Evolves s.kernel k' := by
    refine ⟨by rw [hl.1], fun id hid => ?_⟩
    obtain rfl := h.one.eq_zero hid
    rw [Kernel.conf, hc, Kernel.conf]
  refine ⟨⟨fun id hid => ?_, fun id hid => ?_, fun id hid => ?_⟩, (h.segs p).evolve hev, hev⟩
  · rw [hl.1] at hid
    obtain rfl := h.one.eq_zero hid
    rw [hc]
    exact h.kernel.sized 0 hid
  · rw [hl.1] at hid
    rw [hev.conf id hid]
    obtain rfl := h.one.eq_zero hid
    rw [hz]
    exact h.kernel.size 0 hid
  · rw [hl.2] at hid
    rw [hl.1]
    exact h.kernel.linked_lt id hid

section
variable (h : Inv abi s) (hw : s.writing p = some w)
include h hw

theorem Inv.write {w' : Writing}
    (hok : WritingOk abi (k'.objects 0) (s.segs p) last' w') (hb : w'.block = w.block)
    (hl : SameLinks s.kernel k') {lo n : Nat} (hn : lo + n ≤ wrapperSize + fieldSize)
    (hwr : Writes abi (s.kernel.objects 0) (k'.objects 0) w.block.index lo n)
    (hlast : ∀ i, i ≠ w.block.index → last' i = s.last i) :
    Inv abi ({ s.put p (k', s.segs p) with last := last' }.setWriting p (some w')) := by
  refine ⟨h.toCore.write hw hb (h.good hl hwr.size hwr.ceiling) (OneObject.writes h.one hl hwr) hn
    hwr hlast hok, fun j => (h.locks j).congr (hwr.lock j) rfl fun hi => ?_⟩
  exact (idle_setWriting_some (s := { s.put p (k', s.segs p) with last := last' }) hw hb j).2 hi

theorem Inv.copy {u : Unit} (hr : s.run p (copyWrapper w.block w.wrapper) = some (u, t)) :
    Inv abi (t.setWriting p (some { w with phase := .info })) := by
  obtain ⟨k', seg', hc, rfl⟩ := run_eq_some hr
  have hok := h.writing p w hw
  obtain ⟨rfl, hlinks, hwr, hwrap⟩ := copyWrapper_outcome hok.owned hc
  have hnew : WritingOk abi (k'.objects 0) (s.segs p) s.last { w with phase := .info } := by
    refine ⟨hok.owned.writes hwr, fun _ => hwrap, ?_⟩
    rintro (hp | hp) <;> cases hp
  exact h.write hw hnew rfl hlinks (by decide) hwr fun _ _ => rfl

theorem Inv.info (hphase : w.phase = .info) {r : Bool}
    (hr : s.run p (infoArena w.block w.info) = some (r, t)) :
    r = true ∧ Inv abi ((t.setLast w.block.index (w.wrapper, w.info)).setWriting p
      (some { w with phase := .serialize })) := by
  obtain ⟨k', seg', hc, rfl⟩ := run_eq_some hr
  have hok := h.writing p w hw
  obtain ⟨rfl, rfl, hlinks, hwr, hinfo, hkeep⟩ := infoArena_outcome hok.owned hc
  have hnew : WritingOk abi (k'.objects 0) (s.segs p)
      (update s.last w.block.index (some (w.wrapper, w.info)))
      { w with phase := .serialize } := by
    refine ⟨hok.owned.writes hwr, fun _ => hkeep _ (hok.wrapper ?_), fun _ => ⟨hinfo, ?_⟩⟩
    all_goals grind
  exact ⟨rfl, h.write hw hnew rfl hlinks (Nat.le_refl _) hwr fun i hi => update_of_ne hi ..⟩

/-- **The serialized message is sent**: the arena block keeps its message, and stays locked if that
fails. -/
theorem Inv.serialize (hphase : w.phase = .serialize)
    (hsize : w.msg.byteSize ≤ (s.segs p).conf.ceilingMsgSize) {r : Option Nat}
    (hr : s.run p (sendSerialized abi backend e attempts w.msg w.info) = some (r, t)) :
    Inv abi (t.setWriting p (if r.isSome then some { w with phase := .release } else none)) := by
  obtain ⟨k', seg', hc, rfl⟩ := run_eq_some hr
  have hok := h.writing p w hw
  have hf := sendSerialized_keeps (h.on hok.owned.shm) e attempts w.info hsize _ Frame.refl _ _ hc
  obtain rfl : seg' = s.segs p := hf.seg
  have hcore := h.put (p := p) (h.good hf.links hf.relocks.size hf.relocks.ceiling)
    (h.one.relocks hf.links hf.relocks) (fun _ => rfl) fun _ => hf.relocks
  have hlocks := hf.relocks.lock
  have hphase' : w.phase = .serialize ∨ w.phase = .release := .inl hphase
  cases r with
  | none =>
    refine ⟨hcore.finish hw hphase', fun j => (h.locks j).congr (hlocks j) rfl fun hi => ?_⟩
    exact (idle_finish hcore hw j).2 (.inl hi)
  | some i =>
    have hok' := hcore.writing p w hw
    have hnew : WritingOk abi (k'.objects 0) ((s.put p (k', s.segs p)).segs p) s.last
        { w with phase := .release } :=
      ⟨hok'.owned, fun _ => hok'.wrapper (by rw [hphase]; decide), fun _ => hok'.info hphase'⟩
    refine ⟨hcore.goOn hw rfl hnew, fun j => (h.locks j).congr (hlocks j) rfl fun hi => ?_⟩
    exact (idle_setWriting_some (w := w) (s := s.put p (k', s.segs p)) hw
      (show { w with phase := .release }.block = w.block from rfl) j).2 hi

theorem Inv.skip (hphase : w.phase = .serialize) :
    Inv abi (s.setWriting p (some { w with phase := .release })) := by
  have hok := h.writing p w hw
  have hnew : WritingOk abi (s.kernel.objects 0) (s.segs p) s.last { w with phase := .release } :=
    ⟨hok.owned, fun _ => hok.wrapper (by rw [hphase]; decide), fun _ => hok.info (.inl hphase)⟩
  refine ⟨h.goOn hw rfl hnew, fun j => (h.locks j).congr rfl rfl fun hi => ?_⟩
  exact (idle_setWriting_some hw (show { w with phase := .release }.block = w.block from rfl) j).2 hi

theorem Inv.releaseWritten (hphase : w.phase = .release) {r : Bool}
    (hr : s.run p (releaseArenaWrittenBlock w.block) = some (r, t)) :
    Inv abi (t.setWriting p none) := by
  obtain ⟨k', seg', hc, rfl⟩ := run_eq_some hr
  have hown := (h.writing p w hw).owned
  obtain ⟨rfl, hlinks, hrel⟩ := onArenaBlock_lock abi hown.shm (h.on hown.shm).conf
    hown.index_lt (fun _ => rfl) hc
  have hcore := h.put (p := p) (h.good hlinks hrel.size hrel.ceiling) (h.one.relocks hlinks hrel)
    (fun _ => rfl) fun _ => hrel
  obtain ⟨hlock, hreaders⟩ := h.lock_writing hw
  refine ⟨hcore.finish hw (.inr hphase), fun j => ?_⟩
  have hj : arenaLock (k'.objects 0) j = _ := hrel.lock j
  by_cases he : j = w.block.index
  · subst he
    have hzero : (-1 : Int32) + 1 = ofNat 0 := by decide
    rw [update_self] at hj
    refine .inr ⟨(idle_finish hcore hw _).2 (.inr rfl), ?_, ?_⟩
    · show s.readers w.block.index < _
      rw [hreaders]
      decide
    · show arenaLock (k'.objects 0) w.block.index = ofNat (s.readers w.block.index)
      rw [hj, hreaders, ← hzero, ← hlock]
      rfl
  · rw [update_of_ne he] at hj
    exact (h.locks j).congr hj rfl fun hi => (idle_finish hcore hw j).2 (.inl hi)

end

theorem inv_init : Inv abi init where
  kernel := .empty
  segs _ := .new _
  one := ⟨Nat.zero_le _, fun h => absurd h (Nat.lt_irrefl 0), rfl⟩
  writing _ _ h := by cases h
  alone _ _ _ _ h := by cases h
  held _ h := by cases h
  last_next _ _ h := by cases h
  last _ _ h := by cases h
  apart _ _ := ⟨rfl, fun _ _ h => by cases h⟩
  locks _ := .inr ⟨fun _ _ h => (by cases h), Nat.two_pow_pos 31, rfl⟩

theorem step_inv (h : Inv abi s) {op : TransmitOp} (hok : s.StepOk backend op)
    (hstep : s.step abi backend op = some t) : Inv abi t := by
  cases op with
  | transmit p e attempts msg info =>
    cases hp : s.writing p with
    | some w =>
      simp only [step, hp, Option.some.injEq] at hstep
      exact hstep ▸ h
    | none =>
      simp only [step, hp] at hstep
      obtain ⟨⟨r, u⟩, hrun, rfl⟩ := Option.map_eq_some_iff.1 hstep
      exact h.transmit hp hok hrun
  | next p receivers e attempts =>
    cases hp : s.writing p with
    | none =>
      simp only [step, hp, Option.some.injEq] at hstep
      exact hstep ▸ h
    | some w =>
      simp only [step, hp, advance] at hstep
      cases hphase : w.phase with
      | copy =>
        simp only [hphase] at hstep
        obtain ⟨⟨r, u⟩, hrun, rfl⟩ := Option.map_eq_some_iff.1 hstep
        exact h.copy hp hrun
      | info =>
        simp only [hphase] at hstep
        obtain ⟨⟨r, u⟩, hrun, rfl⟩ := Option.map_eq_some_iff.1 hstep
        obtain ⟨rfl, hinv⟩ := h.info hp hphase hrun
        exact hinv
      | serialize =>
        simp only [hphase] at hstep
        cases receivers with
        | true =>
          obtain ⟨⟨r, u⟩, hrun, rfl⟩ := Option.map_eq_some_iff.1 hstep
          exact h.serialize hp hphase (hok w hp hphase rfl) hrun
        | false =>
          simp only [Bool.false_eq_true, if_false, Option.some.injEq] at hstep
          exact hstep ▸ h.skip hp hphase
      | release =>
        simp only [hphase] at hstep
        obtain ⟨⟨r, u⟩, hrun, rfl⟩ := Option.map_eq_some_iff.1 hstep
        exact h.releaseWritten hp hphase hrun
  | acquire q e spurious i =>
    obtain ⟨⟨r, u⟩, hrun, rfl⟩ := Option.map_eq_some_iff.1 hstep
    exact h.acquireRead hok hrun
  | release q b =>
    simp only [step] at hstep
    split at hstep
    · rename_i hmem
      obtain ⟨⟨r, u⟩, hrun, rfl⟩ := Option.map_eq_some_iff.1 hstep
      exact h.releaseRead hmem hrun
    · cases hstep
      exact h

end

end ArenaSys

end Transport
