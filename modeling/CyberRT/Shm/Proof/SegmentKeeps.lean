import CyberRT.Shm.SegmentSystem

/-!
# What every call of `Segment` keeps

* `KernelOk`: the objects have the ceilings of their size classes and the size that goes with it,
and the linked object exists.
-/

namespace Shm

open Function Lib Segment ShmConf

variable {abi : Abi} {backend : Backend}

variable {seg : Segment} {base : MapAddr} {fuel : Nat} {α : Type} {c : Call α} {r : Bool}

theorem MapAddr.mmapOk (a : MapAddr) (n : Nat) :
    MmapOk a.val (update n).managedShmSize := by
  have h1 := a.lt
  have h2 := managedShmSize_lt n
  exact ⟨a.pos, by omega⟩

structure KernelOk (k : Kernel) : Prop where
  sized : ∀ id < k.next, ∃ n, (k.objects id).state.ceilingMsgSize = (update n).ceilingMsgSize
  size : ∀ id < k.next, (k.objects id).size = (k.conf id).managedShmSize
  linked_lt : ∀ id, k.linked = some id → id < k.next

structure Mapped (abi : Abi) (k : Kernel) (seg : Segment) (id : Nat) : Prop where
  lt : id < k.next
  conf : seg.conf = k.conf id
  bufs : ∀ i < seg.conf.blockNum, seg.blockBufAddrs i = some (seg.base + blockBufOffset abi seg.conf i)
  arenaBufs : ∀ ai < arenaBlockNum,
    seg.arenaBlockBufAddrs ai = some (seg.base + arenaBlockBufOffset abi seg.conf ai)

structure SegOk (abi : Abi) (k : Kernel) (seg : Segment) : Prop where
  sized : ∃ n, seg.conf = .update n
  closed : seg.init = false → seg.shm = none
  mapped : ∀ id, seg.shm = some id → Mapped abi k seg id

structure Evolves (k k' : Kernel) : Prop where
  next_le : k.next ≤ k'.next
  conf : ∀ id < k.next, k'.conf id = k.conf id

structure Good (abi : Abi) (k₀ : Kernel) (s : Kernel × Segment) : Prop where
  kernel : KernelOk s.1
  seg : SegOk abi s.1 s.2
  evolves : Evolves k₀ s.1

theorem Evolves.refl (k : Kernel) : Evolves k k := ⟨Nat.le_refl _, fun _ _ => rfl⟩

theorem Evolves.trans {k k' k'' : Kernel} (h : Evolves k k') (h' : Evolves k' k'') :
    Evolves k k'' where
  next_le := Nat.le_trans h.next_le h'.next_le
  conf id hid := (h'.conf id (Nat.lt_of_lt_of_le hid h.next_le)).trans (h.conf id hid)

theorem Mapped.evolve {k k' : Kernel} {id : Nat} (h : Mapped abi k seg id)
    (he : Evolves k k') : Mapped abi k' seg id :=
  { h with
    lt := Nat.lt_of_lt_of_le h.lt he.next_le
    conf := h.conf.trans (he.conf id h.lt).symm }

theorem SegOk.evolve {k k' : Kernel} (h : SegOk abi k seg) (he : Evolves k k') : SegOk abi k' seg :=
  { h with mapped := fun id hid => (h.mapped id hid).evolve he }

theorem SegOk.of_unmapped {k : Kernel} (hc : ∃ n, seg.conf = .update n)
    (hm : seg.shm = none) : SegOk abi k seg where
  sized := hc
  closed _ := hm
  mapped id hid := by
    rw [hm] at hid
    cases hid

theorem SegOk.new (k : Kernel) : SegOk abi k .new := .of_unmapped ⟨_, rfl⟩ rfl

theorem KernelOk.empty : KernelOk .empty :=
  ⟨fun id h => absurd h (Nat.not_lt_zero id), fun id h => absurd h (Nat.not_lt_zero id),
    fun _ h => by cases h⟩

theorem KernelOk.exists_conf {k : Kernel} (h : KernelOk k) {id : Nat} (hid : id < k.next) :
    ∃ n, (k.objects id).state.ceilingMsgSize = (update n).ceilingMsgSize ∧
      k.conf id = .update n := by
  obtain ⟨n, hn⟩ := h.sized id hid
  exact ⟨n, hn, by rw [Kernel.conf, hn, update_ceiling]⟩

def SameCeiling (k : Kernel) (id : Nat) (f : ShmObject → ShmObject) : Prop :=
  (f (k.objects id)).state.ceilingMsgSize = (k.objects id).state.ceilingMsgSize ∧
    (f (k.objects id)).size = (k.objects id).size

section
variable {k : Kernel} {id : Nat} {f : ShmObject → ShmObject}

theorem objects_modify_self : (k.modify id f).objects id = f (k.objects id) :=
  update_self ..

theorem objects_modify_of_ne {id' : Nat} (h : id' ≠ id) :
    (k.modify id f).objects id' = k.objects id' :=
  update_of_ne h ..

section
variable (hf : SameCeiling k id f)
include hf

theorem ceiling_modify (id' : Nat) :
    ((k.modify id f).objects id').state.ceilingMsgSize = (k.objects id').state.ceilingMsgSize := by
  by_cases h : id' = id
  · subst h
    rw [objects_modify_self]
    exact hf.1
  · rw [objects_modify_of_ne h]

theorem size_modify (id' : Nat) : ((k.modify id f).objects id').size = (k.objects id').size := by
  by_cases h : id' = id
  · subst h
    rw [objects_modify_self]
    exact hf.2
  · rw [objects_modify_of_ne h]

theorem conf_modify (id' : Nat) : (k.modify id f).conf id' = k.conf id' := by
  rw [Kernel.conf, ceiling_modify hf, Kernel.conf]

end

theorem KernelOk.modify (h : KernelOk k) (hf : SameCeiling k id f) : KernelOk (k.modify id f) where
  sized id' hid := by
    rw [ceiling_modify hf]
    exact h.sized id' hid
  size id' hid := by
    rw [size_modify hf, conf_modify hf]
    exact h.size id' hid
  linked_lt := h.linked_lt

theorem Evolves.modify (hf : SameCeiling k id f) : Evolves k (k.modify id f) :=
  ⟨Nat.le_refl _, fun id' _ => conf_modify hf id'⟩

theorem Good.modify {k₀ : Kernel} (h : Good abi k₀ (k, seg))
    (hf : SameCeiling k id f) : Good abi k₀ (k.modify id f, seg) where
  kernel := h.kernel.modify hf
  seg := h.seg.evolve (.modify hf)
  evolves := h.evolves.trans (.modify hf)

end

theorem sameCeiling_increaseReferenceCounts (k : Kernel) (id : Nat) :
    SameCeiling k id ShmObject.increaseReferenceCounts := ⟨rfl, rfl⟩

theorem Good.unlink {k₀ : Kernel} {s : Kernel × Segment} (h : Good abi k₀ s) :
    Good abi k₀ ({ s.1 with linked := none }, s.2) where
  kernel := ⟨h.kernel.sized, h.kernel.size, fun _ hl => by cases hl⟩
  seg := h.seg.evolve ⟨Nat.le_refl _, fun _ _ => rfl⟩
  evolves := h.evolves.trans ⟨Nat.le_refl _, fun _ _ => rfl⟩

theorem Good.of_unmapped {k₀ : Kernel} {s : Kernel × Segment} (h : Good abi k₀ s)
    (hc : ∃ n, seg.conf = .update n) (hm : seg.shm = none) : Good abi k₀ (s.1, seg) :=
  { h with seg := .of_unmapped hc hm }

theorem mapped_opened {k : Kernel} {id n base : Nat} (hid : id < k.next)
    (hc : k.conf id = .update n) : Mapped abi k (opened abi (.update n) id base seg) id where
  lt := hid
  conf := hc.symm
  bufs _ hi := if_pos hi
  arenaBufs _ hai := if_pos hai

theorem SegOk.opened {k : Kernel} {id n base : Nat} (hid : id < k.next)
    (hc : k.conf id = .update n) : SegOk abi k (opened abi (.update n) id base seg) where
  sized := ⟨n, rfl⟩
  closed h := by cases h
  mapped id' h := by
    cases h
    exact mapped_opened hid hc

structure OpenFailed (k k' : Kernel) (seg seg' : Segment) : Prop where
  kernel : k' = k ∨ k' = { k with linked := none }
  seg : seg' = seg ∨ ∃ n, seg' = { seg.reset with conf := .update n }

theorem openOnly_of_unlinked {s : Kernel × Segment}
    (hi : s.2.init = false) (hl : s.1.linked = none) :
    openOnly abi backend fuel base s = some (false, s) := by
  cases backend <;> simp [openOnly, xsiOpenOnly, posixOpenOnly, hi, hl]

/-- **The outcomes of `OpenOnly`** on a segment that is not open: the linked object is mapped, which
only `XsiSegment` can do, or the call fails. -/
theorem openOnly_cases {k k' : Kernel} {seg seg' : Segment}
    (hk : KernelOk k) (hi : seg.init = false)
    (h : openOnly abi backend fuel base (k, seg) = some (r, k', seg')) :
    (r = true ∧ backend = .xsi ∧ ∃ id, k.linked = some id ∧
      k' = k.modify id ShmObject.increaseReferenceCounts ∧
      seg' = opened abi (k.conf id) id base.val seg) ∨ (r = false ∧ OpenFailed k k' seg seg') := by
  cases hl : k.linked with
  | none =>
    rw [openOnly_of_unlinked hi hl] at h
    cases h
    exact .inr ⟨rfl, .inl rfl, .inl rfl⟩
  | some id =>
    obtain ⟨n, hn, hconf⟩ := hk.exists_conf (hk.linked_lt id hl)
    cases backend with
    | xsi =>
      left
      simp only [openOnly, xsiOpenOnly_eq abi hi hl hn (base.mmapOk n), Option.some.injEq,
        Prod.mk.injEq] at h
      exact ⟨h.1.symm, rfl, id, rfl, h.2.1.symm, by rw [hconf, h.2.2]⟩
    | posix =>
      right
      have hr := posixOpenOnly_ne_true abi hi hl hn (base.mmapOk n) h
      simp only [openOnly, posixOpenOnly, hi, hl, hn, update_ceiling, Bool.false_eq_true,
        if_false] at h
      split at h
      · cases h
      · simp only [finishOpen, Option.some.injEq] at h
        split at h
        · cases h
          exact ⟨hr, .inr rfl, .inr ⟨n, rfl⟩⟩
        · cases h
          cases hr

theorem Good.openFailed {k₀ k k' : Kernel} {seg seg' : Segment} (h : Good abi k₀ (k, seg))
    (hf : OpenFailed k k' seg seg') : Good abi k₀ (k', seg') := by
  have hseg : Good abi k₀ (k, seg') := by
    rcases hf.seg with rfl | ⟨n, rfl⟩
    · exact h
    · exact h.of_unmapped ⟨n, rfl⟩ rfl
  rcases hf.kernel with rfl | rfl
  · exact hseg
  · exact hseg.unlink

theorem openOnly_of_init {s : Kernel × Segment}
    (h : s.2.init = true) : openOnly abi backend fuel base s = some (true, s) := by
  cases backend <;> simp [openOnly, xsiOpenOnly, posixOpenOnly, h]

section
variable {k₀ : Kernel}

theorem keeps_openOnly (fuel : Nat) (base : MapAddr) :
    Keeps (Good abi k₀) (openOnly abi backend fuel base) := by
  rintro ⟨k, seg⟩ hs r ⟨k', seg'⟩ h
  cases hi : seg.init with
  | true =>
    rw [openOnly_of_init hi] at h
    cases h
    exact hs
  | false =>
    rcases openOnly_cases hs.kernel hi h with ⟨-, -, id, hl, rfl, rfl⟩ | ⟨-, hf⟩
    · have hid := hs.kernel.linked_lt id hl
      obtain ⟨n, -, hconf⟩ := hs.kernel.exists_conf hid
      have hf := sameCeiling_increaseReferenceCounts k id
      rw [hconf]
      exact { hs.modify hf with seg := .opened hid ((conf_modify hf id).trans hconf) }
    · exact hs.openFailed hf

theorem Good.create {k : Kernel} (hs : Good abi k₀ (k, seg)) (nullCheck : Bool)
    (base : MapAddr) : Good abi k₀ (create abi nullCheck k seg base.val).2 := by
  obtain ⟨n, hn⟩ := hs.seg.sized
  rw [create_eq abi nullCheck k seg hn (base.mmapOk n)]
  generalize hk' : (⟨update k.objects k.next (.create (.update n)), some k.next,
    k.next + 1⟩ : Kernel) = k'
  have hself : k'.objects k.next = .create (.update n) := by
    rw [← hk']
    exact update_self ..
  have hother : ∀ id < k.next, k'.objects id = k.objects id := by
    intro id hid
    rw [← hk']
    exact update_of_ne (Nat.ne_of_lt hid) ..
  have hnext : k'.next = k.next + 1 := by rw [← hk']
  have hnew : Evolves k k' := by
    refine ⟨by omega, fun id hid => ?_⟩
    rw [Kernel.conf, hother id hid, Kernel.conf]
  have hkernel : KernelOk k' := by
    refine ⟨fun id hid => ?_, fun id hid => ?_, fun id hid => ?_⟩
    · rcases Nat.lt_succ_iff_lt_or_eq.1 (hnext ▸ hid) with hlt | rfl
      · rw [hother id hlt]
        exact hs.kernel.sized id hlt
      · exact ⟨n, by rw [hself]; rfl⟩
    · rcases Nat.lt_succ_iff_lt_or_eq.1 (hnext ▸ hid) with hlt | rfl
      · rw [hnew.conf id hlt, hother id hlt]
        exact hs.kernel.size id hlt
      · rw [Kernel.conf, hself]
        exact congrArg managedShmSize (update_ceiling n).symm
    · grind
  have hf := sameCeiling_increaseReferenceCounts k' k.next
  refine ⟨hkernel.modify hf, .opened ?_ ?_, hs.evolves.trans (hnew.trans (.modify hf))⟩
  · show k.next < k'.next
    omega
  · rw [conf_modify hf, Kernel.conf, hself]
    exact update_ceiling n

theorem openOrCreate_cases {s t : Kernel × Segment}
    (h : openOrCreate abi backend fuel base s = some (r, t)) :
    openOnly abi backend fuel base s = some (r, t) ∨ (s.2.init = false ∧ s.1.linked = none ∧
      ∃ nullCheck, create abi nullCheck s.1 s.2 base.val = (r, t)) := by
  cases backend <;>
    simp only [openOrCreate, xsiOpenOrCreate, posixOpenOrCreate] at h <;>
    cases hi : s.2.init <;> cases hl : s.1.linked <;>
    simp_all [openOnly, xsiOpenOnly, posixOpenOnly]

theorem keeps_openOrCreate (fuel : Nat) (base : MapAddr) :
    Keeps (Good abi k₀) (openOrCreate abi backend fuel base) := by
  rintro ⟨k, seg⟩ hs r t h
  rcases openOrCreate_cases h with ho | ⟨-, -, nullCheck, hc⟩
  · exact keeps_openOnly fuel base _ hs _ _ ho
  · have := hs.create nullCheck base
    rwa [hc] at this

theorem keeps_self : Keeps (Good abi k₀) self := by
  intro s hs a t h
  cases h
  exact hs

theorem keeps_onState {f : State → α × State}
    (hf : ∀ st, (f st).2.ceilingMsgSize = st.ceilingMsgSize) : Keeps (Good abi k₀) (onState f) := by
  rintro ⟨k, seg⟩ hs a t h
  obtain ⟨id, -, hr⟩ := Option.map_eq_some_iff.1 h
  cases hr
  exact hs.modify ⟨hf (k.objects id).state, rfl⟩

theorem keeps_needRemap : Keeps (Good abi k₀) needRemap := by
  intro s hs a t h
  obtain ⟨id, -, hr⟩ := Option.map_eq_some_iff.1 h
  cases hr
  exact hs

theorem keeps_tryBlock (i : Nat) (f : Block → Option Block) :
    Keeps (Good abi k₀) (tryBlock i f) := by
  rintro ⟨k, seg⟩ hs a t h
  obtain ⟨id, -, hr⟩ := Option.map_eq_some_iff.1 h
  split at hr
  · cases hr
    exact hs
  · cases hr
    exact hs.modify ⟨rfl, rfl⟩

theorem keeps_ready {openIt : Call Bool} (h : Keeps (Good abi k₀) openIt) :
    Keeps (Good abi k₀) (ready openIt) :=
  .bind keeps_self fun _ => .ite (.pure _) h

section
variable (e : Env)
include e

theorem remap_apply (s : Kernel × Segment) :
    remap abi backend e s =
      openOnly abi backend e.fuel e.remapAt (s.1, { s.2 with init := false }.reset) := rfl

theorem recreate_apply (n : Nat) (s : Kernel × Segment) :
    recreate abi backend e n s = s.2.shm.bind fun id =>
      openOrCreate abi backend e.fuel e.recreateAt
        ({ s.1.setState id { (s.1.objects id).state with needRemap := true } with linked := none },
          { { s.2 with init := false }.reset with conf := .update n }) := by
  rcases s with ⟨k, init, conf, shm, base, bufs, arenaBufs⟩
  cases shm <;> rfl

theorem keeps_remap : Keeps (Good abi k₀) (remap abi backend e) := by
  intro s hs a t h
  refine keeps_openOnly _ _ _ ?_ a t h
  exact hs.of_unmapped hs.seg.sized rfl

theorem keeps_recreate (n : Nat) : Keeps (Good abi k₀) (recreate abi backend e n) := by
  intro s hs a t h
  rw [recreate_apply] at h
  obtain ⟨id, -, ho⟩ := Option.bind_eq_some_iff.1 h
  refine keeps_openOrCreate _ _ _ ?_ a t ho
  have hstate : Good abi k₀
      (s.1.setState id { (s.1.objects id).state with needRemap := true }, s.2) :=
    hs.modify ⟨rfl, rfl⟩
  exact hstate.unlink.of_unmapped ⟨n, rfl⟩ rfl

theorem keeps_remapIfNeeded : Keeps (Good abi k₀) (remapIfNeeded abi backend e) :=
  .bind keeps_needRemap fun _ => .ite (keeps_remap e) (.pure _)

theorem keeps_recreateIfLarger (n : Nat) (r : Bool) :
    Keeps (Good abi k₀) (recreateIfLarger abi backend e n r) :=
  .bind keeps_self fun _ => .ite (keeps_recreate e n) (.pure _)

theorem keeps_initOnly (n : Nat) : Keeps (Good abi k₀) (initOnly abi backend e n) := by
  intro s hs a t h
  cases hi : s.2.init with
  | true =>
    have : initOnly abi backend e n s = some (true, s) := by
      simp [initOnly, bind_apply, self, hi, if_apply, pure_apply]
    rw [this] at h
    cases h
    exact hs
  | false =>
    have : initOnly abi backend e n s =
        openOrCreate abi backend e.fuel e.openAt (s.1, { s.2 with conf := .update n }) := by
      simp [initOnly, bind_apply, self, hi, if_apply, onSelf]
    rw [this] at h
    refine keeps_openOrCreate _ _ _ ?_ a t h
    exact hs.of_unmapped ⟨n, rfl⟩ (hs.seg.closed hi)

end

theorem keeps_nextIndex {fetchAdd : State → UInt32 × State}
    (hf : ∀ st, (fetchAdd st).2.ceilingMsgSize = st.ceilingMsgSize) (first blockNum : Nat) :
    ∀ attempts, Keeps (Good abi k₀) (nextIndex fetchAdd first blockNum attempts)
  | [] => fun _ _ _ _ h => by cases h
  | _ :: rest => by
    refine .bind (keeps_onState hf) fun _ => .bind (keeps_tryBlock _ _) fun _ => ?_
    exact .ite (.pure _) (keeps_nextIndex hf first blockNum rest)

theorem keeps_acquireBlockToWrite (e : Env) (attempts : List Bool) (n : Nat) :
    Keeps (Good abi k₀) (acquireBlockToWrite abi backend e attempts n) := by
  refine .bind (keeps_ready (keeps_openOrCreate _ _)) fun _ => .ite ?_ (.pure _)
  refine .bind (keeps_remapIfNeeded e) fun r => .bind (keeps_recreateIfLarger e n r) fun _ => ?_
  refine .ite ?_ (.pure _)
  refine .bind keeps_self fun _ => .bind (keeps_nextIndex (fun _ => rfl) _ _ _) fun _ => ?_
  exact .bind keeps_self fun _ => .pure _

theorem keeps_acquireArenaBlockToWrite (e : Env) (attempts : List Bool) :
    Keeps (Good abi k₀) (acquireArenaBlockToWrite abi backend e attempts) := by
  refine .bind (keeps_ready (keeps_openOrCreate _ _)) fun _ => .ite ?_ (.pure _)
  refine .bind (keeps_remapIfNeeded e) fun _ => .bind keeps_self fun _ => ?_
  refine .bind (keeps_nextIndex (fun _ => rfl) _ _ _) fun _ => ?_
  exact .bind keeps_self fun _ => .pure _

theorem keeps_onBlock (i : Nat) (f : Block → Option Block) : Keeps (Good abi k₀) (onBlock i f) :=
  .bind keeps_self fun _ => .ite (keeps_tryBlock _ _) (.pure _)

theorem keeps_onArenaBlock (i : Nat) (f : Block → Option Block) :
    Keeps (Good abi k₀) (onArenaBlock i f) :=
  .ite (.bind keeps_self fun _ => keeps_tryBlock _ _) (.pure _)

theorem keeps_acquireBlockToRead (e : Env) (spurious i : Nat) :
    Keeps (Good abi k₀) (acquireBlockToRead abi backend e spurious i) := by
  refine .bind (keeps_ready (keeps_openOnly _ _)) fun _ => .ite ?_ (.pure _)
  refine .bind keeps_self fun _ => .ite ?_ (.pure _)
  refine .bind (keeps_remapIfNeeded e) fun _ => .ite ?_ (.pure _)
  refine .bind (keeps_tryBlock _ _) fun _ => .ite ?_ (.pure _)
  exact .bind keeps_self fun _ => .pure _

theorem keeps_acquireArenaBlockToRead (e : Env) (spurious i : Nat) :
    Keeps (Good abi k₀) (acquireArenaBlockToRead abi backend e spurious i) := by
  refine .bind (keeps_ready (keeps_openOnly _ _)) fun _ => .ite (.ite ?_ (.pure _)) (.pure _)
  refine .bind (keeps_remapIfNeeded e) fun _ => .ite ?_ (.pure _)
  refine .bind keeps_self fun _ => .bind (keeps_tryBlock _ _) fun _ => .ite ?_ (.pure _)
  exact .bind keeps_self fun _ => .pure _

theorem keeps_byIndex (c : ByIndex) : Keeps (Good abi k₀) c.call := by
  cases c <;> first | exact keeps_onBlock _ _ | exact keeps_onArenaBlock _ _

theorem destroy_kernel {s t : Kernel × Segment} (hs : Good abi k₀ s)
    (h : destroy s = some (r, t)) : KernelOk t.1 ∧ Evolves k₀ t.1 := by
  cases hi : s.2.init with
  | false =>
    have : destroy s = some (true, s) := by
      simp [destroy, bind_apply, self, hi, if_apply, pure_apply]
    rw [this] at h
    cases h
    exact ⟨hs.kernel, hs.evolves⟩
  | true =>
    simp only [destroy, bind_apply, self, hi, if_apply, if_true, onSelf, Option.bind_some] at h
    obtain ⟨⟨count, u⟩, hu, ht⟩ := Option.bind_eq_some_iff.1 h
    obtain ⟨id, -, hr⟩ := Option.map_eq_some_iff.1 hu
    cases hr
    have hg : Good abi k₀ (s.1.modify id fun o => { o with state :=
        { (s.1.objects id).state with
          referenceCount := (s.1.objects id).state.referenceCount - 1 } }, s.2) :=
      hs.modify ⟨rfl, rfl⟩
    split at ht
    · cases ht
      exact ⟨hg.unlink.kernel, hg.unlink.evolves⟩
    · cases ht
      exact ⟨hg.kernel, hg.evolves⟩

end

structure Sys.Ok (abi : Abi) (s : Sys) : Prop where
  kernel : KernelOk s.kernel
  segs : ∀ p, SegOk abi s.kernel (s.segs p)

namespace Sys

theorem ok_init : Ok abi init where
  kernel := .empty
  segs _ := .new _

section
variable {s t : Sys} {p : Nat}

section
variable (h : Ok abi s)
include h

theorem Ok.update {k : Kernel} (hk : KernelOk k) (hs : SegOk abi k seg) (he : Evolves s.kernel k) :
    Ok abi { s with kernel := k, segs := update s.segs p seg } where
  kernel := hk
  segs q := by
    by_cases hq : q = p
    · subst hq
      simpa using hs
    · simpa [hq] using (h.segs q).evolve he

theorem Ok.good (p : Nat) : Good abi s.kernel (s.kernel, s.segs p) :=
  ⟨h.kernel, h.segs p, .refl _⟩

omit h in
theorem run_eq_some {a : α} (h : s.run p c = some (a, t)) :
    ∃ k seg, c (s.kernel, s.segs p) = some (a, k, seg) ∧
      t = { s with kernel := k, segs := update s.segs p seg } := by
  obtain ⟨⟨a', k, seg⟩, hc, hr⟩ := Option.map_eq_some_iff.1 h
  cases hr
  exact ⟨k, seg, hc, rfl⟩

theorem Ok.run {a : α} (hc : Keeps (Good abi s.kernel) c) (hr : s.run p c = some (a, t)) :
    Ok abi t ∧ Evolves s.kernel t.kernel := by
  obtain ⟨k, seg, hcall, rfl⟩ := run_eq_some hr
  have hg := hc _ (h.good p) _ _ hcall
  exact ⟨h.update hg.kernel hg.seg hg.evolves, hg.evolves⟩

theorem Ok.run_snd (hc : Keeps (Good abi s.kernel) c)
    (hr : (s.run p c).map Prod.snd = some t) : Ok abi t ∧ Evolves s.kernel t.kernel := by
  obtain ⟨⟨a, t'⟩, hrun, rfl⟩ := Option.map_eq_some_iff.1 hr
  exact h.run hc hrun

theorem Ok.step {op : SegmentOp} (hstep : s.step abi backend op = some t) :
    Ok abi t ∧ Evolves s.kernel t.kernel := by
  cases op with
  | initOnly p e n => exact h.run_snd (keeps_initOnly e n) hstep
  | acquireBlockToWrite p e l n => exact h.run_snd (keeps_acquireBlockToWrite e l n) hstep
  | releaseWrittenBlock p b => exact h.run_snd (keeps_onBlock _ _) hstep
  | acquireArenaBlockToWrite p e l => exact h.run_snd (keeps_acquireArenaBlockToWrite e l) hstep
  | releaseArenaWrittenBlock p b => exact h.run_snd (keeps_onArenaBlock _ _) hstep
  | acquireArenaBlockToRead p e n i => exact h.run_snd (keeps_acquireArenaBlockToRead e n i) hstep
  | releaseArenaReadBlock p b => exact h.run_snd (keeps_onArenaBlock _ _) hstep
  | byIndex p c => exact h.run_snd (keeps_byIndex c) hstep
  | releaseReadBlock p b =>
    obtain ⟨⟨a, u⟩, hrun, rfl⟩ := Option.map_eq_some_iff.1 hstep
    obtain ⟨hu, he⟩ := h.run (keeps_onBlock _ _) hrun
    exact ⟨⟨hu.kernel, hu.segs⟩, he⟩
  | acquireBlockToRead p e spurious i =>
    obtain ⟨⟨a, u⟩, hrun, rfl⟩ := Option.map_eq_some_iff.1 hstep
    obtain ⟨hu, he⟩ := h.run (keeps_acquireBlockToRead e spurious i) hrun
    exact ⟨⟨hu.kernel, hu.segs⟩, he⟩
  | destroy p =>
    obtain ⟨⟨a, u⟩, hrun, rfl⟩ := Option.map_eq_some_iff.1 hstep
    obtain ⟨k, seg, hcall, rfl⟩ := run_eq_some hrun
    obtain ⟨hk, he⟩ := destroy_kernel (h.good p) hcall
    have hnew := h.update (p := p) hk (.new k) he
    exact ⟨by simpa using hnew, he⟩

end

end

end Sys

end Shm
