import CyberRT.Shm.Proof.ArenaRefines

/-!
# `Allocate` and `Deallocate` over whole runs

`Allocate` is an insertion in the map and `Deallocate` a removal or nothing, by the count of the
node (`Refines.allocate`, `Refines.deallocate`).
-/

namespace Shm

open Function Lib List Option UInt64 Nat Counted

variable {key : UInt64} {ops : List ArenaOp} {i : Nat}

namespace ArenaAddressAllocator

variable {s s' : ArenaAddressAllocator} {m : KeyMap}

theorem Refines.setCount (h : Refines s m) (i : Nat) (f : UInt64 → UInt64) :
    Refines (s.modify i fun n => { n with refCount := f n.refCount }) m := by
  have hnode : ∀ j, ((s.modify i fun n => { n with refCount := f n.refCount }).nodes j) =
      { s.nodes j with
        refCount := if j = i then f (s.nodes i).refCount else (s.nodes j).refCount } := by
    intro j
    by_cases hj : j = i
    · subst hj
      simp [modify]
    · simp [modify, hj]
  have hlinks : (s.modify i fun n => { n with refCount := f n.refCount }).links = s.links := by
    simp only [links, hnode]
    rfl
  obtain ⟨t, hi, hm, hfree⟩ := h
  refine ⟨t, ⟨?_, ?_, hi.partition, fun j hj => ?_, hi.capacity⟩, fun key j => ?_, hfree⟩
  · rw [hlinks]
    exact hi.linked
  · simp only [Ordered, hnode]
    exact hi.ordered
  · rw [hnode]
    exact hi.index j hj
  · rw [hnode]
    exact hm key j

theorem modify_refCount (i j : Nat) (f : UInt64 → UInt64) :
    ((s.modify i fun n => { n with refCount := f n.refCount }).nodes j).refCount =
      if j = i then f (s.nodes j).refCount else (s.nodes j).refCount := by
  by_cases hj : j = i
  · subst hj
    simp [modify]
  · simp [modify, hj]

section
variable (h : Refines s m)
include h

theorem Refines.allocate (hroom : s.HasRoom key) :
    ∃ i s', s.allocate key = some (s'.address i, s') ∧ Refines s' (m.insert key) ∧
      (m.insert key).lookup key = some i ∧ s'.conf = s.conf ∧
      ∀ j, (s'.nodes j).refCount =
        if j = i then (s.nodes j).refCount + 1 else (s.nodes j).refCount := by
  obtain ⟨i, s1, hs, hr, hl, hconf, href⟩ := h.insert hroom
  refine ⟨i, s1.modify i fun n => { n with refCount := n.refCount + 1 }, ?_,
    hr.setCount i (· + 1), hl, hconf, fun j => ?_⟩
  · simp only [ArenaAddressAllocator.allocate, hs, bind_eq_bind, bind_some]
  · rw [modify_refCount i j (· + 1), href]

theorem Refines.deallocate (key : UInt64) :
    ∃ s', s.deallocate key = some s' ∧ s'.conf = s.conf ∧
      ((m.lookup key = none ∧ s' = s) ∨
        ∃ i, m.lookup key = some i ∧
          Refines s' (if (s.nodes i).refCount = 0 then m.remove key else m) ∧
          ∀ j, (s'.nodes j).refCount =
            if j = i then (s.nodes j).refCount - 1 else (s.nodes j).refCount) := by
  have hfind := h.find key
  rw [ArenaAddressAllocator.find] at hfind
  simp only [ArenaAddressAllocator.deallocate, hfind, bind_eq_bind, bind_some]
  cases hl : m.lookup key with
  | none => exact ⟨s, rfl, rfl, .inl ⟨rfl, rfl⟩⟩
  | some i =>
    have hr := h.setCount i (· - 1)
    dsimp only
    by_cases h0 : (s.nodes i).refCount = 0
    · obtain ⟨s', hs, hr', hconf, href⟩ := hr.remove key
      refine ⟨s', by rw [if_pos h0]; exact hs, hconf,
        .inr ⟨i, rfl, by rwa [if_pos h0], fun j => ?_⟩⟩
      rw [href, modify_refCount i j (· - 1)]
    · refine ⟨s.modify i fun n => { n with refCount := n.refCount - 1 }, by rw [if_neg h0], rfl,
        .inr ⟨i, rfl, by rwa [if_neg h0], fun j => ?_⟩⟩
      exact modify_refCount i j (· - 1)

theorem Refines.index_inj {key key' : UInt64}
    (h1 : m.lookup key = some i) (h2 : m.lookup key' = some i) : key = key' := by
  obtain ⟨t, -, hm, -⟩ := h
  rw [← ((hm key i).1 h1).2, ((hm key' i).1 h2).2]

theorem Refines.index_lt (hl : m.lookup key = some i) :
    i < s.allocatedIndex ∧ i < s.conf.capacity ∧ (s.nodes i).index = i := by
  obtain ⟨t, hi, hm, -⟩ := h
  have hlt := hi.lt_of_mem ((hm key i).1 hl).1
  exact ⟨hlt, lt_of_lt_of_le hlt hi.capacity, hi.index i hlt⟩

end

def addressOf (s : ArenaAddressAllocator) (key : UInt64) : Option UInt64 :=
  match s.find key with
  | some (some node) => some (s.address node)
  | _ => none

theorem Refines.addressOf (h : Refines s m) (key : UInt64) :
    s.addressOf key = (m.lookup key).map s.address := by
  unfold ArenaAddressAllocator.addressOf
  rw [h.find]
  cases m.lookup key <;> rfl

theorem address_toNat (hidx : (s.nodes i).index = i) (hi : i < s.conf.capacity) :
    (s.address i).toNat = s.conf.baseAddress.toNat + s.conf.addressSegmentSize.toNat * i := by
  have hfits := s.conf.fits
  have hmul := mul_le_mul_left s.conf.addressSegmentSize.toNat (succ_le_of_lt hi)
  rw [mul_succ] at hmul
  have hbase := s.conf.baseAddress.toNat_lt
  rw [address, hidx, UInt64.toNat_add, UInt64.toNat_mul, toNat_ofNat']
  by_cases h0 : s.conf.addressSegmentSize.toNat = 0
  · grind
  · have hi64 : i < 2 ^ 64 := by
      have := Nat.le_mul_of_pos_left i (Nat.pos_of_ne_zero h0)
      omega
    rw [Nat.mod_eq_of_lt hi64, Nat.mod_eq_of_lt (by omega), Nat.mod_eq_of_lt (by omega)]

/-- **Every present key owns a segment**: its address is that of an index below the capacity, which
`Allocate` returns, and the segments of two keys do not overlap. -/
structure OwnsSegments (s : ArenaAddressAllocator) : Prop where
  address : ∀ key node, s.find key = some (some node) →
    (s.nodes node).index < s.conf.capacity ∧ s.addressOf key = some (s.address node) ∧
    (s.address node).toNat = s.conf.baseAddress.toNat +
      s.conf.addressSegmentSize.toNat * (s.nodes node).index
  disjoint : ∀ key key' a a', key ≠ key' → s.addressOf key = some a → s.addressOf key' = some a' →
    a.toNat + s.conf.addressSegmentSize.toNat ≤ a'.toNat ∨
      a'.toNat + s.conf.addressSegmentSize.toNat ≤ a.toNat
  allocate : ∀ key, s.HasRoom key → ∃ a s', s.allocate key = some (a, s') ∧
    s'.addressOf key = some a ∧ ∀ b, s.addressOf key = some b → b = a

theorem address_congr (hconf : s'.conf = s.conf)
    (hidx : (s'.nodes i).index = (s.nodes i).index) : s'.address i = s.address i := by
  rw [address, address, hconf, hidx]

theorem Refines.addressOf_eq {m' : KeyMap} (h : Refines s m) (h' : Refines s' m')
    (hconf : s'.conf = s.conf) (hl : m.lookup key = some i)
    (hl' : m'.lookup key = some i) : s'.addressOf key = s.addressOf key := by
  rw [h.addressOf, h'.addressOf, hl, hl', map_some, map_some,
    address_congr hconf ((h'.index_lt hl').2.2.trans (h.index_lt hl).2.2.symm)]

theorem Refines.ownsSegments (h : Refines s m) : OwnsSegments s where
  address key node hfind := by
    rw [h.find, Option.some.injEq] at hfind
    obtain ⟨-, hcap, hidx⟩ := h.index_lt hfind
    rw [h.addressOf, hfind, map_some, hidx]
    exact ⟨hcap, rfl, address_toNat hidx hcap⟩
  disjoint key key' a a' hne ha ha' := by
    rw [h.addressOf, map_eq_some_iff] at ha ha'
    obtain ⟨i, hi, rfl⟩ := ha
    obtain ⟨j, hj, rfl⟩ := ha'
    obtain ⟨-, hci, hxi⟩ := h.index_lt hi
    obtain ⟨-, hcj, hxj⟩ := h.index_lt hj
    rw [address_toNat hxi hci, address_toNat hxj hcj]
    have hij : i ≠ j := fun he => hne (h.index_inj hi (he ▸ hj))
    rcases lt_or_gt_of_ne hij with hlt | hlt
    · have := mul_le_mul_left s.conf.addressSegmentSize.toNat (succ_le_of_lt hlt)
      rw [mul_succ] at this
      omega
    · have := mul_le_mul_left s.conf.addressSegmentSize.toNat (succ_le_of_lt hlt)
      rw [mul_succ] at this
      omega
  allocate key hroom := by
    obtain ⟨i, s', hs, hr, hl, hconf, -⟩ := h.allocate hroom
    have ha : s'.addressOf key = some (s'.address i) := by rw [hr.addressOf, hl, map_some]
    refine ⟨s'.address i, s', hs, ha, fun b hb => ?_⟩
    rw [h.addressOf, map_eq_some_iff] at hb
    obtain ⟨j, hj, rfl⟩ := hb
    have hlj : (m.insert key).lookup key = some j := by rwa [KeyMap.insert_of_some hj]
    have := h.addressOf_eq hr hconf hj hlj
    rw [ha, h.addressOf, hj, map_some, Option.some.injEq] at this
    exact this.symm

theorem Refines.step (h : Refines s m) (op : ArenaOp) (hroom : s.Room op) :
    ∃ s' m', s.step op = some s' ∧ Refines s' m' ∧ s'.conf = s.conf ∧
      ∀ key, m'.lookup key = m.lookup key ∨ m.lookup key = none ∨ m'.lookup key = none := by
  cases op with
  | allocate key =>
    obtain ⟨i, s', hs, hr, -, hconf, -⟩ := h.allocate hroom
    refine ⟨s', _, by simp [ArenaAddressAllocator.step, hs], hr, hconf, fun k => ?_⟩
    by_cases hk : k = key
    · subst hk
      cases hl : m.lookup k with
      | none => exact .inr (.inl rfl)
      | some j => exact .inl (by rw [KeyMap.insert_of_some hl, hl])
    · exact .inl (m.lookup_insert_of_ne hk)
  | deallocate key =>
    obtain ⟨s', hs, hconf, ⟨-, rfl⟩ | ⟨i, -, hr, -⟩⟩ := h.deallocate key
    · exact ⟨s', m, hs, h, rfl, fun _ => .inl rfl⟩
    · refine ⟨s', _, hs, hr, hconf, fun k => ?_⟩
      split
      · by_cases hk : k = key
        · subst hk
          exact .inr (.inr (m.lookup_remove k))
        · exact .inl (m.lookup_remove_of_ne hk)
      · exact .inl rfl

variable (conf : ArenaConf)

def run (ops : List ArenaOp) : Option ArenaAddressAllocator :=
  ops.foldl (bindStep step) (some (init conf))

theorem Refines.stable (h : Refines s m)
    (hroom : Along (bindStep ArenaAddressAllocator.step) (onSome Room) (some s) ops)
    (hpres : Always (bindStep ArenaAddressAllocator.step)
      (fun o => (o.bind fun s => s.addressOf key).isSome) (some s) ops) :
    ∃ s' m', ops.foldl (bindStep ArenaAddressAllocator.step) (some s) = some s' ∧ Refines s' m' ∧
      s'.addressOf key = s.addressOf key := by
  induction ops generalizing s m with
  | nil => exact ⟨s, m, rfl, h, rfl⟩
  | cons op ops ih =>
    obtain ⟨s1, m1, hs1, hr1, hconf, hlook⟩ := h.step op (hroom.1 s rfl)
    have hstep : bindStep ArenaAddressAllocator.step (some s) op = some s1 := hs1
    have hroom1 := hroom.2
    have hpres1 := hpres.2
    rw [hstep] at hroom1 hpres1
    obtain ⟨s', m', hs', hr', ha⟩ := ih hr1 hroom1 hpres1
    refine ⟨s', m', by rw [foldl_cons, hstep, hs'], hr', ha.trans ?_⟩
    -- present before and after the call
    have h0 : (s.addressOf key).isSome := hpres.1
    have h1 : (s1.addressOf key).isSome := hpres1.head
    rw [h.addressOf, isSome_map] at h0
    rw [hr1.addressOf, isSome_map] at h1
    obtain ⟨i, hi⟩ := isSome_iff_exists.1 h0
    rcases hlook key with hl | hl | hl
    · exact h.addressOf_eq hr1 hconf hi (hl.trans hi)
    · simp [hl] at h0
    · simp [hl] at h1

theorem refines_run (hroom : Along (bindStep step) (onSome Room) (some (init conf)) ops) :
    ∃ s m, run conf ops = some s ∧ Refines s m := by
  refine hroom.inv (P := fun o => ∃ s m, o = some s ∧ Refines s m) ⟨_, _, rfl, .init conf⟩ ?_
  rintro _ op ⟨s, m, rfl, hr⟩ hop
  obtain ⟨s', m', hs', hr', -⟩ := hr.step op (hop s rfl)
  exact ⟨s', m', hs', hr'⟩

/-- **Along every run that does not exceed the capacity**, the present keys own disjoint segments
below the capacity, `Allocate` returns the segment of its key, and a key has one address from any
point of the run on while it stays present, whatever happens to other keys. -/
theorem owns_segments (conf : ArenaConf) (ops : List ArenaOp)
    (hroom : Along (bindStep step) (onSome Room) (some (init conf)) ops) :
    ∃ s, run conf ops = some s ∧ OwnsSegments s ∧
      ∀ pre suf, ops = pre ++ suf → ∀ key,
        Always (bindStep step) (fun o => (o.bind fun s => s.addressOf key).isSome)
          (run conf pre) suf →
        (run conf pre).bind (fun s => s.addressOf key) = s.addressOf key := by
  obtain ⟨s, m, hs, hr⟩ := refines_run conf hroom
  refine ⟨s, hs, hr.ownsSegments, ?_⟩
  rintro pre suf rfl key hpres
  obtain ⟨hpre, hsuf⟩ := along_append.1 hroom
  obtain ⟨s0, m0, hs0, hr0⟩ := refines_run conf hpre
  have hrun : run conf pre = pre.foldl (bindStep step) (some (init conf)) := rfl
  rw [← hrun, hs0] at hsuf
  rw [hs0] at hpres ⊢
  obtain ⟨s', m', hs', -, ha⟩ := hr0.stable hsuf hpres
  have : s' = s := by
    have hfold : run conf (pre ++ suf) = suf.foldl (bindStep step) (run conf pre) :=
      foldl_append
    grind
  rw [← this, ha]
  rfl

def reuse : List ArenaOp :=
  [.allocate 7, .allocate 8, .deallocate 7, .deallocate 7, .allocate 9]

theorem owns_segments_reuse :
    Along (bindStep step) (onSome Room) (some (init smallConf)) reuse ∧
      ∃ s, run smallConf reuse = some s ∧ OwnsSegments s ∧
        ∀ pre suf, reuse = pre ++ suf → ∀ key,
          Always (bindStep step) (fun o => (o.bind fun s => s.addressOf key).isSome)
            (run smallConf pre) suf →
          (run smallConf pre).bind (fun s => s.addressOf key) = s.addressOf key :=
  have hroom : Along (bindStep step) (onSome Room) (some (init smallConf)) reuse := by decide
  ⟨hroom, owns_segments smallConf reuse hroom⟩

def Agrees (o : Option ArenaAddressAllocator) (m : Counted) : Prop :=
  ∃ s, o = some s ∧ (∀ key, s.find key = some (m.lookup key)) ∧ s.reclaimStack = m.free ∧
    s.allocatedIndex = m.allocated ∧ ∀ key, s.find key ≠ some none ↔ 0 < m.count key

def Balanced (ops : List ArenaOp) : Prop :=
  ∀ pre suf, ops = pre ++ suf → Agrees (run conf pre) (pre.foldl Counted.step .empty)

/-- What holds while no key is removed: every key is on a node of its own that was never used
before, with its count in `ref_count_`, up to the wrap at `2 ^ 64`. -/
structure Fresh (s : ArenaAddressAllocator) (m : Counted) : Prop where
  refines : Refines s m.toKeyMap
  counted : ∀ key i, m.lookup key = some i → (s.nodes i).refCount = UInt64.ofNat (m.count key)
  unused : ∀ i, m.allocated ≤ i → (s.nodes i).refCount = 0
  present : ∀ key, (m.lookup key).isSome ↔ 0 < m.count key
  free : m.free = []

namespace Fresh

variable {m : Counted}

theorem init (conf : ArenaConf) : Fresh (.init conf) .empty where
  refines := .init conf
  counted key i h := by simp [empty, KeyMap.lookup, KeyMap.empty] at h
  unused _ _ := rfl
  present key := by simp [empty, KeyMap.lookup, KeyMap.empty]
  free := rfl

section
variable (h : Fresh s m)
include h

theorem agrees : Agrees (some s) m := by
  refine ⟨s, rfl, h.refines.find, ?_, ?_, fun key => ?_⟩
  · obtain ⟨t, -, -, hf, -⟩ := h.refines
    exact hf
  · obtain ⟨t, -, -, -, ha⟩ := h.refines
    exact ha
  · rw [h.refines.find, ← h.present, ne_eq, Option.some.injEq]
    exact isSome_iff_ne_none.symm

theorem allocate (hroom : s.HasRoom key) :
    ∃ s', s.step (.allocate key) = some s' ∧ Fresh s' (m.step (.allocate key)) := by
  obtain ⟨i, s', hs, hr, hl, -, href⟩ := h.refines.allocate hroom
  have hcount : ∀ k, k ≠ key → (m.step (.allocate key)).count k = m.count k := fun k hk =>
    update_of_ne hk _ _
  have hcount' : (m.step (.allocate key)).count key = m.count key + 1 := update_self _ _ _
  have hlook : ∀ k, (m.step (.allocate key)).lookup k = (m.insert key).lookup k := fun _ => rfl
  refine ⟨s', by simp [ArenaAddressAllocator.step, hs], hr, fun k j hk => ?_, fun j hj => ?_,
    fun k => ?_, ?_⟩
  · rw [hlook] at hk
    by_cases hkk : k = key
    · subst hkk
      obtain rfl : i = j := Option.some.inj (hl.symm.trans hk)
      rw [href, if_pos rfl, hcount', ofNat_add]
      congr 1
      cases hm : m.lookup k with
      | some i0 =>
        rw [KeyMap.insert_of_some hm, hm] at hl
        cases hl
        exact h.counted k i hm
      | none =>
        -- a new key is on the next node, whose count is 0
        rw [KeyMap.insert_of_none hm h.free, KeyMap.lookup, Finmap.lookup_insert] at hl
        cases hl
        have h0 : m.count k = 0 := by
          have := h.present k
          grind
        rw [h.unused _ (le_refl _), h0]
        rfl
    · have hji : j ≠ i := fun he => hkk (hr.index_inj (he ▸ hk) hl)
      rw [m.toKeyMap.lookup_insert_of_ne hkk] at hk
      rw [href, if_neg hji, hcount k hkk, h.counted k j hk]
  · have hji : j ≠ i := by
      rintro rfl
      have hlt := (hr.index_lt hl).1
      obtain ⟨t, -, -, -, ha⟩ := hr
      rw [ha] at hlt
      exact absurd hj (not_le.2 hlt)
    rw [href, if_neg hji]
    refine h.unused j (le_trans ?_ hj)
    show m.allocated ≤ (m.insert key).allocated
    unfold KeyMap.insert
    split <;> simp
  · rw [hlook]
    by_cases hkk : k = key
    · grind
    · rw [m.toKeyMap.lookup_insert_of_ne hkk, hcount k hkk]
      exact h.present k
  · show (m.insert key).free = []
    cases hm : m.lookup key with
    | some i0 => rw [KeyMap.insert_of_some hm, h.free]
    | none => rw [KeyMap.insert_of_none hm h.free]

theorem refCount_eq_zero (hl : m.lookup key = some i) :
    (s.nodes i).refCount = 0 ↔ 2 ^ 64 ∣ m.count key := by
  rw [h.counted key i hl, ← UInt64.toNat_inj, toNat_ofNat', dvd_iff_mod_eq_zero]
  rfl

theorem deallocate (hok : m.DeallocateOk (.deallocate key)) :
    ∃ s', s.step (.deallocate key) = some s' ∧ Fresh s' (m.step (.deallocate key)) := by
  have hmap : (m.step (.deallocate key)).toKeyMap = m.toKeyMap := if_neg hok.1
  have hcount : ∀ k, (m.step (.deallocate key)).count k =
      if k = key then m.count key - 1 else m.count k := fun k => update_apply _ _ _ _
  obtain ⟨s', hs, -, ⟨hn, rfl⟩ | ⟨i, hl, hr, href⟩⟩ := h.refines.deallocate key
  · -- absent: nothing changes, not even the count
    have h0 : m.count key = 0 := by
      have := h.present key
      grind
    have hsame : m.step (.deallocate key) = m := by
      have hc : (m.step (.deallocate key)).count = m.count := funext fun k => by
        grind
      exact congrArg₂ Counted.mk hmap hc
    exact ⟨s', hs, by rwa [hsame]⟩
  · have hpos := (h.present key).1 (by rw [hl]; rfl)
    obtain ⟨h1, h2⟩ := hok
    rw [if_neg fun h0 => h2 hpos ((h.refCount_eq_zero hl).1 h0)] at hr
    refine ⟨s', hs, by rwa [hmap], fun k j hk => ?_, fun j hj => ?_, fun k => ?_,
      by rw [hmap, h.free]⟩
    · rw [hmap] at hk
      rw [hcount]
      by_cases hkk : k = key
      · subst hkk
        obtain rfl : i = j := Option.some.inj (hl.symm.trans hk)
        rw [href, if_pos rfl, if_pos rfl, h.counted k i hl, ofNat_sub (by omega)]
        rfl
      · have hji : j ≠ i := fun he => hkk (h.refines.index_inj (he ▸ hk) hl)
        rw [href, if_neg hji, if_neg hkk, h.counted k j hk]
    · rw [hmap] at hj
      have hji : j ≠ i := by
        have hlt := (h.refines.index_lt hl).1
        obtain ⟨t, -, -, -, ha⟩ := h.refines
        grind
      rw [href, if_neg hji]
      exact h.unused j hj
    · rw [hmap, h.present k, hcount]
      grind

theorem not_agrees {op : ArenaOp} (hop : ¬ m.DeallocateOk op) :
    ¬ Agrees (s.step op) (m.step op) := by
  cases op with
  | allocate key => exact absurd trivial hop
  | deallocate key =>
    rintro ⟨s', hs', hfind, -⟩
    have hpos : 0 < m.count key := by
      rw [DeallocateOk] at hop
      grind
    obtain ⟨i, hl⟩ := isSome_iff_exists.1 ((h.present key).2 hpos)
    obtain ⟨s1, hs1, -, ⟨hn, -⟩ | ⟨i', hl', hr, -⟩⟩ := h.refines.deallocate key
    · rw [hl] at hn
      cases hn
    · obtain rfl : i = i' := Option.some.inj (hl.symm.trans hl')
      obtain rfl : s1 = s' := Option.some.inj (hs1.symm.trans hs')
      have hcode := hr.find key
      rw [hfind, Option.some.injEq] at hcode
      by_cases h1 : m.count key = 1
      · -- the last one: the count before is 1, so the key stays
        have h0 : ¬ (s.nodes i).refCount = 0 := by
          rw [h.refCount_eq_zero hl, h1]
          decide
        rw [if_neg h0, hl] at hcode
        have hspec : (m.step (.deallocate key)).lookup key = none := by
          show (if m.count key = 1 then m.toKeyMap.remove key else m.toKeyMap).lookup key = none
          rw [if_pos h1, KeyMap.lookup_remove]
        rw [hspec] at hcode
        cases hcode
      · -- the count has wrapped to 0, so the key goes
        have h0 : (s.nodes i).refCount = 0 := by
          rw [h.refCount_eq_zero hl]
          by_contra hd
          exact hop ⟨h1, fun _ => hd⟩
        rw [if_pos h0, KeyMap.lookup_remove] at hcode
        have hspec : (m.step (.deallocate key)).lookup key = some i := by
          show (if m.count key = 1 then m.toKeyMap.remove key else m.toKeyMap).lookup key = some i
          rw [if_neg h1, hl]
        rw [hspec] at hcode
        cases hcode

theorem step (op : ArenaOp) (hroom : s.Room op) (hok : m.DeallocateOk op) :
    ∃ s', s.step op = some s' ∧ Fresh s' (m.step op) := by
  cases op with
  | allocate key => exact h.allocate hroom
  | deallocate key => exact h.deallocate hok

end

end Fresh

theorem fresh_run (conf : ArenaConf)
    (hroom : Along (bindStep step) (onSome Room) (some (init conf)) ops)
    (hok : Along Counted.step DeallocateOk .empty ops) :
    ∃ s, run conf ops = some s ∧ Fresh s (ops.foldl Counted.step .empty) := by
  induction ops using List.reverseRecOn with
  | nil => exact ⟨_, rfl, .init conf⟩
  | append_singleton ops op ih =>
    obtain ⟨hroom1, hroom2⟩ := along_append.1 hroom
    obtain ⟨hok1, hok2⟩ := along_append.1 hok
    obtain ⟨s, hs, hf⟩ := ih hroom1 hok1
    obtain ⟨s', hs', hf'⟩ := hf.step op (hroom2.1 s hs) hok2.1
    refine ⟨s', ?_, ?_⟩
    · rw [run, foldl_append, show ops.foldl (bindStep step) _ = some s from hs]
      exact hs'
    · rw [foldl_append]
      exact hf'

/-- **The allocator keeps the keys that the counts ask for exactly when no `Deallocate` balances the
last `Allocate` of its key**, and none comes at a positive multiple of `2 ^ 64` open ones. -/
theorem balanced_iff (conf : ArenaConf) (ops : List ArenaOp)
    (hroom : Along (bindStep step) (onSome Room) (some (init conf)) ops) :
    Balanced conf ops ↔ Along Counted.step DeallocateOk .empty ops := by
  constructor
  · intro h
    by_contra hn
    obtain ⟨pre, op, suf, rfl, hpre, hop⟩ := not_along hn
    obtain ⟨s, hs, hf⟩ := fresh_run conf (along_append.1 hroom).1 hpre
    have := h (pre ++ [op]) suf (by simp)
    rw [run, foldl_append, foldl_append, show pre.foldl (bindStep step) _ = some s from hs] at this
    exact hf.not_agrees hop this
  · rintro h pre suf rfl
    obtain ⟨s, hs, hf⟩ := fresh_run conf (along_append.1 hroom).1 (along_append.1 h).1
    rw [hs]
    exact hf.agrees

/-- Two `Allocate`s and a `Deallocate` of a key. -/
theorem balanced_iff_open :
    Along (bindStep step) (onSome Room) (some (init smallConf))
        [.allocate 7, .allocate 7, .deallocate 7] ∧
      (Balanced smallConf [.allocate 7, .allocate 7, .deallocate 7] ↔
        Along Counted.step DeallocateOk .empty
          [.allocate 7, .allocate 7, .deallocate 7]) :=
  have hroom : Along (bindStep step) (onSome Room) (some (init smallConf))
      [.allocate 7, .allocate 7, .deallocate 7] := by decide
  ⟨hroom, balanced_iff smallConf _ hroom⟩

/-- An `Allocate` and the `Deallocate` that balances it: the key is still there. -/
theorem not_balanced_pair : ¬ Balanced smallConf [.allocate 7, .deallocate 7] := by
  intro h
  obtain ⟨s, hs, hfind, -⟩ := h _ [] (append_nil _).symm
  have hcode : (run smallConf [.allocate 7, .deallocate 7]).map (fun s => s.find 7) =
      some (some (some 0)) := by decide
  rw [hs, map_some, hfind 7] at hcode
  revert hcode
  decide

end ArenaAddressAllocator

/-!
## A full allocator

`FindOrInsertNode` stores the null pointer that it gets from `NewNode` and goes on to write through
it.
-/

namespace ArenaAddressAllocator

variable {s : ArenaAddressAllocator}

theorem set_get (s : ArenaAddressAllocator) (slot : Slot Nat) :
    s.set slot (s.links.get slot) = s := by
  cases slot with
  | root => rfl
  | left i | right i =>
    simp only [set, modify, links, Links.get]
    rw [Function.update_eq_self]

theorem newNode_full (hstack : s.reclaimStack = []) (hcap : s.conf.capacity ≤ s.allocatedIndex)
    (key : UInt64) : s.newNode key = none := by
  simp [newNode, hstack, hcap]

/-- The two models of `FindOrInsertNode` agree: where `insertNode` says that the process dies,
`findOrInsertNode` has no result. -/
theorem insertNode_toOption (s : ArenaAddressAllocator) (fuel : Nat) (p : Option Nat)
    (slot : Slot Nat) (parent : Option Nat) (key : UInt64) :
    (s.insertNode fuel p slot parent key).bind Except.toOption =
      s.findOrInsertNode fuel p slot parent key := by
  induction fuel generalizing p slot parent with
  | zero => rfl
  | succ fuel ih =>
    cases p with
    | none =>
      unfold insertNode findOrInsertNode
      cases s.newNode key <;> rfl
    | some node =>
      simp only [insertNode, findOrInsertNode, ← ih]
      split
      · rcases s.insertNode fuel _ _ _ key with _ | (_ | r) <;> simp [Except.toOption, Option.bind_assoc]
      · split
        · rcases s.insertNode fuel _ _ _ key with _ | (_ | r) <;> simp [Except.toOption, Option.bind_assoc]
        · rfl

/-- **The way to the null pointer**: for a key that `FindNode` does not find from a slot on, the
insertion there ends with the memory as it was. -/
theorem insertNode_full (hstack : s.reclaimStack = [])
    (hcap : s.conf.capacity ≤ s.allocatedIndex) {key : UInt64} {fuel : Nat} (slot : Slot Nat)
    (hfind : s.findNode fuel (s.links.get slot) key = some none) (parent : Option Nat) :
    s.insertNode fuel (s.links.get slot) slot parent key = some (.error s) := by
  induction fuel generalizing slot parent with
  | zero => cases hfind
  | succ fuel ih =>
    cases hp : s.links.get slot with
    | none =>
      simp only [insertNode, newNode_full hstack hcap key]
      rw [← hp, set_get]
    | some i =>
      have hleft := ih (.left i)
      have hright := ih (.right i)
      simp only [links, Links.get] at hleft hright
      rw [hp] at hfind
      unfold findNode at hfind
      unfold insertNode
      split
      · rename_i hlt
        rw [if_pos hlt] at hfind
        rw [hleft hfind]
        rfl
      · rename_i hlt
        rw [if_neg hlt] at hfind
        split
        · rename_i hgt
          rw [if_pos hgt] at hfind
          rw [hright hfind]
          rfl
        · rename_i hgt
          rw [if_neg hgt] at hfind
          cases hfind

end ArenaAddressAllocator

namespace SharedArena

variable {a : SharedArena}

theorem allocate_full (hfull : a.Full) (hocc : a.occupied = false) {key : UInt64}
    (hfind : a.memory.find key = some none) :
    a.allocate key = some (.crashed ⟨a.memory, true⟩) := by
  have hinsert := ArenaAddressAllocator.insertNode_full hfull.1 hfull.2 .root hfind none
  simp only [ArenaAddressAllocator.links, Links.get] at hinsert
  unfold allocate
  rw [hocc, hinsert]
  rfl

theorem step_occupied (h : a.occupied = true) (op : ArenaOp) : a.step op = some a := by
  cases op <;> simp [step, allocate, deallocate, h, CallEnd.state]

theorem stuck_run (h : a.occupied = true) (ops : List ArenaOp) :
    ops.foldl (bindStep step) (some a) = some a := by
  induction ops with
  | nil => rfl
  | cons op ops ih =>
    show ops.foldl (bindStep step) (a.step op) = some a
    rw [step_occupied h]
    exact ih

/-- **On a full allocator no `Allocate` of an absent key fails cleanly**: it does not return, the
flag is set when it is over, keys, indexes and counts are as they were, and every `Allocate` and
`Deallocate` then, of any process, waits for ever (until an `Init`, which clears the flag). -/
theorem never_fails_cleanly (a : SharedArena) (hfull : a.Full) (key : UInt64)
    (hfind : a.memory.find key = some none) :
    ¬ a.FailsCleanly key ∧
      ∃ e, a.allocate key = some e ∧ e.isReturned = false ∧ e.state = ⟨a.memory, true⟩ ∧
        ∀ ops : List ArenaOp, ops.foldl (bindStep step) (some e.state) = some e.state := by
  have hnot : ∀ e : CallEnd (Option UInt64), a.allocate key = some e → e.isReturned = false →
      ¬ a.FailsCleanly key := by
    intro e he hret ⟨a', ha', _⟩
    rw [he] at ha'
    cases ha'
    cases hret
  cases hocc : a.occupied with
  | true =>
    have hwait : a.allocate key = some (.waiting a) := by simp [allocate, hocc]
    exact ⟨hnot _ hwait rfl, _, hwait, rfl, congrArg (SharedArena.mk a.memory) hocc,
      fun ops => stuck_run hocc ops⟩
  | false =>
    have hcrash := allocate_full hfull hocc hfind
    exact ⟨hnot _ hcrash rfl, _, hcrash, rfl, rfl, fun ops => stuck_run rfl ops⟩

def oneTaken : Option SharedArena :=
  (SharedArena.init ⟨1, 0x710000000000, 2 * 1024 * 1024 * 1024, by decide⟩).step (.allocate 1)

theorem never_fails_cleanly_oneTaken : ∃ a, oneTaken = some a ∧ a.Full ∧
    ¬ a.FailsCleanly 2 :=
  ⟨_, rfl, by decide, (never_fails_cleanly _ (by decide) 2 (by decide)).1⟩

theorem oneTaken_allocate :
    (oneTaken.bind fun a => a.allocate 2).map CallEnd.isReturned = some false := by
  decide

theorem not_failsCleanly_oneTaken : ∃ a, oneTaken = some a ∧ a.Full ∧
    a.memory.find 2 = some none ∧ ¬ a.FailsCleanly 2 := by
  have hfull : ∀ a ∈ oneTaken, a.Full ∧ a.memory.find 2 = some none := by decide
  obtain ⟨e, he, hret⟩ := Option.map_eq_some_iff.1 oneTaken_allocate
  obtain ⟨a, ha, hcall⟩ := Option.bind_eq_some_iff.1 he
  refine ⟨a, ha, (hfull a ha).1, (hfull a ha).2, ?_⟩
  intro ⟨a', ha', _⟩
  rw [hcall] at ha'
  cases ha'
  cases hret

end SharedArena

end Shm
