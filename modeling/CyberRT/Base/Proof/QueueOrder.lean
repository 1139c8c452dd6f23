import CyberRT.Base.BoundedQueue
import CyberRT.Lib.Ring

/-!
# The order of a `BoundedQueue`

The slots from `head_` to `tail_` are less than a round apart.
-/

namespace Base.QueueSystem

open Function Lib QueueSystem Nat BoundedQueue

variable {ι κ T : Type*} {size t t' n h : Nat} {x : T} {q : BoundedQueue T}
  {reserved dequeued : List T}

attribute [local simp] enqueueStep EnqueuePc.reservation dequeueStep
  DequeuePc.result

theorem getIndex_eq (q : BoundedQueue T) (num : Nat) : q.getIndex num = num % q.poolSize := by
  rw [getIndex, mod_def, mul_comm]

structure Sound (size : Nat) (q : BoundedQueue T) (reserved dequeued : List T) : Prop where
  poolSize : q.poolSize = size + 2
  tail : q.tail = reserved.length + 1
  head : q.head = dequeued.length
  order : dequeued = reserved.take q.head
  head_lt : q.head < q.commit
  commit_le : q.commit ≤ q.tail
  room : q.tail ≤ q.head + size + 1
  slots : ∀ t, q.head < t → t < q.commit → reserved[t - 1]? = some (q.pool (q.getIndex t))

def EnqueueOk (size : Nat) (q : BoundedQueue T) (reserved : List T) : EnqueuePc T → Prop
  | .idle _ => True
  | .loadTail _ => True
  | .loadHead _ t => t ≤ q.tail
  | .casTail _ t => t ≤ q.tail ∧ (t = q.tail → t ≤ q.head + size)
  | .store x t => q.commit ≤ t ∧ t < q.tail ∧ reserved[t - 1]? = some x
  | .casCommit t =>
    q.commit ≤ t ∧ t < q.tail ∧ reserved[t - 1]? = some (q.pool (q.getIndex t))
  | .notify => True

def DequeueOk (q : BoundedQueue T) (reserved : List T) : DequeuePc T → Prop
  | .loadHead => True
  | .loadCommit h => h ≤ q.head
  | .read h => h ≤ q.head ∧ (h = q.head → h + 1 < q.commit)
  | .casHead h x => h ≤ q.head ∧ (h = q.head → h + 1 < q.commit ∧ reserved[h]? = some x)
  | .returned _ => True

def slotOf : EnqueuePc T → Option Nat
  | .store _ t => some t
  | .casCommit t => some t
  | _ => none

theorem EnqueueOk.slot {pc : EnqueuePc T} (h : EnqueueOk size q reserved pc)
    (ht : slotOf pc = some t) : q.commit ≤ t ∧ t < q.tail := by
  cases pc with
  | store x t' =>
    obtain rfl : t' = t := Option.some.inj ht
    exact ⟨h.1, h.2.1⟩
  | casCommit t' =>
    obtain rfl : t' = t := Option.some.inj ht
    exact ⟨h.1, h.2.1⟩
  | _ => cases ht

theorem Sound.getIndex_ne (hq : Sound size q reserved dequeued) (hne : t ≠ t') (ht : q.head < t)
    (ht' : q.head < t') (htail : t < q.tail) (htail' : t' < q.tail) :
    q.getIndex t ≠ q.getIndex t' := by
  have hroom := hq.room
  rw [getIndex_eq, getIndex_eq, hq.poolSize]
  rcases lt_or_gt_of_ne hne with hlt | hlt
  · exact mod_ne_of_lt hlt (by omega)
  · exact (mod_ne_of_lt hlt (by omega)).symm

theorem Sound.room_of_index (hq : Sound size q reserved dequeued)
    (hidx : q.getIndex (q.tail + 1) ≠ q.getIndex q.head) : q.tail ≤ q.head + size := by
  by_contra hfull
  apply hidx
  have hroom := hq.room
  have heq : q.tail + 1 = q.head + q.poolSize := by
    rw [hq.poolSize]
    omega
  rw [getIndex_eq, getIndex_eq, heq, add_mod_right]

/-! ### A slot is reserved -/

theorem Sound.reserve (hq : Sound size q reserved dequeued) (hroom : q.tail ≤ q.head + size)
    (x : T) : Sound size { q with tail := q.tail + 1 } (reserved ++ [x]) dequeued where
  poolSize := hq.poolSize
  tail := by simp [hq.tail]
  head := hq.head
  order := by
    have hlt : q.head ≤ reserved.length := by
      have h1 := hq.tail
      have h2 := hq.head_lt
      have h3 := hq.commit_le
      omega
    rw [List.take_append_of_le_length hlt]
    exact hq.order
  head_lt := hq.head_lt
  commit_le := le_succ_of_le hq.commit_le
  room := succ_le_succ hroom
  slots t hhead hcommit := by
    have hslot := hq.slots t hhead hcommit
    rw [List.getElem?_append_left (List.getElem?_eq_some_iff.1 hslot).1]
    exact hslot

theorem getElem?_append_some {l : List T} (l' : List T) (h : l[n]? = some x) :
    (l ++ l')[n]? = some x := by
  grind

theorem EnqueueOk.reserve {pc : EnqueuePc T} (h : EnqueueOk size q reserved pc) (x : T) :
    EnqueueOk size { q with tail := q.tail + 1 } (reserved ++ [x]) pc := by
  cases pc with
  | loadHead y t => exact le_succ_of_le h
  | casTail y t => exact ⟨le_succ_of_le h.1, fun ht => absurd h.1 (by simp at ht; omega)⟩
  | store y t => exact ⟨h.1, lt_succ_of_lt h.2.1, getElem?_append_some [x] h.2.2⟩
  | casCommit t => exact ⟨h.1, lt_succ_of_lt h.2.1, getElem?_append_some [x] h.2.2⟩
  | idle | loadTail | notify => trivial

theorem DequeueOk.reserve {pc : DequeuePc T} (h : DequeueOk q reserved pc) (x : T) :
    DequeueOk { q with tail := q.tail + 1 } (reserved ++ [x]) pc := by
  cases pc with
  | casHead m y => exact ⟨h.1, fun hm => ⟨(h.2 hm).1, getElem?_append_some [x] (h.2 hm).2⟩⟩
  | loadHead | loadCommit | read | returned => exact h

/-! ### A slot is stored to -/

theorem Sound.store (hq : Sound size q reserved dequeued) (ht : q.commit ≤ t) (htail : t < q.tail)
    (x : T) : Sound size { q with pool := update q.pool (q.getIndex t) x } reserved dequeued where
  poolSize := hq.poolSize
  tail := hq.tail
  head := hq.head
  order := hq.order
  head_lt := hq.head_lt
  commit_le := hq.commit_le
  room := hq.room
  slots t' hhead hcommit := by
    have hlt := hq.head_lt
    have hne : q.getIndex t' ≠ q.getIndex t :=
      hq.getIndex_ne (Nat.ne_of_lt (Nat.lt_of_lt_of_le hcommit ht)) hhead (by omega)
        (Nat.lt_of_lt_of_le hcommit hq.commit_le) htail
    have hpool : update q.pool (q.getIndex t) x (q.getIndex t') = q.pool (q.getIndex t') :=
      update_of_ne hne x q.pool
    exact (hq.slots t' hhead hcommit).trans (congrArg some hpool.symm)

theorem EnqueueOk.store {pc : EnqueuePc T} (h : EnqueueOk size q reserved pc)
    (hq : Sound size q reserved dequeued) (ht : q.commit ≤ t) (htail : t < q.tail)
    (hother : slotOf pc ≠ some t) (x : T) :
    EnqueueOk size { q with pool := update q.pool (q.getIndex t) x } reserved pc := by
  cases pc with
  | casCommit t' =>
    have hne : t' ≠ t := fun heq => hother (congrArg some heq)
    have hlt := hq.head_lt
    have hpool : update q.pool (q.getIndex t) x (q.getIndex t') =
        q.pool (q.getIndex t') :=
      update_of_ne
        (hq.getIndex_ne hne (Nat.lt_of_lt_of_le hlt h.1) (Nat.lt_of_lt_of_le hlt ht) h.2.1 htail)
        x q.pool
    exact ⟨h.1, h.2.1, h.2.2.trans (congrArg some hpool.symm)⟩
  | idle | loadTail | loadHead | casTail | store | notify => exact h

theorem DequeueOk.store {pc : DequeuePc T} (h : DequeueOk q reserved pc) (x : T) :
    DequeueOk { q with pool := update q.pool (q.getIndex t) x } reserved pc := by
  cases pc <;> exact h

/-! ### A slot is committed -/

theorem Sound.commit (hq : Sound size q reserved dequeued) (htail : q.commit < q.tail)
    (hslot : reserved[q.commit - 1]? = some (q.pool (q.getIndex q.commit))) :
    Sound size { q with commit := q.commit + 1 } reserved dequeued where
  poolSize := hq.poolSize
  tail := hq.tail
  head := hq.head
  order := hq.order
  head_lt := lt_succ_of_lt hq.head_lt
  commit_le := htail
  room := hq.room
  slots t hhead hcommit := by
    rcases Nat.lt_succ_iff_lt_or_eq.1 hcommit with hlt | rfl
    · exact hq.slots t hhead hlt
    · exact hslot

theorem EnqueueOk.commit {pc : EnqueuePc T} (h : EnqueueOk size q reserved pc)
    (hother : slotOf pc ≠ some q.commit) :
    EnqueueOk size { q with commit := q.commit + 1 } reserved pc := by
  cases pc with
  | store x t =>
    have hne : t ≠ q.commit := fun heq => hother (congrArg some heq)
    exact ⟨lt_of_le_of_ne h.1 hne.symm, h.2⟩
  | casCommit t =>
    have hne : t ≠ q.commit := fun heq => hother (congrArg some heq)
    exact ⟨lt_of_le_of_ne h.1 hne.symm, h.2⟩
  | idle | loadTail | loadHead | casTail | notify => exact h

theorem DequeueOk.commit {pc : DequeuePc T} (h : DequeueOk q reserved pc) :
    DequeueOk { q with commit := q.commit + 1 } reserved pc := by
  cases pc with
  | read m => exact ⟨h.1, fun hm => lt_succ_of_lt (h.2 hm)⟩
  | casHead m y => exact ⟨h.1, fun hm => ⟨lt_succ_of_lt (h.2 hm).1, (h.2 hm).2⟩⟩
  | loadHead | loadCommit | returned => exact h

/-! ### A slot is taken -/

theorem Sound.take (hq : Sound size q reserved dequeued) (hcommit : q.head + 1 < q.commit)
    (hx : reserved[q.head]? = some x) :
    Sound size { q with head := q.head + 1 } reserved (dequeued ++ [x]) where
  poolSize := hq.poolSize
  tail := hq.tail
  head := by simp [hq.head]
  order := by
    rw [List.take_add_one, hx, ← hq.order]
    rfl
  head_lt := hcommit
  commit_le := hq.commit_le
  room := le_trans hq.room (by simp only; omega)
  slots t hhead := hq.slots t (lt_of_succ_lt hhead)

theorem EnqueueOk.take {pc : EnqueuePc T} (h : EnqueueOk size q reserved pc) :
    EnqueueOk size { q with head := q.head + 1 } reserved pc := by
  cases pc with
  | casTail y t => exact ⟨h.1, fun ht => le_trans (h.2 ht) (by simp only; omega)⟩
  | idle | loadTail | loadHead | store | casCommit | notify => exact h

theorem DequeueOk.take {pc : DequeuePc T} (h : DequeueOk q reserved pc) :
    DequeueOk { q with head := q.head + 1 } reserved pc := by
  -- whoever has read `head_` before has an old value now
  cases pc with
  | loadCommit m => exact le_succ_of_le h
  | read m => exact ⟨le_succ_of_le h.1, fun hm => absurd h.1 (by simp at hm; omega)⟩
  | casHead m y => exact ⟨le_succ_of_le h.1, fun hm => absurd h.1 (by simp at hm; omega)⟩
  | loadHead | returned => trivial

structure Owned (q : BoundedQueue T) (producers : ι → EnqueuePc T) : Prop where
  unique : ∀ i j t, slotOf (producers i) = some t → slotOf (producers j) = some t → i = j
  owned : ∀ t, q.commit ≤ t → t < q.tail → ∃ i, slotOf (producers i) = some t

section
variable [DecidableEq ι] {producers : ι → EnqueuePc T} {i : ι} {pc : EnqueuePc T}

theorem Owned.same (h : Owned q producers) (i : ι) (pc : EnqueuePc T)
    (hpc : slotOf pc = slotOf (producers i)) : Owned q (update producers i pc) := by
  have hall : ∀ k, slotOf (update producers i pc k) = slotOf (producers k) := by grind
  exact ⟨fun k l t => by rw [hall, hall]; exact h.unique k l t,
    fun t hcommit htail => by simpa only [hall] using h.owned t hcommit htail⟩

theorem Owned.reserve (h : Owned q producers)
    (hq : ∀ k t, slotOf (producers k) = some t → t < q.tail)
    (hold : slotOf (producers i) = none) (hpc : slotOf pc = some q.tail) :
    Owned { q with tail := q.tail + 1 } (update producers i pc) where
  unique k l t hk hl := by
    by_cases hki : k = i <;> by_cases hli : l = i
    · rw [hki, hli]
    · -- the slot is new, so no other producer has it
      grind
    · grind
    · rw [update_of_ne hki] at hk
      rw [update_of_ne hli] at hl
      exact h.unique k l t hk hl
  owned t hcommit htail := by
    rcases Nat.lt_succ_iff_lt_or_eq.1 htail with hlt | rfl
    · obtain ⟨k, hk⟩ := h.owned t hcommit hlt
      have hki : k ≠ i := fun heq => by rw [heq, hold] at hk; cases hk
      exact ⟨k, by rwa [update_of_ne hki]⟩
    · exact ⟨i, by rwa [update_self]⟩

theorem Owned.commit (h : Owned q producers) (hold : slotOf (producers i) = some q.commit)
    (hpc : slotOf pc = none) : Owned { q with commit := q.commit + 1 } (update producers i pc) where
  unique k l t hk hl := by
    by_cases hki : k = i
    · grind
    · by_cases hli : l = i
      · grind
      · rw [update_of_ne hki] at hk
        rw [update_of_ne hli] at hl
        exact h.unique k l t hk hl
  owned t hcommit htail := by
    obtain ⟨k, hk⟩ := h.owned t (le_of_succ_le hcommit) htail
    have hki : k ≠ i := by grind
    exact ⟨k, by rwa [update_of_ne hki]⟩

end

structure Inv (size : Nat) (s : QueueSystem ι κ T) : Prop where
  sound : Sound size s.queue s.reserved s.dequeued
  enqueues : ∀ i, EnqueueOk size s.queue s.reserved (s.producers i)
  dequeues : ∀ j, DequeueOk s.queue s.reserved (s.consumers j)
  owned : Owned s.queue s.producers

theorem Sound.init [Inhabited T] (size : Nat) : Sound size (.init size : BoundedQueue T) [] [] where
  poolSize := rfl
  tail := rfl
  head := rfl
  order := rfl
  head_lt := one_pos
  commit_le := le_refl 1
  room := by simp only [BoundedQueue.init]; omega
  slots t hhead hcommit := by simp only [BoundedQueue.init] at hhead hcommit; omega

theorem Inv.init [Inhabited T] (size : Nat) : Inv size (init size : QueueSystem ι κ T) where
  sound := Sound.init size
  enqueues _ := trivial
  dequeues _ := trivial
  owned := {
    unique := fun _ _ _ h => by cases h
    owned := fun t hcommit htail => absurd htail (not_lt.2 hcommit) }

variable {s : QueueSystem ι κ T}

theorem Inv.storing_iff (h : Inv size s) (hx : s.reserved[n]? = some x) (i : ι) :
    s.Storing i n x ↔ slotOf (s.producers i) = some (n + 1) := by
  have hi := h.enqueues i
  unfold Storing
  cases hpc : s.producers i with
  | store y t =>
    rw [hpc] at hi
    simp only [EnqueuePc.store.injEq, reduceCtorEq, false_and, or_false, slotOf, Option.some.injEq]
    refine ⟨fun heq => heq.2, fun ht => ⟨?_, ht⟩⟩
    subst ht
    exact Option.some.inj (hi.2.2.symm.trans hx)
  | casCommit t =>
    rw [hpc] at hi
    simp only [reduceCtorEq, EnqueuePc.casCommit.injEq, false_or, slotOf, Option.some.injEq]
    refine ⟨fun heq => heq.1, fun ht => ⟨ht, ?_⟩⟩
    subst ht
    exact Option.some.inj (hi.2.2.symm.trans hx)
  | _ => simp [slotOf]

theorem Inv.inOrder (h : Inv size s) : InOrder size s where
  order := h.sound.head ▸ h.sound.order
  held n y hn hy := by
    have hlen : n < s.reserved.length := (List.getElem?_eq_some_iff.1 hy).1
    have htail := h.sound.tail
    have hhead := h.sound.head
    by_cases hcommit : n + 1 < s.queue.commit
    · have hslot := h.sound.slots (n + 1) (by omega) hcommit
      rw [Nat.add_sub_cancel, hy] at hslot
      exact .inl ⟨hcommit, (Option.some.inj hslot).symm⟩
    · obtain ⟨i, hi⟩ := h.owned.owned (n + 1) (by omega) (by omega)
      refine .inr ⟨i, (h.storing_iff hy i).2 hi, fun k hk => ?_⟩
      exact h.owned.unique k i (n + 1) ((h.storing_iff hy k).1 hk) hi
  next := h.sound.head
  bound := by
    have htail := h.sound.tail
    have hhead := h.sound.head
    have hroom := h.sound.room
    omega

section
variable [DecidableEq ι] {i : ι}

theorem Inv.producer {q' : BoundedQueue T} {reserved' : List T} (h : Inv size s) (pc : EnqueuePc T)
    (hsound : Sound size q' reserved' s.dequeued) (hpc : EnqueueOk size q' reserved' pc)
    (hothers : ∀ k, k ≠ i → EnqueueOk size q' reserved' (s.producers k))
    (hdeq : ∀ j, DequeueOk s.queue s.reserved (s.consumers j) →
      DequeueOk q' reserved' (s.consumers j)) (howned : Owned q' (update s.producers i pc)) :
    Inv size { s with
      queue := q', producers := update s.producers i pc, reserved := reserved' } where
  sound := hsound
  enqueues k := by grind
  dequeues j := hdeq j (h.dequeues j)
  owned := howned

theorem Inv.producer_same (h : Inv size s) (i : ι) (pc : EnqueuePc T)
    (hpc : EnqueueOk size s.queue s.reserved pc) (hslot : slotOf pc = slotOf (s.producers i)) :
    Inv size { s with producers := update s.producers i pc } :=
  h.producer pc h.sound hpc (fun k _ => h.enqueues k) (fun _ hj => hj) (h.owned.same i pc hslot)

end

section
variable [DecidableEq κ] {j : κ}

theorem Inv.consumer_same (h : Inv size s) (j : κ) (pc : DequeuePc T)
    (hpc : DequeueOk s.queue s.reserved pc) :
    Inv size { s with consumers := update s.consumers j pc } where
  sound := h.sound
  enqueues := h.enqueues
  dequeues k := by
    by_cases hk : k = j
    · grind
    · simpa only [update_of_ne hk] using h.dequeues k
  owned := h.owned

theorem Inv.take {m : Nat} (h : Inv size s) (hpc : s.consumers j = .casHead m x)
    (hm : s.queue.head = m) :
    Inv size { s with
      queue := { s.queue with head := m + 1 }
      consumers := update s.consumers j (.returned (some x))
      dequeued := s.dequeued ++ [x] } := by
  have hj := h.dequeues j
  rw [hpc] at hj
  subst hm
  obtain ⟨hcommit, hx⟩ := hj.2 rfl
  refine ⟨h.sound.take hcommit hx, fun k => (h.enqueues k).take, fun k => ?_,
    h.owned.unique, h.owned.owned⟩
  by_cases hk : k = j
  · subst hk
    simp only [update_self]
    trivial
  · simpa only [update_of_ne hk] using (h.dequeues k).take

end

variable [DecidableEq ι] [DecidableEq κ]

theorem Inv.enqueue (h : Inv size s) (i : ι) (weak : Bool) :
    Inv size (s.step (.enqueue i weak)) := by
  have hi := h.enqueues i
  simp only [step]
  cases hpc : s.producers i with
  | idle result =>
    rw [hpc] at hi
    simpa using h.producer_same i _ hi (by rw [hpc])
  | loadTail y =>
    simpa using h.producer_same i (.loadHead y s.queue.tail) (le_refl _) (by rw [hpc]; rfl)
  | loadHead y t =>
    rw [hpc] at hi
    by_cases hidx : s.queue.getIndex (t + 1) = s.queue.getIndex s.queue.head
    · simpa [hidx] using h.producer_same i (.idle (some false)) trivial (by rw [hpc]; rfl)
    · -- if the tail has not moved since, there is room for one more
      have hroom : t = s.queue.tail → t ≤ s.queue.head + size := by
        rintro rfl
        exact h.sound.room_of_index hidx
      simpa [hidx] using h.producer_same i (.casTail y t) ⟨hi, hroom⟩ (by rw [hpc]; rfl)
  | casTail y t =>
    rw [hpc] at hi
    by_cases hcas : s.queue.tail = t ∧ weak = false
    · obtain ⟨rfl, rfl⟩ := hcas
      have htail := h.sound.tail
      have hcommit := h.sound.commit_le
      have hown : EnqueueOk size { s.queue with tail := s.queue.tail + 1 } (s.reserved ++ [y])
          (.store y s.queue.tail) := ⟨hcommit, lt_succ_self _, by simp [htail]⟩
      have howned : Owned { s.queue with tail := s.queue.tail + 1 }
          (update s.producers i (.store y s.queue.tail)) :=
        h.owned.reserve (fun k t hk => ((h.enqueues k).slot hk).2) (by rw [hpc]; rfl) rfl
      simpa using
        h.producer _ (h.sound.reserve (hi.2 rfl) y) hown (fun k _ => (h.enqueues k).reserve y)
          (fun _ hj => hj.reserve y) howned
    · simpa [hcas] using
        h.producer_same i (.loadHead y s.queue.tail) (le_refl _) (by rw [hpc]; rfl)
  | store y t =>
    rw [hpc] at hi
    obtain ⟨hcommit, htail, hy⟩ := hi
    have hother : ∀ k, k ≠ i → slotOf (s.producers k) ≠ some t := fun k hk heq =>
      hk (h.owned.unique k i t heq (by rw [hpc]; rfl))
    have howned := h.owned.same i (.casCommit t) (by rw [hpc]; rfl)
    have hpool : update s.queue.pool (s.queue.getIndex t) y (s.queue.getIndex t) = y :=
      update_self _ _ _
    have hown : EnqueueOk size
        { s.queue with pool := update s.queue.pool (s.queue.getIndex t) y } s.reserved
        (.casCommit t) := ⟨hcommit, htail, hy.trans (congrArg some hpool.symm)⟩
    simpa using
      h.producer _ (h.sound.store hcommit htail y) hown
        (fun k hk => (h.enqueues k).store h.sound hcommit htail (hother k hk) y)
        (fun _ hj => hj.store y) ⟨howned.unique, howned.owned⟩
  | casCommit t =>
    rw [hpc] at hi
    by_cases hcas : s.queue.commit = t ∧ weak = false
    · obtain ⟨rfl, rfl⟩ := hcas
      have hslot : slotOf (s.producers i) = some s.queue.commit := by
        rw [hpc]
        rfl
      have hother : ∀ k, k ≠ i → slotOf (s.producers k) ≠ some s.queue.commit := fun k hk heq =>
        hk (h.owned.unique k i _ heq hslot)
      simpa using
        h.producer .notify (h.sound.commit hi.2.1 hi.2.2) trivial
          (fun k hk => (h.enqueues k).commit (hother k hk)) (fun _ hj => hj.commit)
          (h.owned.commit hslot rfl)
    · simpa [hcas] using h.producer_same i (.casCommit t) hi (by rw [hpc])
  | notify => simpa using h.producer_same i (.idle (some true)) trivial (by rw [hpc]; rfl)

theorem Inv.dequeue (h : Inv size s) (j : κ) (weak : Bool) :
    Inv size (s.step (.dequeue j weak)) := by
  have hj := h.dequeues j
  simp only [step]
  cases hpc : s.consumers j with
  | loadHead => simpa using h.consumer_same j (.loadCommit s.queue.head) (le_refl _)
  | loadCommit m =>
    rw [hpc] at hj
    by_cases hempty : m + 1 = s.queue.commit
    · simpa [hempty] using h.consumer_same j (.returned none) trivial
    · have hlt : m = s.queue.head → m + 1 < s.queue.commit := by
        have := h.sound.head_lt
        omega
      simpa [hempty] using h.consumer_same j (.read m) ⟨hj, hlt⟩
  | read m =>
    rw [hpc] at hj
    -- if the head has not moved since, the slot is one of those that are committed
    have hread : m = s.queue.head → m + 1 < s.queue.commit ∧
        s.reserved[m]? = some (s.queue.pool (s.queue.getIndex (m + 1))) := by
      intro hm
      refine ⟨hj.2 hm, ?_⟩
      have hslot := h.sound.slots (m + 1) (by omega) (hj.2 hm)
      rwa [Nat.add_sub_cancel] at hslot
    simpa using
      h.consumer_same j (.casHead m (s.queue.pool (s.queue.getIndex (m + 1)))) ⟨hj.1, hread⟩
  | casHead m y =>
    by_cases hcas : s.queue.head = m ∧ weak = false
    · simpa [hcas] using h.take hpc hcas.1
    · simpa [hcas] using h.consumer_same j (.loadCommit s.queue.head) (le_refl _)
  | returned y => simpa using h.consumer_same j (.returned y) trivial

theorem Inv.step (h : Inv size s) (ev : QueueEvent ι κ T) : Inv size (s.step ev) := by
  cases ev with
  | enqueue i weak => exact h.enqueue i weak
  | dequeue j weak => exact h.dequeue j weak
  | callEnqueue i y =>
    simp only [QueueSystem.step]
    split
    · rename_i result hpc
      exact h.producer_same i (.loadTail y) trivial (by rw [hpc]; rfl)
    · exact h
  | callDequeue j =>
    simp only [QueueSystem.step]
    split
    · exact h.consumer_same j .loadHead trivial
    · exact h

/-- **`Dequeue` returns false only when the queue holds nothing**, for any size and any run. -/
theorem along_falseOnlyIfEmpty [Inhabited T] (size : Nat) (evs : List (QueueEvent ι κ T)) :
    Along step (fun s ev => ∀ j weak, ev = .dequeue j weak → s.consumers j ≠ .returned none →
      (s.step ev).consumers j = .returned none → ¬ s.queue.Holds) (init size) evs := by
  refine along_of_inv (Inv.init size) (fun s ev h => ?_) fun s ev h => h.step ev
  rintro j weak rfl hcalled hfalse hholds
  simp only [step, update_self] at hfalse
  have hlt := h.sound.head_lt
  have hj := h.dequeues j
  cases hp : s.consumers j with
  | loadCommit oldHead =>
    -- the head that was read may be an old one, but `commit_` is past the present one
    simp only [hp, DequeueOk, Holds] at hj hholds
    by_cases hcommit : oldHead + 1 = s.queue.commit
    · omega
    · simp [hp, hcommit] at hfalse
  | casHead oldHead x =>
    by_cases hcas : s.queue.head = oldHead ∧ weak = false <;> simp [hp, hcas] at hfalse
  | returned x => simp_all
  | _ => simp [hp] at hfalse

/-- **A `Dequeue` that is left alone returns within six steps**, in any state of any run, and with
an element if and only if the queue holds one. -/
theorem always_dequeues_alone [Inhabited T] (size : Nat) (evs : List (QueueEvent ι κ T)) :
    Always step (fun s => ∀ j, ∃ x, ((.callDequeue j :: .replicate 6 (.dequeue j false)).foldl step
      s).consumers j = .returned x ∧ (x.isSome ↔ s.queue.Holds)) (init size) evs := by
  refine always_of_inv (Inv.init size) (fun s ev h => h.step ev) fun s h j => ?_
  have hlt := h.sound.head_lt
  have hj := h.dequeues j
  simp only [List.replicate, List.foldl_cons, List.foldl_nil, step, Holds]
  by_cases hcommit : s.queue.head + 1 = s.queue.commit <;> cases hp : s.consumers j with
  | loadHead | returned => simp [hp, hcommit]
  | loadCommit m | read m | casHead m =>
    rw [hp] at hj
    rcases eq_or_lt_of_le (by grind [DequeueOk] : m ≤ s.queue.head) with rfl | hm
    · simp_all [DequeueOk]
    · -- an old head is before `commit_`, and its compare-exchange fails
      have hold : m + 1 ≠ s.queue.commit ∧ s.queue.head ≠ m := by omega
      simp [hp, hcommit, hold]

/-!
## When an `Enqueue` is refused

An `Enqueue` compares the index behind the tail that it read with the index of `head_` now.
-/

theorem Sound.full_of_index (hq : Sound size q reserved dequeued) (ht : t ≤ q.tail)
    (hhead : q.head ≤ t) (hidx : q.getIndex (t + 1) = q.getIndex q.head) :
    reserved.length = dequeued.length + size := by
  have hroom := hq.room
  have htail := hq.tail
  have hdeq := hq.head
  by_contra hfull
  rw [getIndex_eq, getIndex_eq, hq.poolSize] at hidx
  exact mod_ne_of_lt (show q.head < t + 1 by omega) (by omega) hidx.symm

variable {i : ι}

theorem refused_inv {ev : QueueEvent ι κ T} (hrun : (s.producers i).running = true)
    (hfalse : (s.step ev).producers i = .idle (some false)) :
    ∃ weak y u, ev = .enqueue i weak ∧ s.producers i = .loadHead y u ∧
      s.queue.getIndex (u + 1) = s.queue.getIndex s.queue.head := by
  have hsame : s.producers i ≠ .idle (some false) := by
    intro hpc
    rw [hpc] at hrun
    cases hrun
  cases ev with
  | callEnqueue k y =>
    simp only [step] at hfalse
    split at hfalse
    all_goals grind
  | callDequeue j =>
    simp only [step] at hfalse
    split at hfalse <;> exact absurd hfalse hsame
  | dequeue j weak => exact absurd hfalse hsame
  | enqueue k weak =>
    by_cases hk : i = k
    · subst hk
      simp only [step, update_self] at hfalse
      cases hpc : s.producers i with
      | loadHead y u =>
        rw [hpc] at hfalse
        by_cases hidx : s.queue.getIndex (u + 1) = s.queue.getIndex s.queue.head
        · exact ⟨weak, y, u, rfl, rfl, hidx⟩
        · simp [enqueueStep, hidx] at hfalse
      | idle result =>
        rw [hpc] at hrun
        cases hrun
      | casTail y u =>
        rw [hpc, enqueueStep] at hfalse
        split at hfalse <;> cases hfalse
      | casCommit u =>
        rw [hpc, enqueueStep] at hfalse
        split at hfalse <;> cases hfalse
      | loadTail | store | notify =>
        rw [hpc, enqueueStep] at hfalse
        cases hfalse
    · simp only [step, update_of_ne hk] at hfalse
      exact absurd hfalse hsame

def NotOvertaken (s : QueueSystem ι κ T) : QueueEvent ι κ T → Prop
  | .enqueue i _ => (s.producers i).overtaken s.queue = false
  | _ => True

instance (s : QueueSystem ι κ T) (ev : QueueEvent ι κ T) : Decidable (s.NotOvertaken ev) := by
  cases ev <;> unfold NotOvertaken <;> infer_instance

/-- **False means full**, as long as no `Enqueue` compares a tail that `head_` has passed. -/
theorem falseOnlyIfFull_of_notOvertaken [Inhabited T] (size : Nat) (evs : List (QueueEvent ι κ T))
    (hok : Along QueueSystem.step NotOvertaken (init size) evs) :
    FalseOnlyIfFull size (init size) evs := by
  intro pre ev suf i hevs hrun hfalse
  have hinv : Inv size (pre.foldl QueueSystem.step (init size)) :=
    List.foldlRecOn (motive := Inv size) pre _ (Inv.init size) fun s hs ev _ => hs.step ev
  have hpass := along_iff.1 hok pre ev suf hevs
  obtain ⟨weak, y, u, rfl, hpc, hidx⟩ := refused_inv hrun hfalse
  have htail := hinv.enqueues i
  simp only [NotOvertaken, hpc, EnqueuePc.overtaken, hidx, and_true, decide_eq_false_iff_not,
    not_lt] at hpass
  rw [hpc] at htail
  -- the moment of the comparison itself
  refine ⟨pre, [], (List.append_nil pre).symm, ?_, hrun⟩
  exact hinv.sound.full_of_index htail hpass hidx

def refusedRun : List (QueueEvent Unit Unit Nat) :=
  [.callEnqueue () 7] ++ List.replicate 6 (.enqueue () false) ++
    [.callEnqueue () 8, .enqueue () false, .enqueue () false]

theorem falseOnlyIfFull_refusedRun :
    (refusedRun.foldl QueueSystem.step (init 1)).producers () = .idle (some false) ∧
      FalseOnlyIfFull 1 (init 1) refusedRun :=
  ⟨by decide +kernel, falseOnlyIfFull_of_notOvertaken 1 refusedRun (by decide +kernel)⟩

def overtakenRun : List (QueueEvent Bool Unit Nat) :=
  [.callEnqueue false 7, .enqueue false false] ++
    ((List.replicate 2 ([.callEnqueue true 8] ++ List.replicate 6 (.enqueue true false) ++
      [.callDequeue ()] ++ List.replicate 4 (.dequeue () false))).flatten) ++
    [.enqueue false false]

/-- **A queue that is never full refuses an element.** A queue of size 2 never holds more than one
element, and it is empty when an `Enqueue` returns false. -/
theorem not_falseOnlyIfFull_overtaken :
    ¬ FalseOnlyIfFull 2 (init 2) overtakenRun := by
  intro h
  have hnever : Always QueueSystem.step (fun s => ¬ s.Full 2) (init 2)
      overtakenRun := by decide +kernel
  obtain ⟨before, during, hpre, hfull, -⟩ :=
    h (overtakenRun.dropLast) (.enqueue false false) [] false rfl (by decide +kernel)
      (by decide +kernel)
  refine always_iff.1 hnever before (during ++ [.enqueue false false]) ?_ hfull
  rw [← List.append_assoc, ← hpre]
  rfl

end Base.QueueSystem
