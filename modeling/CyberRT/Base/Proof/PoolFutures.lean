import CyberRT.Base.Proof.QueueOrder

/-!
# The future of an `Enqueue` (`base/thread_pool.h`, `task/task_manager.h`)

`ThreadPool::Enqueue` and `TaskManager::Enqueue` read `stop_`, push the task into a `BoundedQueue`
and return its future; the result of the push is not looked at.
-/

namespace Base

open Function Lib List QueueSystem BoundedQueue EnqueuePc

variable {ι κ T : Type*}

namespace FutureSystem

section
variable {q q' : BoundedQueue T} {reserved l dequeued : List T} {x : T} {pc : EnqueuePc T}
  {size : Nat}

def Committed (q : BoundedQueue T) (reserved : List T) (x : T) : Prop :=
  ∃ n, n + 1 < q.commit ∧ reserved[n]? = some x

theorem committed_iff (h : Sound size q reserved dequeued) :
    Committed q reserved x ↔ x ∈ q.elements ∨ x ∈ dequeued := by
  have hlt := h.head_lt
  simp only [elements, mem_map, mem_range'_1]
  constructor
  · rintro ⟨n, hn, hx⟩
    by_cases hhead : q.head ≤ n
    · have hslot := h.slots (n + 1) (by omega) hn
      rw [Nat.add_sub_cancel, hx] at hslot
      exact .inl ⟨n + 1, by omega, (Option.some.inj hslot).symm⟩
    · right
      rw [h.order]
      exact mem_of_getElem? ((getElem?_take_of_lt (by omega)).trans hx)
  · rintro (⟨t, ht, rfl⟩ | hx)
    · exact ⟨t - 1, by omega, h.slots t (by omega) (by omega)⟩
    · rw [h.order] at hx
      obtain ⟨n, hn, hx⟩ := mem_take_iff_getElem.1 hx
      exact ⟨n, by omega, hx ▸ getElem?_eq_getElem _⟩

theorem Committed.mono (h : Committed q reserved x) (hq : q.commit ≤ q'.commit) (l : List T) :
    Committed q' (reserved ++ l) x := by
  obtain ⟨n, hn, hx⟩ := h
  exact ⟨n, by omega, getElem?_append_some l hx⟩

/-- How far the task `x` of a call has come. -/
def PushOk (q : BoundedQueue T) (reserved : List T) (x : T) : EnqueuePc T → Prop
  | .idle r => if r = some false then x ∉ reserved else Committed q reserved x
  | .loadTail y | .loadHead y _ | .casTail y _ => y = x ∧ x ∉ reserved
  | .store y _ => y = x
  | .casCommit t => reserved[t - 1]? = some x
  | .notify => Committed q reserved x

theorem PushOk.mono (h : PushOk q reserved x pc) (hq : q.commit ≤ q'.commit) (hl : x ∉ l) :
    PushOk q' (reserved ++ l) x pc := by
  have hnot : x ∉ reserved → x ∉ reserved ++ l := fun hx => by simp [hx, hl]
  cases pc with
  | idle r =>
    by_cases hr : r = some false
    · simp only [PushOk, if_pos hr] at h ⊢
      exact hnot h
    · simp only [PushOk, if_neg hr] at h ⊢
      exact h.mono hq l
  | loadTail | loadHead | casTail => exact ⟨h.1, hnot h.2⟩
  | store => exact h
  | casCommit => exact getElem?_append_some l h
  | notify => exact Committed.mono h hq l

attribute [local simp] enqueueStep reservation PushOk

theorem PushOk.step (h : PushOk q reserved x pc) (hq : Sound size q reserved dequeued)
    (hpc : EnqueueOk size q reserved pc) (weak : Bool) :
    PushOk (q.enqueueStep weak pc).2 (reserved ++ pc.reservation (q.enqueueStep weak pc).1) x
        (q.enqueueStep weak pc).1 ∧
      (∀ y ∈ pc.reservation (q.enqueueStep weak pc).1, y = x) ∧
      q.commit ≤ (q.enqueueStep weak pc).2.commit := by
  cases pc with
  | idle | loadTail | notify => simpa using h
  | loadHead y t =>
    by_cases hidx : q.getIndex (t + 1) = q.getIndex q.head
    · simpa [hidx] using h.2
    · simpa [hidx] using h
  | casTail y t =>
    by_cases hcas : q.tail = t ∧ weak = false
    · simpa [hcas] using h.1
    · simpa [hcas] using h
  | store y t =>
    obtain rfl : y = x := h
    simpa using hpc.2.2
  | casCommit t =>
    by_cases hcas : q.commit = t ∧ weak = false
    · have hlt := hq.head_lt
      simp only [enqueueStep, hcas, reservation, and_self, if_true,
        append_nil, PushOk]
      exact ⟨⟨t - 1, by simp only; omega, h⟩, by simp, Nat.le_succ t⟩
    · simpa [hcas] using h

end

structure Inv (size : Nat) (s : FutureSystem ι κ) : Prop where
  queue : s.sys.Inv size
  fresh : ∀ x ∈ s.sys.reserved, x.2 ≤ s.made x.1
  calls : ∀ i, (s.sys.producers i).running = true →
    PushOk s.sys.queue s.sys.reserved (i, s.made i) (s.sys.producers i)
  futures : ∀ f ∈ s.futures, f.valid = true → f.stopped = false →
    Committed s.sys.queue s.sys.reserved f.task

theorem Inv.init [Inhabited ι] (size : Nat) : Inv size (init size : FutureSystem ι κ) where
  queue := QueueSystem.Inv.init size
  fresh _ h := absurd h not_mem_nil
  calls _ h := by cases h
  futures _ h := absurd h not_mem_nil

variable {size : Nat} {s : FutureSystem ι κ} {i : ι}

section
variable (h : Inv size s)
include h

theorem Inv.kept : s.Kept := fun f hf hv hs =>
  (committed_iff h.queue.sound).1 (h.futures f hf hv hs)

theorem Inv.future {f : TaskFuture ι} (hf : f.valid = true → f.stopped = false →
    Committed s.sys.queue s.sys.reserved f.task) :
    Inv size { s with futures := s.futures ++ [f] } := by
  refine { h with futures := fun g hg => ?_ }
  rcases mem_append.1 hg with hg | hg
  · exact h.futures g hg
  · obtain rfl := mem_singleton.1 hg
    exact hf

theorem Inv.move {sys : QueueSystem ι κ (ι × Nat)} {l : List (ι × Nat)}
    (hsys : sys.Inv size) (hreserved : sys.reserved = s.sys.reserved ++ l)
    (hl : ∀ x ∈ l, x.2 ≤ s.made x.1) (hcommit : s.sys.queue.commit ≤ sys.queue.commit)
    (hcalls : ∀ k, sys.producers k = s.sys.producers k ∧ (k, s.made k) ∉ l ∨
      PushOk sys.queue sys.reserved (k, s.made k) (sys.producers k)) : Inv size { s with sys } where
  queue := hsys
  fresh x hx := by
    rcases mem_append.1 (hreserved ▸ hx) with hx | hx
    · exact h.fresh x hx
    · exact hl x hx
  calls k hrun := by
    rcases hcalls k with ⟨hp, hk⟩ | hk
    · simp only [hp, hreserved] at hrun ⊢
      exact (h.calls k hrun).mono hcommit hk
    · exact hk
  futures f hf hv hs := hreserved ▸ (h.futures f hf hv hs).mono hcommit l

variable [DecidableEq ι]

theorem Inv.make (hidle : ¬ (s.sys.producers i).running = true) :
    Inv size { s with made := update s.made i (s.made i + 1) } := by
  refine { h with fresh := fun x hx => ?_, calls := fun k hrun => ?_ }
  · have hle := h.fresh x hx
    simp only [update_apply]
    split
    · rename_i hxi
      exact Nat.le_succ_of_le (hxi ▸ hle)
    · exact hle
  · have hk : k ≠ i := fun hk => hidle (hk ▸ hrun)
    simpa only [update_of_ne hk] using h.calls k hrun

variable [DecidableEq κ]

theorem Inv.push (hrun : (s.sys.producers i).running = true) (weak : Bool) :
    Inv size { s with sys := s.sys.step (.enqueue i weak) } ∧
      PushOk (s.sys.step (.enqueue i weak)).queue (s.sys.step (.enqueue i weak)).reserved
        (i, s.made i) ((s.sys.step (.enqueue i weak)).producers i) := by
  obtain ⟨hown, hnew, hcommit⟩ := (h.calls i hrun).step h.queue.sound (h.queue.enqueues i) weak
  simp only [QueueSystem.step, update_self]
  refine ⟨h.move (h.queue.step (.enqueue i weak)) rfl (fun x hx => by rw [hnew x hx]) hcommit
    fun k => ?_, hown⟩
  by_cases hk : k = i
  · right
    subst hk
    simpa only [QueueSystem.step, update_self] using hown
  · exact .inl ⟨update_of_ne hk _ _, fun hx => hk (congrArg Prod.fst (hnew _ hx))⟩

theorem Inv.enqueue (pool : Pool) (i : ι) : Inv size (s.step pool (.enqueue i)) := by
  simp only [FutureSystem.step]
  split
  · exact h
  · rename_i hidle
    have hmake := h.make hidle
    split
    · exact hmake.future fun _ hs => by cases hs
    · cases hp : s.sys.producers i with
      | idle r =>
        have hsys := h.queue.step (.callEnqueue i (i, s.made i + 1))
        simp only [QueueSystem.step, hp] at hsys ⊢
        refine hmake.move (l := []) hsys (append_nil _).symm (by simp) (Nat.le_refl _) fun k => ?_
        by_cases hk : k = i
        · right
          subst hk
          simp only [update_self]
          exact ⟨rfl, fun hx => Nat.not_succ_le_self _ (h.fresh _ hx)⟩
        · exact .inl ⟨update_of_ne hk _ _, not_mem_nil⟩
      | _ => simp [hp, running] at hidle

omit h in
theorem refused_iff (hrun : (s.sys.producers i).running = true) (weak : Bool) :
    (s.sys.step (.enqueue i weak)).producers i = .idle (some false) ↔
      ∃ x t, s.sys.producers i = .loadHead x t ∧
        s.sys.queue.getIndex (t + 1) = s.sys.queue.getIndex s.sys.queue.head := by
  simp only [QueueSystem.step, update_self]
  cases hp : s.sys.producers i with
  | idle => simp [hp, running] at hrun
  | loadTail | store | notify => simp [enqueueStep]
  | loadHead | casTail | casCommit => grind [enqueueStep]

theorem Inv.step (pool : Pool) (ev : FutureEvent ι κ) (hok : s.NotRefused ev) :
    Inv size (s.step pool ev) := by
  cases ev with
  | enqueue i => exact h.enqueue pool i
  | push i weak =>
    simp only [FutureSystem.step]
    split
    · rename_i hrun
      obtain ⟨hinv, hpush⟩ := h.push hrun weak
      split
      · exact hinv
      · rename_i hidle
        refine hinv.future fun _ hs => ?_
        dsimp only at hidle ⊢
        cases hp : (s.sys.step (.enqueue i weak)).producers i with
        | idle r =>
          rw [hp, PushOk, if_neg] at hpush
          · exact hpush
          · rintro rfl
            obtain ⟨x, t, hload, heq⟩ := (refused_iff hrun weak).1 hp
            exact hok hs x t hload heq
        | _ => simp [hp, running] at hidle
    · exact h
  | callDequeue j =>
    refine h.move (l := []) (h.queue.step (.callDequeue j)) ?_ (by simp) ?_
        fun k => .inl ⟨?_, not_mem_nil⟩ <;>
      simp only [QueueSystem.step] <;> split <;> simp
  | dequeue j weak =>
    refine h.move (l := []) (h.queue.step (.dequeue j weak)) (append_nil _).symm (by simp) ?_
      fun k => .inl ⟨rfl, not_mem_nil⟩
    simp only [QueueSystem.step]
    cases s.sys.consumers j <;> grind [dequeueStep]
  | shutdown => exact { h with }

theorem Inv.notRefused {pool : Pool} {ev : FutureEvent ι κ}
    (hkept : (s.step pool ev).Kept) : s.NotRefused ev := by
  cases ev with
  | push i weak =>
    intro hstop x t hload heq
    have hrun : (s.sys.producers i).running = true := by rw [hload]; rfl
    have hp := (refused_iff hrun weak).2 ⟨x, t, hload, heq⟩
    obtain ⟨hinv, hpush⟩ := h.push hrun weak
    have hidle : ((s.sys.step (.enqueue i weak)).producers i).running = false := by rw [hp]; rfl
    simp only [FutureSystem.step, hrun, hidle, if_true, Bool.false_eq_true, if_false] at hkept
    -- the future of the task that got no slot
    have hlast := hkept ⟨(i, s.made i), true, s.stop⟩ (by simp) rfl hstop
    rw [hp, PushOk, if_pos rfl] at hpush
    obtain ⟨n, -, hx⟩ := (committed_iff hinv.queue.sound).2 hlast
    exact hpush (mem_of_getElem? hx)
  | enqueue | callDequeue | dequeue | shutdown => trivial

end

/-- **A valid future and a queued task**, for both classes, any size of the queue and any run: the
task of each valid future that was returned before the shutdown is in the queue or was taken by a
worker if and only if no push is refused. -/
theorem kept_iff_notRefused [DecidableEq ι] [DecidableEq κ] [Inhabited ι] (pool : Pool)
    (size : Nat) (evs : List (FutureEvent ι κ)) :
    Always (step pool) Kept (init size) evs ↔ Along (step pool) NotRefused (init size) evs := by
  apply always_iff_along_of_inv (Inv.init size)
  · intro s h
    exact h.kept
  · intro s ev h hok
    exact h.step pool ev hok
  · intro s ev h hkept
    exact h.notRefused hkept

/-- **The full queue**: room for one task, two calls, and no worker has come to its `Dequeue`. -/
theorem not_kept_full : ¬ Always (step .threadPool) Kept (init 1 : FutureSystem Unit Unit)
    (.enqueue () :: replicate 6 (.push () false) ++ .enqueue () :: replicate 2 (.push () false)) :=
  by decide +kernel

/-! ## The order in which tasks are taken -/

def InCallOrder (l : List (ι × Nat)) : Prop := l.Pairwise fun x y => x.1 = y.1 → x.2 < y.2

/-- What holds also where pushes are refused. -/
structure Ordered (size : Nat) (s : FutureSystem ι κ) : Prop where
  inv : Inv size { s with futures := [] }
  reserved : InCallOrder s.sys.reserved

variable [DecidableEq ι] [DecidableEq κ]

theorem Ordered.push (h : Ordered size s) (hrun : (s.sys.producers i).running = true)
    (weak : Bool) : InCallOrder (s.sys.step (.enqueue i weak)).reserved := by
  refine pairwise_append.2 ⟨h.reserved, ?_⟩
  have hpush := h.inv.calls i hrun
  cases hp : s.sys.producers i with
  | casTail y t =>
    have hfresh := h.inv.fresh
    simp only [hp, PushOk] at hpush
    by_cases hcas : s.sys.queue.tail = t ∧ weak = false <;>
      simp [reservation, hcas]
    -- the caller's tasks that have a slot are from its earlier calls
    grind
  | _ => simp [reservation]

theorem Ordered.step (h : Ordered size s) (pool : Pool) (ev : FutureEvent ι κ) :
    Ordered size (s.step pool ev) := by
  have hold := h.reserved
  cases ev with
  | push i weak =>
    by_cases hrun : (s.sys.producers i).running = true
    · simp only [FutureSystem.step, if_pos hrun]
      split <;> exact ⟨(h.inv.push hrun weak).1, h.push hrun weak⟩
    · rwa [FutureSystem.step, if_neg hrun]
  | enqueue i =>
    have hinv := h.inv.enqueue pool i
    simp only [FutureSystem.step] at hinv ⊢
    split_ifs at hinv ⊢
    · exact h
    · exact ⟨{ hinv with futures := by simp }, hold⟩
    · exact ⟨hinv, by grind [QueueSystem.step]⟩
  | callDequeue j =>
    exact ⟨h.inv.step pool (.callDequeue j) trivial, by grind [FutureSystem.step, QueueSystem.step]⟩
  | dequeue j weak => exact ⟨h.inv.step pool (.dequeue j weak) trivial, hold⟩
  | shutdown => exact ⟨{ h.inv with }, hold⟩

end FutureSystem

end Base
