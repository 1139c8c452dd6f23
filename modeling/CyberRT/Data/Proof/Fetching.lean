import CyberRT.Lib.Ring
import CyberRT.Data.CacheBuffer
import CyberRT.Lib.Run

/-!
# What a visitor fetches

`Holds b size log`: the last `size` of the messages `log` are in the ring at their positions
(`Holds.get`).
-/

namespace Data

open Lib List VisitorRun

variable {T : Type*} [Inhabited T]

namespace CacheBuffer

structure Holds (b : CacheBuffer T) (size : Nat) (log : List T) : Prop where
  capacity : b.capacity = size + 1
  tail : b.tail = log.length
  head : b.head = log.length - size
  ring : InRing (size + 1) b.buffer (default :: log)

theorem holds_new (size : Nat) : (new size : CacheBuffer T).Holds size [] where
  capacity := rfl
  tail := rfl
  head := (Nat.zero_sub size).symm
  ring n x hn _ := by
    cases n with
    | zero => simpa [new] using hn
    | succ n => simp at hn

variable {b : CacheBuffer T} {size : Nat} {log : List T}

section
variable (h : b.Holds size log)
include h

theorem Holds.fill (m : T) : (b.fill m).Holds size (log ++ [m]) := by
  have hpush : InRing (size + 1) (Function.update b.buffer ((log.length + 1) % (size + 1)) m)
      (default :: (log ++ [m])) := h.ring.push m
  have hlen : (log ++ [m]).length = log.length + 1 := by simp
  unfold CacheBuffer.fill
  by_cases hfull : b.full = true
  · -- `head_` is `size + 1` before the new position, so it has the same slot
    have hsize : size ≤ log.length := by
      simp only [full, h.capacity, h.tail, h.head, beq_iff_eq] at hfull
      omega
    have hslot : b.getIndex b.head = (log.length + 1) % (size + 1) := by
      rw [getIndex, h.capacity, h.head, ← Nat.add_mod_right]
      congr 1
      omega
    rw [if_pos hfull]
    refine ⟨h.capacity, ?_, ?_, ?_⟩
    · rw [hlen, ← h.tail]
    · change b.head + 1 = _
      rw [h.head, hlen]
      omega
    · grind
  · have hsize : log.length < size := by
      simp only [full, h.capacity, h.tail, h.head, beq_iff_eq] at hfull
      omega
    rw [if_neg hfull]
    refine ⟨h.capacity, ?_, ?_, ?_⟩
    · rw [hlen, ← h.tail]
    · rw [h.head, hlen]
      omega
    · rw [getIndex, h.capacity, h.tail]
      exact hpush

theorem Holds.get {p : Nat} (hp : 0 < p) (hle : p ≤ log.length)
    (hsize : log.length ≤ p + size) : log[p - 1]? = some (b.get p) := by
  have hlt : p - 1 < log.length := by omega
  have hcons : (default :: log)[p]? = some (log.get ⟨p - 1, hlt⟩) := by grind
  have hslot := h.ring p _ hcons (by rw [length_cons]; omega)
  rw [CacheBuffer.get, getIndex, h.capacity, hslot]
  simp

theorem Holds.empty_iff : b.empty = true ↔ log = [] := by
  rw [empty, h.tail, beq_iff_eq, length_eq_zero_iff]

theorem Holds.latest : b.latest = log.getLast? := by
  unfold CacheBuffer.latest
  by_cases hlog : log = []
  · rw [if_pos (h.empty_iff.2 hlog), hlog]
    rfl
  · have hpos : 0 < log.length := length_pos_iff.2 hlog
    have hget := h.get hpos (Nat.le_refl _) (Nat.le_add_right _ _)
    rw [if_neg (fun he => hlog (h.empty_iff.1 he)), getLast?_eq_getElem?, hget, ← h.tail]
    rfl

theorem Holds.fetchMulti (n : Nat) : b.fetchMulti n =
    if log = [] then none else some (log.drop (log.length - min size n)) := by
  simp only [CacheBuffer.fetchMulti, h.empty_iff, CacheBuffer.size, h.tail, h.head]
  refine ite_congr rfl (fun _ => rfl) fun _ => congrArg some (ext_getElem? fun i => ?_)
  rw [getElem?_map, getElem?_drop]
  by_cases hi : i < min (log.length - (log.length - size)) n
  · rw [getElem?_range' hi, Option.map_some, ← h.get (by omega) (by omega) (by omega)]
    congr 1
    omega
  · rw [getElem?_eq_none (by rw [length_range']; omega), getElem?_eq_none (by omega)]
    rfl

end

/-- **What an observer of a channel gets**: after any calls of `Fill`, `FetchMulti` returns the last
`n` messages, or as many as the buffer keeps, in the order in which they were filled. -/
theorem fetchMulti_fills (size n : Nat) (msgs : List T) :
    (msgs.foldl CacheBuffer.fill (new size)).fetchMulti n =
      if msgs = [] then none else some (msgs.drop (msgs.length - min size n)) := by
  refine Holds.fetchMulti ?_ n
  induction msgs using List.reverseRecOn with
  | nil => exact holds_new size
  | append_singleton msgs m ih =>
    rw [foldl_append]
    exact ih.fill m

end CacheBuffer

namespace VisitorRun

variable {s : VisitorRun T} {size : Nat}

structure Inv (size : Nat) (s : VisitorRun T) : Prop where
  holds : s.visitor.buffer.Holds size s.filled
  index : s.visitor.nextMsgIndex = if s.last = 0 then 0 else s.last + 1
  le : s.last ≤ s.filled.length
  below : ∀ r ∈ s.fetched, 0 < r.1 ∧ r.1 ≤ s.last
  sorted : (s.fetched.map (·.1)).Pairwise (· < ·)
  msgs : ∀ r ∈ s.fetched, s.filled[r.1 - 1]? = some r.2
  sub : (s.fetched.map (·.2)).Sublist (s.filled.take s.last)

theorem inv_start (size : Nat) : Inv size (start size : VisitorRun T) where
  holds := CacheBuffer.holds_new size
  index := rfl
  le := Nat.le_refl 0
  below := by simp [start]
  sorted := by simp [start]
  msgs := by simp [start]
  sub := by simp [start]

omit [Inhabited T] in
theorem nextPos_bounds (hlt : s.last < s.filled.length) :
    s.last < s.nextPos size ∧ s.nextPos size ≤ s.filled.length := by
  unfold nextPos
  split <;> omega

theorem Inv.fetch (h : Inv size s) :
    (s.filled.length = s.last ∧ s.visitor.buffer.fetch s.visitor.nextMsgIndex =
      (none, s.visitor.nextMsgIndex)) ∨
    (s.last < s.filled.length ∧ ∃ m, s.filled[s.nextPos size - 1]? = some m ∧
      s.visitor.buffer.fetch s.visitor.nextMsgIndex = (some m, s.nextPos size)) := by
  have hle := h.le
  have htail := h.holds.tail
  have hfirst : s.visitor.buffer.first = s.filled.length - size + 1 := by
    rw [CacheBuffer.first, h.holds.head]
  unfold CacheBuffer.fetch
  by_cases hnil : s.filled = []
  · rw [if_pos (h.holds.empty_iff.2 hnil)]
    grind
  have hpos : 0 < s.filled.length := length_pos_iff.2 hnil
  -- the newest message is fetched from the tail
  have hnew := h.holds.get hpos (Nat.le_refl _) (Nat.le_add_right _ _)
  rw [if_neg (fun he => hnil (h.holds.empty_iff.1 he)), h.index, htail, hfirst]
  by_cases hzero : s.last = 0
  · have hnext : s.nextPos size = s.filled.length := by rw [nextPos, if_pos (.inl hzero)]
    grind
  rw [if_neg hzero, if_neg (Nat.succ_ne_zero _)]
  by_cases hend : s.last = s.filled.length
  · grind
  rw [if_neg (by omega)]
  by_cases hlag : s.last + 1 < s.filled.length - size + 1
  · -- the index fell out of the buffer
    have hnext : s.nextPos size = s.filled.length := by
      unfold nextPos
      split <;> omega
    grind
  · have hnext : s.nextPos size = s.last + 1 := by
      unfold nextPos
      split <;> omega
    rw [if_neg hlag, hnext]
    exact .inr ⟨by omega, _, h.holds.get (Nat.succ_pos _) (by omega) (by omega), rfl⟩

theorem Inv.fetchesNext (h : Inv size s) : s.FetchesNext size s.visitor.tryFetch := by
  unfold DataVisitor.tryFetch
  rcases h.fetch with ⟨hend, hf⟩ | ⟨hlt, m, hm, hf⟩
  · rw [hf]
    exact .inl ⟨hend, rfl⟩
  · rw [hf]
    exact .inr ⟨hlt, m, hm, rfl⟩

omit [Inhabited T] in
theorem last_append (s : VisitorRun T) (v : DataVisitor T) (r : Nat × T) :
    ({ s with visitor := v, fetched := s.fetched ++ [r], since := 0 } : VisitorRun T).last =
      r.1 := by
  simp [last]

theorem Inv.fill (h : Inv size s) (m : T) : Inv size (s.step (.fill m)) where
  holds := h.holds.fill m
  index := h.index
  le := by
    change s.last ≤ (s.filled ++ [m]).length
    rw [length_append]
    exact Nat.le_add_right_of_le h.le
  below := h.below
  sorted := h.sorted
  msgs r hr := by
    obtain ⟨hlt, -⟩ := List.getElem?_eq_some_iff.1 (h.msgs r hr)
    change (s.filled ++ [m])[r.1 - 1]? = _
    rw [getElem?_append_left hlt]
    exact h.msgs r hr
  sub := by
    change (s.fetched.map (·.2)).Sublist ((s.filled ++ [m]).take s.last)
    rw [take_append_of_le_length h.le]
    exact h.sub

theorem Inv.tryFetch (h : Inv size s) : Inv size (s.step .tryFetch) := by
  rcases h.fetchesNext with ⟨-, hr⟩ | ⟨hlt, m, hm, hr⟩
  · simp only [step, hr]
    exact h
  · have hpos : s.last < s.nextPos size ∧ s.nextPos size ≤ s.filled.length := nextPos_bounds hlt
    obtain ⟨hgt, hle⟩ := hpos
    have hlast := last_append s { s.visitor with nextMsgIndex := s.nextPos size + 1 }
      (s.nextPos size, m)
    simp only [step, hr, Nat.add_sub_cancel]
    refine ⟨h.holds, ?_, ?_, fun r hr => ?_, ?_, fun r hr => ?_, ?_⟩
    · rw [hlast, if_neg (by omega)]
    · rw [hlast]
      exact hle
    · rw [hlast]
      rcases mem_append.1 hr with hr | hr
      · have := h.below r hr
        omega
      · grind
    · rw [map_append, pairwise_append]
      refine ⟨h.sorted, by simp, fun p hp q hq => ?_⟩
      obtain ⟨r, hr, rfl⟩ := mem_map.1 hp
      have := h.below r hr
      grind
    · rcases mem_append.1 hr with hr | hr
      · exact h.msgs r hr
      · grind
    · -- the new message is the last of the first `nextPos`
      rw [hlast, map_append]
      obtain ⟨q, hq⟩ : ∃ q, s.nextPos size = q + 1 := ⟨s.nextPos size - 1, by omega⟩
      rw [hq, Nat.add_sub_cancel] at hm
      simp only [hq, take_add_one, hm, map_cons, map_nil, Option.toList_some]
      refine List.Sublist.append (h.sub.trans ?_) (List.Sublist.refl _)
      exact (take_prefix_take_left (by omega)).sublist

theorem Inv.step (h : Inv size s) (op : VisitorOp T) : Inv size (s.step op) := by
  cases op with
  | fill m => exact h.fill m
  | tryFetch => exact h.tryFetch

theorem inv_run (size : Nat) (ops : List (VisitorOp T)) : Inv size (ops.foldl step (start size)) :=
  List.foldlRecOn ops _ (inv_start size) fun _ hs op _ => hs.step op

/-- **What a visitor fetches**, after every sequence of calls and for every size: positions that
increase, with the messages filled there, in the order they were filled; and the next `TryFetch`
fetches what it is to fetch. -/
theorem fetches_in_order (size : Nat) (ops : List (VisitorOp T)) :
    let s := ops.foldl step (start size)
    (s.fetched.map (·.1)).Pairwise (· < ·) ∧
    (∀ r ∈ s.fetched, 0 < r.1 ∧ s.filled[r.1 - 1]? = some r.2) ∧
    (s.fetched.map (·.2)).Sublist s.filled ∧
    s.FetchesNext size s.visitor.tryFetch := by
  have h := inv_run size ops
  refine ⟨h.sorted, fun r hr => ⟨(h.below r hr).1, h.msgs r hr⟩, ?_, h.fetchesNext⟩
  exact h.sub.trans (take_sublist _ _)

/-- Two messages that are filled before one `TryFetch` are fetched by two: the second `TryFetch`
succeeds with nothing filled since the first. -/
theorem tryFetch_idle_succeeds :
    let s := [VisitorOp.fill 1, .tryFetch, .fill 2, .fill 3, .tryFetch].foldl step (start 3)
    ¬ (s.visitor.tryFetch.1 = none ↔ s.since = 0) := by
  decide +kernel

end VisitorRun

/-!
## What `AllLatest` fuses, and what its visitor gets

The buffers of the other channels give as `Latest` what arrived last, whatever their sizes
(`Fuses`).
-/

open Function

variable {k : Nat} {M0 : Type*} {M : Fin k → Type*} [Inhabited M0] [∀ i, Inhabited (M i)]
variable {a : AllLatest M0 M} {f : Fusing M0 M} {size0 : Nat} {sizes : Fin k → Nat}

structure Fuses (size0 : Nat) (sizes : Fin k → Nat) (a : AllLatest M0 M) (f : Fusing M0 M) :
    Prop where
  latest : ∀ i, ∃ log, (a.buffers i).Holds (sizes i) log ∧ log.getLast? = f.latest i
  produced : a.fusion.filled = f.produced
  visitor : a.fusion.Inv size0

theorem Fuses.start (size0 : Nat) (sizes : Fin k → Nat) :
    Fuses size0 sizes (.start size0 sizes : AllLatest M0 M) .start where
  latest i := ⟨[], CacheBuffer.holds_new (sizes i), rfl⟩
  produced := rfl
  visitor := inv_start size0

theorem Fuses.fuse (h : Fuses size0 sizes a f) (m0 : M0) :
    a.fuse m0 = (allSome f.latest).map fun ms => (m0, ms) := by
  have hlatest : (fun i => (a.buffers i).latest) = f.latest := by
    funext i
    obtain ⟨log, hlog, hlast⟩ := h.latest i
    rw [hlog.latest, hlast]
  rw [AllLatest.fuse, hlatest]

theorem Fuses.step (h : Fuses size0 sizes a f) (op : FusionOp M0 M) :
    Fuses size0 sizes (a.step op) (f.step op) := by
  cases op with
  | arrive0 m0 =>
    simp only [AllLatest.step, AllLatest.fusionCallback, h.fuse m0, Fusing.step]
    cases allSome f.latest with
    | none => exact h
    | some ms =>
      refine ⟨h.latest, ?_, h.visitor.step (.fill (m0, ms))⟩
      exact congrArg (· ++ [(m0, ms)]) h.produced
  | arrive i m =>
    refine ⟨fun j => ?_, h.produced, h.visitor⟩
    simp only [AllLatest.step, Fusing.step]
    by_cases hj : j = i
    · subst hj
      obtain ⟨log, hlog, -⟩ := h.latest j
      refine ⟨log ++ [m], ?_, ?_⟩
      · rw [update_self]
        exact hlog.fill m
      · rw [update_self, getLast?_concat]
    · rw [update_of_ne hj, update_of_ne hj]
      exact h.latest j
  | tryFetch =>
    refine ⟨h.latest, ?_, h.visitor.step .tryFetch⟩
    simp only [AllLatest.step, Fusing.step, VisitorRun.step]
    split <;> exact h.produced

structure Fetches (a : AllLatest M0 M) (f : Fusing M0 M) : Prop where
  count : f.produced.length = a.fusion.last + if f.pending then 1 else 0
  fetched : a.fusion.fetched.map (·.2) = f.produced.take a.fusion.last

omit [Inhabited M0] [∀ i, Inhabited (M i)] in
theorem Fetches.fill {data : Fused M0 M} (hf : Fetches a f) (hp : f.pending = false) :
    Fetches { a with fusion := a.fusion.step (.fill data) }
      { f with produced := f.produced ++ [data], pending := true } := by
  have hcount : f.produced.length = a.fusion.last := by simpa [hp] using hf.count
  refine ⟨?_, ?_⟩
  · change (f.produced ++ [data]).length = a.fusion.last + 1
    rw [length_append, length_singleton, hcount]
  · change a.fusion.fetched.map (·.2) = (f.produced ++ [data]).take a.fusion.last
    rw [take_append_of_le_length (Nat.le_of_eq hcount.symm)]
    exact hf.fetched

theorem Fetches.tryFetch (h : Fuses size0 sizes a f) (hf : Fetches a f) :
    Fetches { a with fusion := a.fusion.step .tryFetch } { f with pending := false } := by
  have hcount := hf.count
  rcases h.visitor.fetchesNext with ⟨hend, hr⟩ | ⟨hlt, m, hm, hr⟩
  · rw [h.produced] at hend
    simp only [VisitorRun.step, hr]
    refine ⟨?_, hf.fetched⟩
    simpa using hend
  · -- one tuple lies after the one fetched last, so it is the next
    rw [h.produced] at hlt hm
    have hone : f.produced.length = a.fusion.last + 1 := by split at hcount <;> omega
    have hnext : a.fusion.nextPos size0 = a.fusion.last + 1 := by
      unfold nextPos
      rw [h.produced]
      split <;> omega
    rw [hnext, Nat.add_sub_cancel] at hm
    simp only [VisitorRun.step, hr, hnext, Nat.add_sub_cancel]
    refine ⟨?_, ?_⟩
    · rw [last_append]
      exact hone
    · rw [last_append, map_append, hf.fetched, take_add_one, hm]
      rfl

theorem Fetches.step (h : Fuses size0 sizes a f) (hf : Fetches a f) (op : FusionOp M0 M)
    (hop : f.FetchesEach op) : Fetches (a.step op) (f.step op) := by
  cases op with
  | arrive0 m0 =>
    simp only [AllLatest.step, AllLatest.fusionCallback, h.fuse m0, Fusing.step]
    cases allSome f.latest with
    | none => exact hf
    | some ms => exact hf.fill hop
  | arrive i m => exact ⟨hf.count, hf.fetched⟩
  | tryFetch => exact Fetches.tryFetch h hf

theorem fuses_run (size0 : Nat) (sizes : Fin k → Nat) (ops : List (FusionOp M0 M)) :
    Fuses size0 sizes (ops.foldl AllLatest.step (.start size0 sizes))
      (ops.foldl Fusing.step .start) :=
  foldl_rel (Fuses.start size0 sizes) fun op _ _ _ h => h.step op

theorem fetched_run (size0 : Nat) (sizes : Fin k → Nat) {ops : List (FusionOp M0 M)}
    (hops : Along Fusing.step Fusing.FetchesEach .start ops) :
    (ops.foldl AllLatest.step (.start size0 sizes)).fusion.fetched.map (·.2) =
      if (ops.foldl Fusing.step .start).pending then
        (ops.foldl Fusing.step .start).produced.dropLast
      else (ops.foldl Fusing.step .start).produced := by
  obtain ⟨-, hcount, hfetched⟩ := hops.sim (R := fun f a => Fuses size0 sizes a f ∧ Fetches a f)
    ⟨Fuses.start size0 sizes, ⟨rfl, rfl⟩⟩
    fun f a op h hop => ⟨h.1.step op, Fetches.step h.1 h.2 op hop⟩
  rw [hfetched]
  split at hcount
  · rw [if_pos ‹_›, dropLast_eq_take, hcount, Nat.add_sub_cancel]
  · grind

/-- **`AllLatest`**, for every number of other channels, all buffer sizes and every interleaving of
arrivals and fetches: the tuples filled are those that are to be made, in order; and a visitor that
fetches after each tuple has fetched each of them once, the last excepted while it is pending. -/
theorem all_latest (size0 : Nat) (sizes : Fin k → Nat) (ops : List (FusionOp M0 M)) :
    let a := ops.foldl AllLatest.step (.start size0 sizes)
    let f := ops.foldl Fusing.step .start
    a.fusion.filled = f.produced ∧
    (Along Fusing.step Fusing.FetchesEach .start ops →
      a.fusion.fetched.map (·.2) = if f.pending then f.produced.dropLast else f.produced) :=
  ⟨(fuses_run size0 sizes ops).produced, fetched_run size0 sizes⟩

end Data
