import Mathlib.Data.List.Nodup
import CyberRT.Lib.Run
import CyberRT.Transport.IntraDispatcher

/-!
# What a `ListenerHandler` delivers

`Wired signal conns subs next`: the slots of `signal` are those of the subscriptions `subs`, in
order and all connected, and `conns` holds, for each id, the connection of its latest subscription.
-/

namespace Transport

open Base Function Lib List Option

variable {L M : Type*}

structure Wire (L : Type*) where
  selfId : UInt64
  addr : Nat
  listener : L

def Wired (signal : Signal L) (conns : UInt64 → Option Connection) (subs : List (UInt64 × L))
    (next : Nat) : Prop :=
  ∃ ws : List (Wire L), signal.slots = ws.map (fun w => ⟨w.addr, w.listener, true⟩) ∧
    subs = ws.map (fun w => (w.selfId, w.listener)) ∧ (ws.map (·.addr)).Nodup ∧
    (∀ w ∈ ws, w.addr < next) ∧
    ∀ i, conns i = (ws.filter (·.selfId == i)).getLast?.map fun w => ⟨w.addr⟩

namespace Wired

variable {signal : Signal L} {conns : UInt64 → Option Connection} {subs : List (UInt64 × L)}
  {next : Nat} {i : UInt64}

theorem empty (next : Nat) : Wired (.empty : Signal L) (fun _ => none) [] next :=
  ⟨[], rfl, rfl, nodup_nil, by simp, by simp⟩

section
variable (h : Wired signal conns subs next) {c : Connection}
include h

theorem mono {next' : Nat} (hn : next ≤ next') : Wired signal conns subs next' := by
  obtain ⟨ws, h1, h2, h3, h4, h5⟩ := h
  exact ⟨ws, h1, h2, h3, fun w hw => Nat.lt_of_lt_of_le (h4 w hw) hn, h5⟩

theorem allConnected : signal.AllConnected := by
  obtain ⟨ws, h1, -⟩ := h
  intro slot hs
  grind

theorem emit {A : Type*} (args : A) :
    signal.emit args = (subs.map fun p => (p.2, args), signal) := by
  rw [h.allConnected.emit]
  obtain ⟨ws, h1, rfl, -⟩ := h
  simp only [h1, List.map_map, comp_def]

theorem connect (i : UInt64) (l : L) :
    Wired (signal.connect next l).1 (update conns i (some ⟨next⟩)) (subs ++ [(i, l)])
      (next + 1) := by
  obtain ⟨ws, h1, rfl, h3, h4, h5⟩ := h
  refine ⟨ws ++ [⟨i, next, l⟩], by simp [Signal.connect, h1], by simp, ?_, fun w hw => ?_,
    fun j => ?_⟩
  · -- the new address is above all the others
    grind
  · grind
  · by_cases hj : j = i
    all_goals grind

theorem filter_of_none (hi : conns i = none) : (subs.filter fun p => p.1 != i) = subs := by
  obtain ⟨ws, -, rfl, -, -, h5⟩ := h
  refine filter_eq_self.2 fun p hp => ?_
  grind

theorem disconnect_length (hi : conns i = some c) :
    (signal.disconnect c).AllConnected ∧ (signal.disconnect c).slots.length + 1 = subs.length := by
  rw [h.allConnected.disconnect]
  refine ⟨fun slot hs => h.allConnected slot (mem_filter.1 hs).1, ?_⟩
  obtain ⟨ws, h1, rfl, h3, h4, h5⟩ := h
  rw [h5, map_eq_some_iff] at hi
  obtain ⟨w, hw, rfl⟩ := hi
  have hmem : w ∈ ws := mem_of_mem_filter (mem_of_getLast? hw)
  have hone : (ws.map (·.addr)).count w.addr = 1 :=
    count_eq_one_of_mem h3 (List.mem_map_of_mem hmem)
  have hsplit := length_eq_countP_add_countP (fun v : Wire L => v.addr == w.addr) (l := ws)
  have hcount : ws.countP (fun v => v.addr == w.addr) = 1 := by
    rw [← hone, List.count, countP_map]
    rfl
  have hrest : (signal.slots.filter fun slot => slot.addr != w.addr).length =
      ws.countP fun v => ¬ (v.addr == w.addr) = true := by
    rw [← countP_eq_length_filter, h1, countP_map]
    exact countP_congr fun v _ => by simp
  simp only [length_map]
  omega

theorem disconnect (hi : conns i = some c) (hone : subs.countP (fun p => p.1 == i) ≤ 1) :
    Wired (signal.disconnect c) (update conns i none) (subs.filter fun p => p.1 != i) next := by
  rw [h.allConnected.disconnect]
  obtain ⟨ws, h1, rfl, h3, h4, h5⟩ := h
  rw [h5, map_eq_some_iff] at hi
  obtain ⟨w, hw, rfl⟩ := hi
  -- `w` is the one wire of `i`, so its address singles out its id
  have hlen : (ws.filter (·.selfId == i)).length ≤ 1 := by
    rw [← countP_eq_length_filter]
    rwa [countP_map] at hone
  have hfil : ws.filter (·.selfId == i) = [w] := by
    generalize ws.filter (·.selfId == i) = fs at hw hlen
    match fs, hw, hlen with
    | [v], hw, _ => simpa using hw
    | _ :: _ :: _, _, hlen => simp at hlen
  have hwi : w ∈ ws ∧ w.selfId = i := by grind
  have hkey : ∀ v ∈ ws, (v.addr != w.addr) = (v.selfId != i) := by
    intro v hv
    rw [Bool.eq_iff_iff, bne_iff_ne, bne_iff_ne, not_iff_not]
    constructor
    · intro ha
      rw [inj_on_of_nodup_map h3 hv hwi.1 ha]
      exact hwi.2
    · intro hv'
      have : v ∈ ws.filter (·.selfId == i) := mem_filter.2 ⟨hv, by simpa using hv'⟩
      grind
  have hs : ∀ (p : Wire L → Bool), (∀ v ∈ ws, p v = (v.selfId != i)) →
      ws.filter p = ws.filter (·.selfId != i) := fun p hp => filter_congr hp
  refine ⟨ws.filter (·.selfId != i), ?_, ?_, ?_, fun v hv => h4 v (mem_of_mem_filter hv),
    fun j => ?_⟩
  · grind
  · simp only [List.filter_map, comp_def]
  · exact h3.sublist (List.Sublist.map _ filter_sublist)
  · rw [List.filter_filter]
    by_cases hj : j = i
    · grind
    · rw [update_of_ne hj, h5]
      grind

end

end Wired

structure Serves (h : ListenerHandler L) (s : Subs L) : Prop where
  own : Wired h.signal h.signalConns s.own h.nextSlot
  oppo : ∀ o, Wired ((h.signals o).getD .empty) ((h.signalsConns o).getD fun _ => none) (s.oppo o)
    h.nextSlot

namespace Serves

variable {h : ListenerHandler L} {s : Subs L}

theorem empty : Serves (.empty : ListenerHandler L) .empty :=
  ⟨.empty 0, fun _ => .empty 0⟩

section
variable (hs : Serves h s)
include hs

theorem oppo_nil {o : UInt64} (ho : h.signals o = none) : s.oppo o = [] := by
  obtain ⟨ws, h1, h2, -⟩ := hs.oppo o
  rw [ho] at h1
  rw [h2, map_eq_nil_iff.1 h1.symm, map_nil]

theorem run (msg : M) (info : MessageInfo) : h.run msg info = (s.calls msg info, h) := by
  unfold ListenerHandler.run
  simp only [hs.own.emit]
  split
  · rename_i ho
    simp only [Subs.calls, hs.oppo_nil ho, append_nil]
  · rename_i signal ho
    have hw := hs.oppo info.senderId.hashValue
    rw [ho, getD_some] at hw
    simp only [hw.emit, Subs.calls, map_append, Prod.mk.injEq, true_and]
    rw [← ho, update_eq_self]

theorem connect (i : UInt64) (l : L) :
    Serves (h.connect i l) { s with own := s.own ++ [(i, l)] } := by
  have hc : h.connect i l = { h with
      signal := (h.signal.connect h.nextSlot l).1
      signalConns := update h.signalConns i (some ⟨h.nextSlot⟩)
      nextSlot := h.nextSlot + 1 } := by
    have := Signal.isConnected_connect h.signal h.nextSlot l
    simp only [ListenerHandler.connect, this]
    rfl
  rw [hc]
  exact ⟨hs.own.connect i l, fun o => (hs.oppo o).mono (Nat.le_succ _)⟩

theorem connectOppo (i o : UInt64) (l : L) :
    Serves (h.connectOppo i o l) { s with oppo := update s.oppo o (s.oppo o ++ [(i, l)]) } := by
  have hc : h.connectOppo i o l = { h with
      signals := update h.signals o (some (((h.signals o).getD .empty).connect h.nextSlot l).1)
      signalsConns := update h.signalsConns o
        (some (update ((h.signalsConns o).getD fun _ => none) i (some ⟨h.nextSlot⟩)))
      nextSlot := h.nextSlot + 1 } := by
    have := Signal.isConnected_connect ((h.signals o).getD .empty) h.nextSlot l
    simp only [ListenerHandler.connectOppo, this]
    rfl
  rw [hc]
  refine ⟨hs.own.mono (Nat.le_succ _), fun o' => ?_⟩
  by_cases ho : o' = o
  · subst ho
    simp only [update_self, getD_some]
    exact (hs.oppo o').connect i l
  · simp only [update_of_ne ho]
    exact (hs.oppo o').mono (Nat.le_succ _)

theorem disconnect (i : UInt64) (hone : s.own.countP (fun p => p.1 == i) ≤ 1) :
    Serves (h.disconnect i) { s with own := s.own.filter fun p => p.1 != i } := by
  unfold ListenerHandler.disconnect
  split
  · rename_i hi
    rw [hs.own.filter_of_none hi]
    exact hs
  · rename_i c hi
    exact ⟨hs.own.disconnect hi hone, hs.oppo⟩

end

theorem disconnectOppo_cases (h : ListenerHandler L) (i o : UInt64) :
    (((h.signalsConns o).getD fun _ => none) i = none ∧ h.disconnectOppo i o = h) ∨
    ∃ c, ((h.signalsConns o).getD fun _ => none) i = some c ∧ h.disconnectOppo i o = { h with
      signals := update h.signals o ((h.signals o).map fun signal => signal.disconnect c)
      signalsConns := update h.signalsConns o
        (some (update ((h.signalsConns o).getD fun _ => none) i none)) } := by
  unfold ListenerHandler.disconnectOppo
  cases hc : h.signalsConns o with
  | none => exact .inl ⟨rfl, rfl⟩
  | some conns =>
    cases hi : conns i with
    | none => exact .inl ⟨by simpa using hi, by simp [hi]⟩
    | some c => exact .inr ⟨c, by simpa using hi, by simp [hi]⟩

theorem disconnectOppo (hs : Serves h s) (i o : UInt64)
    (hone : (s.oppo o).countP (fun p => p.1 == i) ≤ 1) :
    Serves (h.disconnectOppo i o)
      { s with oppo := update s.oppo o ((s.oppo o).filter fun p => p.1 != i) } := by
  rcases disconnectOppo_cases h i o with ⟨hi, he⟩ | ⟨c, hi, he⟩
  · rw [he, (hs.oppo o).filter_of_none hi, update_eq_self]
    exact hs
  · rw [he]
    refine ⟨hs.own, fun o' => ?_⟩
    by_cases ho : o' = o
    · subst ho
      have hw := (hs.oppo o').disconnect hi hone
      cases hsig : h.signals o' with
      | none => simpa [hsig, Signal.empty, Signal.disconnect] using hw
      | some signal => simpa [hsig] using hw
    · simp only [update_of_ne ho]
      exact hs.oppo o'

theorem step (hs : Serves h s) (op : HandlerOp L M) (hop : s.DisconnectOnce op) :
    Serves (h.step op) (s.step op) := by
  cases op with
  | connect i l => exact hs.connect i l
  | connectOppo i o l => exact hs.connectOppo i o l
  | disconnect i => exact hs.disconnect i hop
  | disconnectOppo i o => exact hs.disconnectOppo i o hop
  | run msg info =>
    simp only [ListenerHandler.step, hs.run msg info]
    exact hs

end Serves

theorem run_length {h : ListenerHandler L} (h0 : h.signal.AllConnected)
    (ho : ∀ o, ((h.signals o).getD .empty).AllConnected) (msg : M) (info : MessageInfo) :
    (h.run msg info).1.length = h.signal.slots.length +
      ((h.signals info.senderId.hashValue).getD .empty).slots.length := by
  unfold ListenerHandler.run
  simp only [h0.emit]
  cases hs : h.signals info.senderId.hashValue with
  | none => simp [Signal.empty]
  | some signal =>
    have := ho info.senderId.hashValue
    rw [hs, getD_some] at this
    simp [this.emit]

theorem length_filter_bne (subs : List (UInt64 × L)) (i : UInt64) :
    (subs.filter fun p => p.1 != i).length + subs.countP (fun p => p.1 == i) = subs.length := by
  have hsplit := length_eq_countP_add_countP (fun p : UInt64 × L => p.1 == i) (l := subs)
  have hrest : (subs.filter fun p => p.1 != i).length =
      subs.countP fun p => ¬ (p.1 == i) = true := by
    rw [← countP_eq_length_filter]
    exact countP_congr fun p _ => by simp
  omega

theorem Wired.conns_ne_none {signal : Signal L} {conns : UInt64 → Option Connection}
    {subs : List (UInt64 × L)} {next : Nat} (h : Wired signal conns subs next) {i : UInt64}
    (hi : 0 < subs.countP (fun p => p.1 == i)) : ∃ c, conns i = some c := by
  cases hc : conns i with
  | none =>
    have := length_filter_bne subs i
    rw [h.filter_of_none hc] at this
    omega
  | some c => exact ⟨c, rfl⟩

def infoFrom (sender : UInt64) : MessageInfo :=
  ⟨⟨Vector.replicate _ 0, sender⟩, 0, 0, ⟨Vector.replicate _ 0, 0⟩, 0⟩

theorem Serves.calls_ne [Inhabited M] {h : ListenerHandler L} {s : Subs L} (hs : Serves h s)
    {op : HandlerOp L M} (hop : ¬ s.DisconnectOnce op) :
    ∃ (msg : M) (info : MessageInfo),
      ((h.step op).run msg info).1 ≠ (s.step op).calls msg info := by
  have hoppo : ∀ o, ((h.signals o).getD .empty).AllConnected := fun o => (hs.oppo o).allConnected
  have hlen : ∀ o, ((h.signals o).getD .empty).slots.length = (s.oppo o).length := by
    intro o
    obtain ⟨ws, h1, h2, -⟩ := hs.oppo o
    rw [h1, h2, length_map, length_map]
  cases op with
  | disconnect i =>
    simp only [Subs.DisconnectOnce, Nat.not_le] at hop
    obtain ⟨c, hc⟩ := hs.own.conns_ne_none (i := i) (by omega)
    obtain ⟨hall, hl⟩ := hs.own.disconnect_length hc
    refine ⟨default, infoFrom 0, fun he => ?_⟩
    have hl' := congrArg List.length he
    simp only [ListenerHandler.step, ListenerHandler.disconnect, hc] at hl'
    rw [run_length] at hl'
    · have hf := length_filter_bne s.own i
      simp only [hlen, Subs.calls, Subs.step, length_map, length_append] at hl'
      omega
    · exact hall
    · exact hoppo
  | disconnectOppo i o =>
    simp only [Subs.DisconnectOnce, Nat.not_le] at hop
    obtain ⟨c, hc⟩ := (hs.oppo o).conns_ne_none (i := i) (by omega)
    obtain ⟨hall, hl⟩ := (hs.oppo o).disconnect_length hc
    rcases Serves.disconnectOppo_cases h i o with ⟨hn, -⟩ | ⟨c', hc', he⟩
    · rw [hc] at hn
      cases hn
    obtain rfl : c = c' := by simpa [hc] using hc'
    have hsig : ∀ o', ((update h.signals o
        ((h.signals o).map fun signal => signal.disconnect c)) o').getD .empty =
        if o' = o then ((h.signals o).getD .empty).disconnect c
        else (h.signals o').getD .empty := by
      intro o'
      by_cases ho : o' = o
      · subst ho
        cases h.signals o' <;> simp [Signal.empty, Signal.disconnect]
      · simp [ho]
    refine ⟨default, infoFrom o, fun heq => ?_⟩
    have hl' := congrArg List.length heq
    have hown : h.signal.slots.length = s.own.length := by
      obtain ⟨ws, h1, h2, -⟩ := hs.own
      rw [h1, h2, length_map, length_map]
    simp only [ListenerHandler.step, he] at hl'
    rw [run_length, hsig] at hl'
    · have hf := length_filter_bne (s.oppo o) i
      simp only [infoFrom, if_true, hown, Subs.calls, Subs.step, length_map,
        length_append, update_self] at hl'
      omega
    · exact hs.own.allConnected
    · grind
  | connect _ _ | connectOppo _ _ _ | run _ _ => exact absurd trivial hop

/-- **What the handler is to deliver**: at every point of the calls `ops`, a `Run` calls each
subscription then connected to the sender exactly once, in the order they were made, and no
other listener. -/
def Delivers (ops : List (HandlerOp L M)) : Prop :=
  ∀ pre suf, ops = pre ++ suf → ∀ (msg : M) (info : MessageInfo),
    ((pre.foldl ListenerHandler.step .empty).run msg info).1 =
      (pre.foldl Subs.step .empty).calls msg info

theorem serves_run {ops : List (HandlerOp L M)}
    (h : Along Subs.step Subs.DisconnectOnce .empty ops) :
    Serves (ops.foldl ListenerHandler.step .empty) (ops.foldl Subs.step .empty) :=
  h.sim (R := fun s h => Serves h s) Serves.empty fun _ _ op hs hop => hs.step op hop

/-- **The handler delivers what it is to deliver exactly when every `Disconnect` is of an id that
has been connected at most once since its last `Disconnect`.** -/
theorem delivers_iff [Inhabited M] (ops : List (HandlerOp L M)) :
    Delivers ops ↔ Along Subs.step Subs.DisconnectOnce .empty ops := by
  constructor
  · intro h
    by_contra hn
    obtain ⟨pre, op, suf, rfl, hpre, hop⟩ := not_along hn
    obtain ⟨msg, info, hne⟩ := (serves_run hpre).calls_ne hop
    have := h (pre ++ [op]) suf (by simp) msg info
    grind
  · rintro h pre suf rfl msg info
    rw [(serves_run (along_append.1 h).1).run]

/-- Two listeners connected under one id: after its `Disconnect` the first is still called. -/
theorem not_delivers_reconnect :
    ¬ Delivers (L := Nat) (M := Nat) [.connect 7 1, .connect 7 2, .disconnect 7] := by
  intro h
  have hcalls := congrArg List.length (h _ [] (append_nil _).symm 0 (infoFrom 0))
  revert hcalls
  decide

end Transport
