import CyberRT.Lib.Run
import CyberRT.Transport.History

/-!
# What a peer that joins is sent

The history holds the last `depth` of the messages that were transmitted, so a task that an `Enable`
starts has what the join is to be sent; the lock keeps the messages before the join apart from those
after it.
-/

namespace Transport

open Lib List

variable {α M : Type*}

/-! ## The history -/

theorem rtake_of_length_le {α : Type*} {d : Nat} {l : List α} (h : l.length ≤ d) :
    l.rtake d = l := by
  rw [List.rtake, Nat.sub_eq_zero_of_le h, drop_zero]

theorem rtake_rtake_concat {α : Type*} (d : Nat) (l : List α) (a : α) :
    (l.rtake d ++ [a]).rtake d = (l ++ [a]).rtake d := by
  by_cases h : l.length ≤ d
  · rw [rtake_of_length_le h]
  · cases d with
    | zero => simp
    | succ d =>
      rw [rtake_concat_succ, rtake_concat_succ]
      congr 1
      simp only [List.rtake, length_drop, drop_drop]
      congr 1
      omega

namespace History

theorem popFront_eq (depth : Nat) (msgs : List α) : popFront depth msgs = msgs.rtake depth := by
  induction msgs with
  | nil => simp [popFront]
  | cons m msgs ih =>
    unfold popFront
    split
    · have hsub : (m :: msgs).length - depth = msgs.length - depth + 1 := by grind
      rw [ih, List.rtake, List.rtake, hsub, drop_succ_cons]
    · rename_i h
      rw [rtake_of_length_le (Nat.le_of_not_gt h)]

@[simp] theorem add_enabled (h : History α) (m : α) : (h.add m).enabled = h.enabled := by
  unfold add
  split <;> rfl

@[simp] theorem add_depth (h : History α) (m : α) : (h.add m).depth = h.depth := by
  unfold add
  split <;> rfl

theorem add_msgs {h : History α} {l : List α} (henabled : h.enabled = true)
    (hmsgs : h.msgs = l.rtake h.depth) (m : α) : (h.add m).msgs = (l ++ [m]).rtake h.depth := by
  simp only [add, henabled, Bool.not_true, Bool.false_eq_true, if_false]
  rw [popFront_eq, hmsgs, rtake_rtake_concat]

end History

/-! ## One join -/

namespace Join

variable {j : Join M} {d : Nat} {l : List (CopiedMessage M)} {mode mode' : OptionalMode}
  {id id' : UInt64} {n : Nat}

def Past (n : Nat) (j : Join M) : Prop := j.since ≤ n ∧ ∀ k ∈ j.gone, k ≤ n

theorem current_start (task : List (CopiedMessage M)) (j : Join M) :
    (j.start mode id task).Current mode' id' ↔ j.Current mode' id' := by
  unfold start
  split <;> exact Iff.rfl

theorem past_start (h : j.Past n) (task : List (CopiedMessage M)) :
    (j.start mode id task).Past n := by
  unfold start
  split <;> exact h

theorem sentRight_start (h : j.SentRight d l) {task : List (CopiedMessage M)} (htask : task ≠ []) :
    (j.start mode id task).SentRight d l ↔ ¬ j.Current mode id := by
  unfold start
  split
  · rename_i hcur
    simp only [SentRight, flatten_append, flatten_singleton, ← append_assoc, ← h.1]
    simp [htask, hcur]
  · grind

theorem current_leave (n : Nat) (j : Join M) :
    (j.leave mode id n).Current mode' id' ↔ j.Current mode' id' ∧ ¬ (mode' = mode ∧ id' = id) := by
  unfold leave
  split
  · rename_i hcur
    simp only [Current, reduceCtorEq, false_and, false_iff]
    intro hboth
    exact hboth.2 ⟨hboth.1.2.1.symm.trans hcur.2.1, hboth.1.2.2.symm.trans hcur.2.2⟩
  · grind

theorem past_leave (h : j.Past n) : (j.leave mode id n).Past n := by
  unfold leave
  split
  · exact ⟨h.1, fun k hk => by simp only [Option.mem_some_iff] at hk; omega⟩
  · exact h

theorem tasks_leave (n : Nat) (j : Join M) : (j.leave mode id n).tasks = j.tasks := by
  unfold leave
  split <;> rfl

theorem sentRight_leave (h : j.SentRight d l) : (j.leave mode id l.length).SentRight d l := by
  unfold leave
  split
  · rename_i hcur
    refine ⟨h.1, ?_⟩
    have hlive := h.2
    rw [hcur.1] at hlive
    exact hlive
  · exact h

theorem current_receive (modes : OptionalMode → Bool) (m : CopiedMessage M) (j : Join M) :
    (j.receive modes m).Current mode' id' ↔ j.Current mode' id' := by
  unfold receive
  split <;> exact Iff.rfl

theorem past_receive (h : j.Past n) (modes : OptionalMode → Bool) (m : CopiedMessage M) :
    (j.receive modes m).Past (n + 1) := by
  have hpast : j.Past (n + 1) := ⟨by have := h.1; omega, fun k hk => by have := h.2 k hk; omega⟩
  unfold receive
  split <;> exact hpast

theorem tasks_receive (modes : OptionalMode → Bool) (m : CopiedMessage M) (j : Join M) :
    (j.receive modes m).tasks = j.tasks := by
  unfold receive
  split <;> rfl

theorem sentRight_receive (h : j.SentRight d l) (hpast : j.Past l.length)
    (modes : OptionalMode → Bool) (m : CopiedMessage M) :
    (j.receive modes m).SentRight d (l ++ [m]) ↔ (j.gone = none → modes j.mode = true) := by
  have hbefore : (l ++ [m]).take j.since = l.take j.since := take_append_of_le_length hpast.1
  cases hgone : j.gone with
  | some k =>
    -- the join is over: nothing changes for it
    have htake : (l ++ [m]).take k = l.take k := take_append_of_le_length (hpast.2 k hgone)
    have hlive := h.2
    simp [receive, SentRight, hgone, hbefore, htake, h.1, hlive]
  | none =>
    have hlive := h.2
    have hall : ((l ++ [m]).take (l.length + 1)).drop j.since = l.drop j.since ++ [m] := by
      rw [take_of_length_le (by simp), drop_append_of_le_length hpast.1]
    cases hmode : modes j.mode with
    | true => simp [receive, SentRight, hgone, hmode, hbefore, hall, h.1, hlive]
    | false => simp [receive, SentRight, hgone, hmode, hall, hlive]

theorem send_eq (task : Nat) (j : Join M) :
    j.send task = j ∨ ∃ m t₁ rest t₂, j.tasks = t₁ ++ (m :: rest) :: t₂ ∧ t₁.length = task ∧
      j.send task = { j with tasks := t₁ ++ rest :: t₂, replayed := j.replayed ++ [m] } := by
  unfold send
  split
  · rename_i m rest htask
    obtain ⟨hlt, hget⟩ := List.getElem?_eq_some_iff.1 htask
    refine .inr ⟨m, j.tasks.take task, rest, j.tasks.drop (task + 1), ?_, ?_, ?_⟩
    · rw [← hget, getElem_cons_drop, take_append_drop]
    · rw [length_take]
      omega
    · rw [set_eq_take_append_cons_drop, if_pos hlt]
  · exact .inl rfl

theorem current_send (task : Nat) (j : Join M) :
    (j.send task).Current mode' id' ↔ j.Current mode' id' := by
  unfold send
  split <;> exact Iff.rfl

theorem past_send (h : j.Past n) (task : Nat) : (j.send task).Past n := by
  unfold send
  split <;> exact h

theorem tasks_length_send (task : Nat) (j : Join M) :
    (j.send task).tasks.length = j.tasks.length := by
  unfold send
  split <;> simp

theorem sentRight_send (h : j.SentRight d l) (hone : j.tasks.length ≤ 1) (task : Nat) :
    (j.send task).SentRight d l := by
  rcases send_eq task j with heq | ⟨m, t₁, rest, t₂, htasks, -, heq⟩
  · rw [heq]
    exact h
  · rw [htasks, length_append, length_cons] at hone
    obtain rfl : t₁ = [] := length_eq_zero_iff.1 (by omega)
    rw [heq]
    refine ⟨?_, h.2⟩
    rw [← h.1, htasks]
    simp

theorem exists_send (h : j.tasks.flatten ≠ []) :
    ∃ task, (j.send task).tasks.flatten.length < j.tasks.flatten.length := by
  simp only [ne_eq, flatten_eq_nil_iff, not_forall] at h
  obtain ⟨t, ht, hne⟩ := h
  obtain ⟨t₁, t₂, htasks⟩ := append_of_mem ht
  obtain ⟨m, rest, rfl⟩ := exists_cons_of_ne_nil hne
  refine ⟨t₁.length, ?_⟩
  simp [send, htasks]

end Join

namespace ReplaySystem

/-! ## The invariant -/

theorem mem_modify {α : Type*} {f : α → α} {a : α} {l : List α} {n : Nat} (h : a ∈ l.modify n f) :
    a ∈ l ∨ ∃ b ∈ l, f b = a := by
  induction l generalizing n with
  | nil => simp at h
  | cons b l ih => grind

theorem exists_mem_modify {α : Type*} {f : α → α} {p : α → Prop} (hf : ∀ a, p (f a) ↔ p a)
    (l : List α) (n : Nat) : (∃ a ∈ l.modify n f, p a) ↔ ∃ a ∈ l, p a := by
  induction l generalizing n with
  | nil => simp
  | cons b l ih => cases n <;> simp [hf, ih]

structure Inv (s : ReplaySystem M) : Prop where
  durable : s.transmitter.durability = .transientLocal
  enabled : s.transmitter.history.enabled = true
  msgs : s.transmitter.history.msgs = s.transmitted.rtake s.transmitter.history.depth
  current : ∀ mode id, id ∈ s.transmitter.base.receivers mode ↔ ∃ j ∈ s.joins, j.Current mode id
  past : ∀ j ∈ s.joins, j.Past s.transmitted.length

variable {s : ReplaySystem M} {opposite : RoleAttributes} {e : ReplayEvent M}

theorem inv_init (base : HybridTransmitter) (hbase : ∀ mode, base.receivers mode = ∅)
    (maxHistoryDepth : Option Nat) (attr : HistoryAttributes) :
    (init (.init base .transientLocal maxHistoryDepth attr) : ReplaySystem M).Inv where
  durable := rfl
  enabled := rfl
  msgs := by simp [init, HistoryTransmitter.init, History.init]
  current mode id := by simp [init, HistoryTransmitter.init, hbase]
  past := nofun

section
variable (h : s.Inv)
include h

theorem Inv.enable_eq
    (hrel : s.transmitter.base.getRelation opposite ≠ .noRelation) (created served : Bool) :
    s.enable opposite created served =
      { s with
        transmitter := { s.transmitter with base := s.transmitter.base.enable opposite created }
        joins :=
          if served = true ∧ s.transmitter.history.msgs ≠ [] then
            (s.joined (s.transmitter.modeOf opposite) opposite.id).map
              (Join.start (s.transmitter.modeOf opposite) opposite.id s.transmitter.history.msgs)
          else s.joined (s.transmitter.modeOf opposite) opposite.id } := by
  unfold enable
  simp only [HistoryTransmitter.enable, if_neg hrel, HistoryTransmitter.transmitHistoryMsg,
    h.durable, ne_eq, not_true, if_false]
  grind

omit h in
theorem mem_joined {mode : OptionalMode} {id : UInt64} {j : Join M} (hj : j ∈ s.joined mode id) :
    j ∈ s.joins ∨
      id ∉ s.transmitter.base.receivers mode ∧
        j = ⟨mode, id, s.transmitted.length, none, [], [], []⟩ := by
  unfold joined at hj
  grind

theorem Inv.current_joined (mode mode' : OptionalMode) (id id' : UInt64) :
    (∃ j ∈ s.joined mode id, j.Current mode' id') ↔
      (mode' = mode ∧ id' = id) ∨ id' ∈ s.transmitter.base.receivers mode' := by
  unfold joined
  split
  · rw [← h.current]
    grind
  · simp only [mem_append, mem_singleton, or_and_right, exists_or, exists_eq_left, ← h.current]
    rw [or_comm]
    exact or_congr_left ⟨fun hcur => ⟨hcur.2.1.symm, hcur.2.2.symm⟩,
      fun heq => ⟨rfl, heq.1.symm, heq.2.symm⟩⟩

theorem Inv.enable (opposite : RoleAttributes) (created served : Bool) :
    (s.enable opposite created served).Inv := by
  by_cases hrel : s.transmitter.base.getRelation opposite = .noRelation
  · rw [ReplaySystem.enable, if_pos hrel]
    exact h
  · rw [h.enable_eq hrel]
    have hpast : ∀ j ∈ s.joined (s.transmitter.modeOf opposite) opposite.id,
        j.Past s.transmitted.length := by
      intro j hj
      rcases mem_joined hj with hj | ⟨-, rfl⟩
      · exact h.past j hj
      · exact ⟨le_refl _, nofun⟩
    refine ⟨h.durable, h.enabled, h.msgs, fun mode id => ?_, ?_⟩
    · have hjoins := h.current_joined (s.transmitter.modeOf opposite) mode opposite.id id
      have hreceivers : id ∈ (s.transmitter.base.enable opposite created).receivers mode ↔
          (mode = s.transmitter.modeOf opposite ∧ id = opposite.id) ∨
            id ∈ s.transmitter.base.receivers mode := by
        simp only [HybridTransmitter.enable, if_neg hrel, HistoryTransmitter.modeOf,
          Function.update_apply]
        split <;> simp [*]
      rw [hreceivers, ← hjoins]
      split
      · simp [Join.current_start]
      · exact Iff.rfl
    · split
      · intro j hj
        obtain ⟨j', hj', rfl⟩ := mem_map.1 hj
        exact Join.past_start (hpast j' hj') _
      · exact hpast

theorem Inv.disable (opposite : RoleAttributes) : (s.disable opposite).Inv := by
  unfold ReplaySystem.disable
  split
  · exact h
  · rename_i hrel
    refine ⟨h.durable, h.enabled, h.msgs, fun mode id => ?_, fun j hj => ?_⟩
    · have hreceivers : id ∈ (s.transmitter.base.disable opposite).receivers mode ↔
          id ∈ s.transmitter.base.receivers mode ∧
            ¬ (mode = s.transmitter.modeOf opposite ∧ id = opposite.id) := by
        simp only [HybridTransmitter.disable, if_neg hrel, HistoryTransmitter.modeOf,
          Function.update_apply]
        split <;> simp [*, and_comm]
      simp only [HistoryTransmitter.disable]
      rw [hreceivers, h.current]
      simp only [mem_map, exists_exists_and_eq_and, Join.current_leave]
      grind
    · obtain ⟨j', hj', rfl⟩ := mem_map.1 hj
      exact Join.past_leave (h.past j' hj')

theorem Inv.transmit (m : CopiedMessage M) : (s.transmit m).Inv where
  durable := h.durable
  enabled := by simp [ReplaySystem.transmit, HistoryTransmitter.transmit, h.enabled]
  msgs := by
    simp only [ReplaySystem.transmit, HistoryTransmitter.transmit, History.add_depth]
    exact History.add_msgs h.enabled h.msgs m
  current mode id := by
    simp only [ReplaySystem.transmit, HistoryTransmitter.transmit, mem_map,
      exists_exists_and_eq_and, Join.current_receive]
    exact h.current mode id
  past j hj := by
    obtain ⟨j', hj', rfl⟩ := mem_map.1 hj
    simp only [ReplaySystem.transmit, length_append, length_singleton]
    exact Join.past_receive (h.past j' hj') _ m

theorem Inv.send (join task : Nat) :
    ({ s with joins := s.joins.modify join (Join.send task) } : ReplaySystem M).Inv where
  durable := h.durable
  enabled := h.enabled
  msgs := h.msgs
  current mode id := by
    rw [exists_mem_modify (Join.current_send task)]
    exact h.current mode id
  past j hj := by
    rcases mem_modify hj with hj | ⟨j', hj', rfl⟩
    · exact h.past j hj
    · exact Join.past_send (h.past j' hj') task

end

/-! ## The condition on the calls -/

/-- An `Enable` while there is a history starts a task if and only if the peer is not there yet. -/
def StepOk (s : ReplaySystem M) : ReplayEvent M → Prop
  | .enable opposite _ served =>
    s.transmitter.base.getRelation opposite = .noRelation ∨ s.transmitter.history.msgs = [] ∨
      (served = true ↔ opposite.id ∉ s.transmitter.base.receivers (s.transmitter.modeOf opposite))
  | .transmit _ => ∀ mode, (s.transmitter.base.receivers mode).Nonempty →
      (s.transmitter.base.transmitters mode).enabled = true
  | .disable _ | .send _ _ => True

structure Good (s : ReplaySystem M) : Prop where
  inv : s.Inv
  sent : s.SentRight
  one : ∀ j ∈ s.joins, j.tasks.length ≤ 1

theorem sentRight_new (mode : OptionalMode) (id : UInt64) (d : Nat) (l : List (CopiedMessage M))
    (tasks : List (List (CopiedMessage M))) :
    (⟨mode, id, l.length, none, tasks, [], []⟩ : Join M).SentRight d l ↔
      tasks.flatten = l.rtake d := by
  simp [Join.SentRight]

theorem Inv.joined_start (h : s.Inv) {mode : OptionalMode} {id : UInt64}
    (hid : id ∉ s.transmitter.base.receivers mode) (task : List (CopiedMessage M)) :
    (s.joined mode id).map (Join.start mode id task) =
      s.joins ++ [⟨mode, id, s.transmitted.length, none, [task], [], []⟩] := by
  have hkeep : s.joins.map (Join.start mode id task) = s.joins := by
    refine (map_congr_left fun j hj => if_neg fun hcur => hid ?_).trans (map_id' s.joins)
    exact (h.current mode id).2 ⟨j, hj, hcur⟩
  rw [joined, if_neg hid, map_append, hkeep, map_singleton]
  simp [Join.start, Join.Current]

theorem Inv.sentRight_joined (h : s.Inv) (hsent : s.SentRight) (mode : OptionalMode) (id : UInt64) :
    (∀ j ∈ s.joined mode id, j.SentRight s.transmitter.history.depth s.transmitted) ↔
      s.transmitter.history.msgs = [] ∨ id ∈ s.transmitter.base.receivers mode := by
  unfold joined
  split
  · rename_i hid
    exact iff_of_true hsent (.inr hid)
  · rename_i hid
    rw [forall_mem_append, forall_mem_singleton, sentRight_new, h.msgs, or_iff_left hid]
    exact ⟨fun hnew => hnew.2.symm, fun hnil => ⟨hsent, hnil.symm⟩⟩

theorem Inv.sentRight_started (h : s.Inv) (hsent : s.SentRight)
    (hmsgs : s.transmitter.history.msgs ≠ []) (mode : OptionalMode) (id : UInt64) :
    (∀ j ∈ (s.joined mode id).map (Join.start mode id s.transmitter.history.msgs),
      j.SentRight s.transmitter.history.depth s.transmitted) ↔
      id ∉ s.transmitter.base.receivers mode := by
  by_cases hid : id ∈ s.transmitter.base.receivers mode
  · obtain ⟨j, hj, hcur⟩ := (h.current mode id).1 hid
    refine iff_of_false (fun hall => ?_) (not_not_intro hid)
    rw [joined, if_pos hid] at hall
    have hstarted := hall _ (mem_map_of_mem hj)
    exact (Join.sentRight_start (hsent j hj) hmsgs).1 hstarted hcur
  · rw [h.joined_start hid, forall_mem_append, forall_mem_singleton, sentRight_new]
    refine iff_of_true ⟨hsent, ?_⟩ hid
    rw [flatten_singleton]
    exact h.msgs

section
variable (h : s.Good)
include h

theorem Good.sentRight_enable (opposite : RoleAttributes) (created served : Bool) :
    (s.enable opposite created served).SentRight ↔ s.StepOk (.enable opposite created served) := by
  by_cases hrel : s.transmitter.base.getRelation opposite = .noRelation
  · rw [enable, if_pos hrel]
    exact iff_of_true h.sent (.inl hrel)
  · rw [h.inv.enable_eq hrel, SentRight, StepOk, or_iff_right hrel]
    by_cases hmsgs : s.transmitter.history.msgs = []
    · simp only [hmsgs, ne_eq, not_true, and_false, if_false, true_or, iff_true]
      exact (h.inv.sentRight_joined h.sent _ _).2 (.inl hmsgs)
    · cases served with
      | true =>
        simp only [hmsgs, ne_eq, not_false_iff, and_self, if_true, false_or, true_iff]
        exact h.inv.sentRight_started h.sent hmsgs _ _
      | false =>
        simp only [Bool.false_eq_true, false_and, if_false, hmsgs, false_or, false_iff, not_not]
        rw [h.inv.sentRight_joined h.sent, or_iff_right hmsgs]

theorem Good.one_enable {created served : Bool} (hok : s.StepOk (.enable opposite created served)) :
    ∀ j ∈ (s.enable opposite created served).joins, j.tasks.length ≤ 1 := by
  by_cases hrel : s.transmitter.base.getRelation opposite = .noRelation
  · rw [enable, if_pos hrel]
    exact h.one
  · rw [h.inv.enable_eq hrel]
    split
    · rename_i hstart
      rcases hok with hno | hnil | hiff
      · exact absurd hno hrel
      · exact absurd hnil hstart.2
      · rw [h.inv.joined_start (hiff.1 hstart.1), forall_mem_append, forall_mem_singleton]
        exact ⟨h.one, le_refl 1⟩
    · intro j hj
      rcases mem_joined hj with hj | ⟨-, rfl⟩
      · exact h.one j hj
      · exact Nat.zero_le 1

theorem Good.sentRight_transmit (m : CopiedMessage M) :
    (s.transmit m).SentRight ↔ s.StepOk (.transmit m) := by
  have hjoin : ∀ j ∈ s.joins, (j.receive (s.transmitter.transmit m).2 m).SentRight
      s.transmitter.history.depth (s.transmitted ++ [m]) ↔
        (j.gone = none → (s.transmitter.base.transmitters j.mode).enabled = true) :=
    fun j hj => Join.sentRight_receive (h.sent j hj) (h.inv.past j hj) _ m
  simp only [SentRight, transmit, HistoryTransmitter.transmit, History.add_depth,
    forall_mem_map] at hjoin ⊢
  refine ⟨fun hall mode ⟨id, hid⟩ => ?_, fun hok j hj => (hjoin j hj).2 fun hgone => ?_⟩
  · obtain ⟨j, hj, hgone, rfl, -⟩ := (h.inv.current mode id).1 hid
    exact (hjoin j hj).1 (hall j hj) hgone
  · exact hok j.mode ⟨j.id, (h.inv.current j.mode j.id).2 ⟨j, hj, hgone, rfl, rfl⟩⟩

theorem Good.disable (opposite : RoleAttributes) : (s.disable opposite).Good := by
  refine ⟨h.inv.disable opposite, ?_, ?_⟩
  all_goals
    unfold ReplaySystem.disable
    split
  · exact h.sent
  · intro j hj
    obtain ⟨j', hj', rfl⟩ := mem_map.1 hj
    exact Join.sentRight_leave (h.sent j' hj')
  · exact h.one
  · intro j hj
    obtain ⟨j', hj', rfl⟩ := mem_map.1 hj
    rw [Join.tasks_leave]
    exact h.one j' hj'

theorem Good.send (join task : Nat) :
    ({ s with joins := s.joins.modify join (Join.send task) } : ReplaySystem M).Good where
  inv := h.inv.send join task
  sent j hj := by
    rcases mem_modify hj with hj | ⟨j', hj', rfl⟩
    · exact h.sent j hj
    · exact Join.sentRight_send (h.sent j' hj') (h.one j' hj') task
  one j hj := by
    rcases mem_modify hj with hj | ⟨j', hj', rfl⟩
    · exact h.one j hj
    · rw [Join.tasks_length_send]
      exact h.one j' hj'

theorem Good.step (hok : s.StepOk e) : (s.step e).Good := by
  cases e with
  | enable opposite created served =>
    exact ⟨h.inv.enable opposite created served, (h.sentRight_enable opposite created served).2 hok,
      h.one_enable hok⟩
  | disable opposite => exact h.disable opposite
  | transmit m =>
    refine ⟨h.inv.transmit m, (h.sentRight_transmit m).2 hok, fun j hj => ?_⟩
    obtain ⟨j', hj', rfl⟩ := mem_map.1 hj
    rw [Join.tasks_receive]
    exact h.one j' hj'
  | send join task => exact h.send join task

theorem Good.stepOk (hsent : (s.step e).SentRight) : s.StepOk e := by
  cases e with
  | enable opposite created served => exact (h.sentRight_enable opposite created served).1 hsent
  | transmit m => exact (h.sentRight_transmit m).1 hsent
  | disable opposite => trivial
  | send join task => trivial

end

/-! ## The tasks come to an end -/

def left (s : ReplaySystem M) : Nat := (s.joins.map fun j => j.tasks.flatten.length).sum

theorem exists_send_left (h : ¬ s.Idle) :
    ∃ join task, (s.step (.send join task)).left < s.left := by
  simp only [Idle, not_forall] at h
  obtain ⟨j, hj, htasks⟩ := h
  obtain ⟨l₁, l₂, hjoins⟩ := append_of_mem hj
  obtain ⟨task, hlt⟩ := Join.exists_send htasks
  refine ⟨l₁.length, task, ?_⟩
  have hmodify : (l₁ ++ j :: l₂).modify l₁.length (Join.send task) = l₁ ++ j.send task :: l₂ := by
    rw [modify_eq_take_cons_drop (by simp)]
    simp
  simp only [left, step, hjoins, hmodify, map_append, map_cons, sum_append, sum_cons]
  omega

theorem exists_idle (s : ReplaySystem M) :
    ∃ rounds : List (Nat × Nat),
      ((rounds.map fun r => ReplayEvent.send r.1 r.2).foldl step s).Idle := by
  induction hn : s.left using Nat.strong_induction_on generalizing s with
  | _ n ih =>
    by_cases hidle : s.Idle
    · exact ⟨[], hidle⟩
    · obtain ⟨join, task, hlt⟩ := exists_send_left hidle
      obtain ⟨rounds, hrounds⟩ := ih _ (hn ▸ hlt) _ rfl
      exact ⟨(join, task) :: rounds, hrounds⟩

/-! ## Whole runs -/

/-- **Every join of a peer is sent its history once, and what follows live**, exactly as long as an
`Enable` starts a task if and only if the peer is not there yet, and every mode with receivers has
its transmitter enabled when a message is transmitted. -/
theorem sentRight_iff (attr : RoleAttributes) (mappingTable : Relation → OptionalMode)
    (arenaTransmit : Bool) (maxHistoryDepth : Option Nat) (historyAttr : HistoryAttributes)
    (evs : List (ReplayEvent M)) :
    let s := init (.init (.init attr mappingTable arenaTransmit) .transientLocal maxHistoryDepth
      historyAttr)
    (Always step SentRight s evs ↔ Along step StepOk s evs) ∧
      ∃ rounds : List (Nat × Nat),
        ((rounds.map fun r => ReplayEvent.send r.1 r.2).foldl step (evs.foldl step s)).Idle := by
  intro s
  have hgood : s.Good := ⟨inv_init _ (fun _ => rfl) _ _, nofun, nofun⟩
  exact ⟨always_iff_along_of_inv hgood (fun _ h => h.sent) (fun _ _ h hok => h.step hok)
    fun _ _ h hsent => h.stepOk hsent, exists_idle _⟩

/-! ## A peer that is enabled twice -/

namespace Twice

def writer : RoleAttributes := ⟨"10.0.0.1", 7, "chatter", "Chatter", 1⟩

def reader : RoleAttributes := ⟨"10.0.0.1", 7, "chatter", "Chatter", 2⟩

def mappingTable : Relation → OptionalMode
  | .sameProc => .intra
  | .diffProc => .shm
  | .diffHost | .noRelation => .rtps

def message : CopiedMessage Nat :=
  ⟨5, ⟨⟨Vector.replicate idSize 0, 0⟩, 0, 1, ⟨Vector.replicate idSize 0, 0⟩⟩⟩

def run : List (ReplayEvent Nat) :=
  [.transmit message, .enable reader true true, .enable reader true true, .send 0 0, .send 0 1]

end Twice

/-- The reader is sent the message twice. -/
theorem not_sentRight_twice :
    ¬ Always step SentRight
      (init (.init (.init Twice.writer Twice.mappingTable false) .transientLocal none
        ⟨.keepLast, 1⟩)) Twice.run := by
  decide +kernel

end ReplaySystem

/-!
## What comes out of a `History`

A message is copied twice on its way, into the list and out of it, and the copy constructor of
`MessageInfo` does not take over the send time.
-/

variable {β : Type*}

theorem rtake_map (f : α → β) (d : Nat) (l : List α) : (l.map f).rtake d = (l.rtake d).map f := by
  simp only [List.rtake, length_map, map_drop]

namespace History

def enabledInit (maxHistoryDepth : Option Nat) (attr : HistoryAttributes) : History α :=
  { init maxHistoryDepth attr with enabled := true }

def addAll (h : History (CachedMessage M MessageInfo))
    (adds : List (UInt64 × CachedMessage M MessageInfo)) : History (CachedMessage M MessageInfo) :=
  adds.foldl (fun h a => h.addCopy a.1 a.2) h

variable {h : History (CachedMessage M MessageInfo)}

theorem depth_addAll (h : History (CachedMessage M MessageInfo))
    (adds : List (UInt64 × CachedMessage M MessageInfo)) : (h.addAll adds).depth = h.depth := by
  induction adds generalizing h with
  | nil => rfl
  | cons a adds ih => exact (ih _).trans (add_depth h _)

theorem msgs_addAll {l : List (CachedMessage M MessageInfo)} (henabled : h.enabled = true)
    (hmsgs : h.msgs = l.rtake h.depth) (adds : List (UInt64 × CachedMessage M MessageInfo)) :
    (h.addAll adds).msgs = (l ++ adds.map fun a => a.2.copy a.1).rtake h.depth := by
  induction adds generalizing h l with
  | nil => simpa [addAll] using hmsgs
  | cons a adds ih =>
    have hadd := add_msgs henabled hmsgs (a.2.copy a.1)
    have hstep := ih (h := h.addCopy a.1 a.2) (l := l ++ [a.2.copy a.1])
      ((add_enabled h _).trans henabled) (by rw [addCopy, add_depth]; exact hadd)
    rw [append_assoc, addCopy, add_depth] at hstep
    exact hstep

theorem msgs_addAll_enabledInit (maxHistoryDepth : Option Nat) (attr : HistoryAttributes)
    (adds : List (UInt64 × CachedMessage M MessageInfo)) :
    ((enabledInit maxHistoryDepth attr).addAll adds).msgs =
      (adds.rtake (enabledInit maxHistoryDepth attr : History α).depth).map
        fun a => a.2.copy a.1 := by
  have h := msgs_addAll (h := enabledInit maxHistoryDepth attr) (l := []) rfl (by
    simp [enabledInit, init]) adds
  rw [nil_append, rtake_map] at h
  exact h

theorem map_copied_get (h : History (CachedMessage M MessageInfo)) (stale : Nat → UInt64) :
    (h.getCachedMessage stale).map CachedMessage.copied = h.msgs.map CachedMessage.copied := by
  apply ext_getElem?
  intro i
  simp only [getCachedMessage, getElem?_map, getElem?_mapIdx, Option.map_map]
  rfl

/-- **Everything but the send times comes out as it was added**: the last `depth` messages in
order. -/
theorem map_copied_getCachedMessage (maxHistoryDepth : Option Nat) (attr : HistoryAttributes)
    (adds : List (UInt64 × CachedMessage M MessageInfo)) (stale : Nat → UInt64) :
    (((enabledInit maxHistoryDepth attr).addAll adds).getCachedMessage stale).map
        CachedMessage.copied =
      ((adds.map Prod.snd).rtake (enabledInit maxHistoryDepth attr : History α).depth).map
        CachedMessage.copied := by
  rw [map_copied_get, msgs_addAll_enabledInit (α := α), rtake_map, map_map, map_map]
  rfl

theorem copy_eq_iff (stale : UInt64) (m : CachedMessage M MessageInfo) :
    m.copy stale = m ↔ stale = m.msgInfo.sendTime := by
  constructor
  · intro h
    exact congrArg (fun m => m.msgInfo.sendTime) h
  · intro h
    rw [h]
    rfl

/-- **`GetCachedMessage` returns the last `depth` messages with the infos that were added exactly
when the memory that it copies them to holds their send times**, for every configuration and every
sequence of `Add` calls. -/
theorem returns_added_iff (maxHistoryDepth : Option Nat) (attr : HistoryAttributes)
    (adds : List (UInt64 × CachedMessage M MessageInfo)) (stale : Nat → UInt64) :
    let h := (enabledInit maxHistoryDepth attr).addAll adds
    h.getCachedMessage stale = (adds.map Prod.snd).rtake h.depth ↔
      ∀ i m, ((adds.map Prod.snd).rtake h.depth)[i]? = some m → stale i = m.msgInfo.sendTime := by
  intro h
  have hdepth : h.depth = (enabledInit maxHistoryDepth attr : History M).depth :=
    depth_addAll _ adds
  rw [hdepth, getCachedMessage, msgs_addAll_enabledInit (α := M), rtake_map]
  constructor
  · intro heq i m hm
    rw [← heq, getElem?_mapIdx] at hm
    obtain ⟨m', hm', rfl⟩ := Option.map_eq_some_iff.1 hm
    rfl
  · intro hall
    apply ext_getElem?
    intro i
    rw [getElem?_mapIdx, getElem?_map, getElem?_map, Option.map_map]
    cases ha : (adds.rtake (enabledInit maxHistoryDepth attr : History M).depth)[i]? with
    | none => rfl
    | some a =>
      have hm := hall i a.2 (by rw [getElem?_map, ha]; rfl)
      exact congrArg some ((copy_eq_iff (stale i) a.2).2 hm)

def sentAtFive : CachedMessage Nat MessageInfo :=
  ⟨7, ⟨⟨Vector.replicate idSize 0, 0⟩, 0, 1, ⟨Vector.replicate idSize 0, 0⟩, 5⟩⟩

/-- It comes out with the send time zero, of fresh memory. -/
theorem not_returns_added_five :
    ((enabledInit none ⟨.keepLast, 1⟩).addAll [(0, sentAtFive)]).getCachedMessage (fun _ => 0) ≠
      [sentAtFive] := by
  decide +kernel

end History

end Transport
