import CyberRT.Lib.Run
import CyberRT.Transport.Hybrid

/-!
# When a mode's transmitter is enabled

`Consistent t`: for every mode, the transmitter is enabled if and only if the mode has a receiver.
Whether it stays so is said by the calls alone, mode by mode (`CallBook.CallOk`).
-/

namespace Transport

open Function Lib

/-! ## The calls of a mode -/

/-- What the calls made so far for the peers of a mode amount to: the peers that are in, and by how
much the `Enable` calls outnumber the `Disable` calls, for peers that get messages from the arena
(`true`) and for those that get serialized ones. A `Disable` while no peer is in does not count. -/
structure CallBook where
  peers : Finset UInt64
  surplus : Bool → Int32

def countsArena (arenaTransmit : Bool) (opposite : RoleAttributes) : Bool :=
  arenaTransmit && !isSerializedType opposite.messageType

namespace CallBook

def empty : CallBook := ⟨∅, fun _ => 0⟩

def counted (b : CallBook) (kind : Bool) (d : Int32) : Bool → Int32 :=
  update b.surplus kind (b.surplus kind + d)

def call (arenaTransmit : Bool) (b : CallBook) : HybridOp → CallBook
  | .enable opposite _ =>
    ⟨insert opposite.id b.peers, b.counted (countsArena arenaTransmit opposite) 1⟩
  | .disable opposite =>
    ⟨b.peers.erase opposite.id,
      if b.peers.Nonempty then b.counted (countsArena arenaTransmit opposite) (-1) else b.surplus⟩

/-- The condition on a call, by what was called before. Intra and RTPS: a `Disable` is for the last
peer. Shared memory: a `Disable` is for the last peer exactly if it is the last of the `Enable`
calls that it takes back. The first peer finds its channel made, and its `Enable` does not only make
up for a `Disable` too many. -/
def CallOk (arenaTransmit : Bool) : OptionalMode → CallBook → HybridOp → Prop
  | .intra, _, .enable _ _ => True
  | .shm, b, .enable opposite created =>
    let kind := countsArena arenaTransmit opposite
    b.peers.Nonempty ∨ ¬ (b.surplus kind = -1 ∧ b.surplus (!kind) = 0) ∧
      (arenaTransmit = true → created = true)
  | .shm, b, .disable opposite =>
    let kind := countsArena arenaTransmit opposite
    b.peers.Nonempty → (b.peers ⊆ {opposite.id} ↔
      b.surplus kind - 1 ≤ 0 ∧ (arenaTransmit = true → b.surplus (!kind) ≤ 0))
  | _, b, .enable _ created => b.peers.Nonempty ∨ created = true
  | _, b, .disable opposite => b.peers ⊆ {opposite.id}

end CallBook

/-! ## One call -/

namespace Transmitter

def Consistent (t : Transmitter) (receivers : Finset UInt64) : Prop :=
  t.enabled = true ↔ receivers.Nonempty

def call (t : Transmitter) : HybridOp → Transmitter
  | .enable opposite created => t.enable opposite created
  | .disable opposite => t.disable opposite

/-- The transmitter of a mode, with the counters that the calls amount to. -/
def ofCalls (arenaTransmit : Bool) (b : CallBook) (active : Bool) : OptionalMode → Transmitter
  | .intra => .intra ⟨active⟩
  | .shm => .shm ⟨arenaTransmit, active, b.surplus false, b.surplus true⟩
  | .rtps | .hybrid => .rtps ⟨active⟩

variable {arenaTransmit active : Bool} {b : CallBook}

@[simp] theorem ofCalls_enabled (mode : OptionalMode) :
    (ofCalls arenaTransmit b active mode).enabled = active := by
  cases mode <;> rfl

theorem count_ofCalls (opposite : RoleAttributes) (d : Int32) :
    ShmTransmitter.count ⟨arenaTransmit, active, b.surplus false, b.surplus true⟩ opposite d =
      ⟨arenaTransmit, active, b.counted (countsArena arenaTransmit opposite) d false,
        b.counted (countsArena arenaTransmit opposite) d true⟩ := by
  unfold ShmTransmitter.count CallBook.counted countsArena
  cases arenaTransmit && !isSerializedType opposite.messageType <;> simp

theorem counted_one (kind : Bool) : (b.counted kind 1 false = 0 ∧ b.counted kind 1 true = 0) ↔
    b.surplus kind = -1 ∧ b.surplus (!kind) = 0 := by
  have hone : ∀ x : Int32, x + 1 = 0 ↔ x = -1 := fun x => by grind
  cases kind
  · simp [CallBook.counted, hone]
  · simp [CallBook.counted, hone, and_comm]

theorem noReceivers_iff (opposite : RoleAttributes) :
    (ShmTransmitter.count ⟨arenaTransmit, active, b.surplus false, b.surplus true⟩ opposite
        (-1)).noReceivers = true ↔
      b.surplus (countsArena arenaTransmit opposite) - 1 ≤ 0 ∧
        (arenaTransmit = true → b.surplus (!countsArena arenaTransmit opposite) ≤ 0) := by
  simp only [count_ofCalls, ShmTransmitter.noReceivers, CallBook.counted, Int32.sub_eq_add_neg]
  cases arenaTransmit
  · simp [countsArena]
  · cases countsArena true opposite <;> simp [and_comm]

theorem erase_nonempty_iff {receivers : Finset UInt64} {id : UInt64} :
    (receivers.erase id).Nonempty ↔ ¬ receivers ⊆ {id} := by
  rw [Finset.nonempty_iff_ne_empty, ne_eq, Finset.erase_eq_empty_iff, Finset.subset_singleton_iff]

/-- **A call leaves the transmitter with the counters of the calls**, and on exactly if a peer is in
then if and only if the call meets the condition. -/
theorem call_ofCalls (mode : OptionalMode) (hon : active = true ↔ b.peers.Nonempty)
    (op : HybridOp) : ∃ active', (ofCalls arenaTransmit b active mode).call op =
        ofCalls arenaTransmit (b.call arenaTransmit op) active' mode ∧
      (CallBook.CallOk arenaTransmit mode b op ↔
        (active' = true ↔ (b.call arenaTransmit op).peers.Nonempty)) := by
  cases op with
  | enable opposite created =>
    simp only [CallBook.call, Finset.insert_nonempty, iff_true]
    cases mode with
    | intra => exact ⟨true, rfl, iff_of_true trivial rfl⟩
    | rtps | hybrid =>
      refine ⟨active || created, ?_, by simp [CallBook.CallOk, hon]⟩
      cases active <;> cases created <;> rfl
    | shm =>
      simp only [ofCalls, call, Transmitter.enable, ShmTransmitter.enable, count_ofCalls,
        ShmTransmitter.switchOn, counted_one, CallBook.CallOk, ← hon]
      cases active with
      | true => exact ⟨true, rfl, by simp⟩
      | false =>
        by_cases h0 : b.surplus (countsArena arenaTransmit opposite) = -1 ∧
          b.surplus (!countsArena arenaTransmit opposite) = 0
        · exact ⟨false, by simp [h0], by simp [h0]⟩
        · refine ⟨!arenaTransmit || created, ?_, by cases arenaTransmit <;> simp [h0]⟩
          cases arenaTransmit <;> cases created <;> simp [h0]
  | disable opposite =>
    simp only [CallBook.call, erase_nonempty_iff]
    cases mode with
    | intra | rtps | hybrid =>
      exact ⟨false, rfl, by simp [CallBook.CallOk, -Finset.subset_singleton_iff]⟩
    | shm =>
      simp only [ofCalls, call, Transmitter.disable, ShmTransmitter.disable, CallBook.CallOk,
        ← hon, ← @noReceivers_iff arenaTransmit active b]
      cases active with
      | true =>
        refine ⟨!(ShmTransmitter.count ⟨arenaTransmit, true, b.surplus false, b.surplus true⟩
          opposite (-1)).noReceivers, ?_, ?_⟩ <;>
        cases (ShmTransmitter.count ⟨arenaTransmit, true, b.surplus false, b.surplus true⟩
          opposite (-1)).noReceivers <;> simp [count_ofCalls, -Finset.subset_singleton_iff]
      | false =>
        -- off, so there is no receiver, and the call changes nothing
        have hr : b.peers = ∅ := by simpa using hon
        exact ⟨false, by simp, by simp [hr]⟩

end Transmitter

/-! ## Every sequence of calls -/

namespace HybridTransmitter

def ConsistentIn (mode : OptionalMode) (t : HybridTransmitter) : Prop :=
  (t.transmitters mode).Consistent (t.receivers mode)

/-- **The invariant**: in every mode the transmitter is enabled exactly when there is a receiver. -/
def Consistent (t : HybridTransmitter) : Prop := ∀ mode, t.ConsistentIn mode

/-- The mode of a peer. -/
def modeOf (t : HybridTransmitter) (opposite : RoleAttributes) : Option OptionalMode :=
  if t.getRelation opposite = .noRelation then none
  else some (t.mappingTable (t.getRelation opposite))

/-- The calls for the peers of a mode. -/
def callsIn (t : HybridTransmitter) (mode : OptionalMode) (ops : List HybridOp) : List HybridOp :=
  ops.filter fun op => t.modeOf op.opposite = some mode

variable {t : HybridTransmitter} {b : CallBook} {mode : OptionalMode} {arenaTransmit : Bool}

theorem modeOf_step (op : HybridOp) : (t.step op).modeOf = t.modeOf := by
  cases op <;> simp only [step, enable, disable] <;> split <;> rfl

/-- The transmitter of a mode is as the calls for its peers leave it. -/
structure Follows (arenaTransmit : Bool) (mode : OptionalMode) (t : HybridTransmitter)
    (b : CallBook) : Prop where
  receivers : t.receivers mode = b.peers
  transmitter : ∃ active, t.transmitters mode = .ofCalls arenaTransmit b active mode ∧
    (active = true ↔ b.peers.Nonempty)

theorem follows_init (attr : RoleAttributes) (mappingTable : Relation → OptionalMode)
    (arenaTransmit : Bool) (mode : OptionalMode) :
    Follows arenaTransmit mode (init attr mappingTable arenaTransmit) .empty :=
  ⟨rfl, false, by cases mode <;> rfl, by simp [CallBook.empty]⟩

theorem Follows.consistent (h : Follows arenaTransmit mode t b) : t.ConsistentIn mode := by
  obtain ⟨hr, active, ht, hon⟩ := h
  rw [ConsistentIn, ht, hr, Transmitter.Consistent, Transmitter.ofCalls_enabled]
  exact hon

theorem Follows.other (h : Follows arenaTransmit mode t b) {op : HybridOp}
    (hop : t.modeOf op.opposite ≠ some mode) : Follows arenaTransmit mode (t.step op) b := by
  have hsame : (t.step op).receivers mode = t.receivers mode ∧
      (t.step op).transmitters mode = t.transmitters mode := by
    cases op <;> simp only [step, enable, disable] <;> split
    all_goals
      first
      | exact ⟨rfl, rfl⟩
      | rename_i hrel
        have hne := fun heq => hop ((if_neg hrel).trans (congrArg some (Eq.symm heq)))
        exact ⟨update_of_ne hne _ _, update_of_ne hne _ _⟩
  exact ⟨hsame.1.trans h.receivers, hsame.2 ▸ h.transmitter⟩

/-- A call for a peer of the mode meets the condition if and only if it leaves the mode consistent,
and then the transmitter goes on following the calls. -/
theorem Follows.call (h : Follows arenaTransmit mode t b) {op : HybridOp}
    (hop : t.modeOf op.opposite = some mode) :
    (CallBook.CallOk arenaTransmit mode b op ↔ (t.step op).ConsistentIn mode) ∧
      ((t.step op).ConsistentIn mode →
        Follows arenaTransmit mode (t.step op) (b.call arenaTransmit op)) := by
  obtain ⟨hr, active, ht, hon⟩ := h
  have hstep : (t.step op).receivers mode = (b.call arenaTransmit op).peers ∧
      (t.step op).transmitters mode = (t.transmitters mode).call op := by
    unfold modeOf at hop
    split at hop
    · cases hop
    · cases hop
      cases op <;> simp_all [step, enable, disable, HybridOp.opposite, CallBook.call,
        Transmitter.call]
  obtain ⟨active', hcall, hok⟩ := Transmitter.call_ofCalls mode hon op
  have hnext : (t.step op).ConsistentIn mode ↔
      (active' = true ↔ (b.call arenaTransmit op).peers.Nonempty) := by
    rw [ConsistentIn, hstep.1, hstep.2, ht, hcall, Transmitter.Consistent,
      Transmitter.ofCalls_enabled]
  rw [hnext]
  exact ⟨hok, fun hon' => ⟨hstep.1, active', by rw [hstep.2, ht, hcall], hon'⟩⟩

theorem Follows.always_iff (h : Follows arenaTransmit mode t b) (ops : List HybridOp) :
    Always step (ConsistentIn mode) t ops ↔
      Along (CallBook.call arenaTransmit) (CallBook.CallOk arenaTransmit mode) b
        (t.callsIn mode ops) := by
  induction ops generalizing t b with
  | nil => exact iff_of_true h.consistent trivial
  | cons op ops ih =>
    have hcalls : t.callsIn mode ops = (t.step op).callsIn mode ops := by
      simp only [callsIn, modeOf_step]
    by_cases hop : t.modeOf op.opposite = some mode
    · rw [callsIn, List.filter_cons_of_pos (by simpa using hop), Along, (h.call hop).1]
      constructor
      · intro hall
        refine ⟨hall.2.head, ?_⟩
        rw [← callsIn, hcalls]
        exact (ih ((h.call hop).2 hall.2.head)).1 hall.2
      · intro hall
        rw [← callsIn, hcalls] at hall
        exact ⟨h.consistent, (ih ((h.call hop).2 hall.1)).2 hall.2⟩
    · rw [callsIn, List.filter_cons_of_neg (by simpa using hop), ← callsIn, hcalls,
        ← ih (h.other hop)]
      exact and_iff_right h.consistent

/-- **The exact condition**: along a sequence of `Enable` and `Disable` calls, every mode's
transmitter is enabled exactly while the mode has a receiver if and only if, for each mode, the
calls for its peers meet `CallOk` one after the other. -/
theorem consistent_iff (attr : RoleAttributes) (mappingTable : Relation → OptionalMode)
    (arenaTransmit : Bool) (ops : List HybridOp) :
    let t := init attr mappingTable arenaTransmit
    Always step Consistent t ops ↔ ∀ mode, Along (CallBook.call arenaTransmit)
      (CallBook.CallOk arenaTransmit mode) .empty (t.callsIn mode ops) := by
  simp only [← (follows_init attr mappingTable arenaTransmit _).always_iff, always_iff]
  exact ⟨fun h mode pre suf hops => h pre suf hops mode, fun h pre suf hops mode =>
    h mode pre suf hops⟩

def localPeer (id : UInt64) : RoleAttributes := ⟨"10.0.0.1", 1, "/chatter", "Chatter", id⟩

def defaultMapping : Relation → OptionalMode
  | .sameProc => .intra
  | .diffProc => .shm
  | .diffHost => .rtps
  | .noRelation => .hybrid

/-- Two readers in the writer's process: disabling the first stops delivery to the second. -/
theorem not_consistent_two_local :
    ¬ Always step Consistent (init (localPeer 1) defaultMapping false)
      [.enable (localPeer 2) true, .enable (localPeer 3) true, .disable (localPeer 2)] := by
  intro h
  have hlast := h.last .intra
  revert hlast
  unfold ConsistentIn Transmitter.Consistent
  decide

end HybridTransmitter

end Transport
