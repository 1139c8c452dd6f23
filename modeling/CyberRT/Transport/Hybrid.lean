import Mathlib.Data.Finset.Basic
import CyberRT.Lib.Decimal

/-!
# `HybridTransmitter` (`transport/transmitter/hybrid_transmitter.h`)

A hybrid transmitter has one transmitter for each mode its mapping table uses, and for each mode the
set of the ids of its receivers.
-/

namespace Transport

open Function

structure RoleAttributes where
  hostIp : String
  processId : Int
  channelName : String
  messageType : String
  id : UInt64

inductive OptionalMode where
  | hybrid | intra | shm | rtps
  deriving DecidableEq

inductive Relation where
  | noRelation | diffHost | diffProc | sameProc
  deriving DecidableEq

structure IntraTransmitter where
  enabled : Bool

structure RtpsTransmitter where
  enabled : Bool

structure ShmTransmitter where
  arenaTransmit : Bool
  enabled : Bool
  serializedReceiverCount : Int32
  arenaReceiverCount : Int32

def IntraTransmitter.enable (_ : IntraTransmitter) : IntraTransmitter := ⟨true⟩

def IntraTransmitter.disable (_ : IntraTransmitter) : IntraTransmitter := ⟨false⟩

def RtpsTransmitter.enable (t : RtpsTransmitter) (created : Bool) : RtpsTransmitter :=
  if t.enabled then t else if created then ⟨true⟩ else t

def RtpsTransmitter.disable (_ : RtpsTransmitter) : RtpsTransmitter := ⟨false⟩

/-- The message types that an arena transmitter still serializes for: `MessageType` of `RawMessage`
and of `PyMessageWrap`. -/
def isSerializedType (messageType : String) : Bool :=
  messageType == "apollo.cyber.message.RawMessage" ||
    messageType == "apollo.cyber.message.PyMessage"

namespace ShmTransmitter

variable (t : ShmTransmitter)

def count (opposite : RoleAttributes) (d : Int32) : ShmTransmitter :=
  if t.arenaTransmit && !isSerializedType opposite.messageType then
    { t with arenaReceiverCount := t.arenaReceiverCount + d }
  else { t with serializedReceiverCount := t.serializedReceiverCount + d }

def switchOn (created : Bool) : ShmTransmitter :=
  if t.enabled then t
  else if t.serializedReceiverCount = 0 ∧ t.arenaReceiverCount = 0 then t
  else if t.arenaTransmit && !created then t
  else { t with enabled := true }

def enable (opposite : RoleAttributes) (created : Bool) : ShmTransmitter :=
  let t := t.count opposite 1
  if !t.enabled then t.switchOn created else t

def noReceivers : Bool :=
  if t.arenaTransmit then t.serializedReceiverCount ≤ 0 && t.arenaReceiverCount ≤ 0
  else t.serializedReceiverCount ≤ 0

def disable (opposite : RoleAttributes) : ShmTransmitter :=
  if t.enabled then
    let t := t.count opposite (-1)
    if t.noReceivers then { t with enabled := false } else t
  else t

end ShmTransmitter

inductive Transmitter where
  | intra (t : IntraTransmitter)
  | shm (t : ShmTransmitter)
  | rtps (t : RtpsTransmitter)

namespace Transmitter

def enabled : Transmitter → Bool
  | .intra t => t.enabled
  | .shm t => t.enabled
  | .rtps t => t.enabled

def enable (opposite : RoleAttributes) (created : Bool) : Transmitter → Transmitter
  | .intra t => .intra t.enable
  | .shm t => .shm (t.enable opposite created)
  | .rtps t => .rtps (t.enable created)

def disable (opposite : RoleAttributes) : Transmitter → Transmitter
  | .intra t => .intra t.disable
  | .shm t => .shm (t.disable opposite)
  | .rtps t => .rtps t.disable

def init (arenaTransmit : Bool) : OptionalMode → Transmitter
  | .intra => .intra ⟨false⟩
  | .shm => .shm ⟨arenaTransmit, false, 0, 0⟩
  | .hybrid | .rtps => .rtps ⟨false⟩

end Transmitter

/-- `HybridTransmitter`. `transmitters` and `receivers` are total: a mode that `mappingTable` does
not use has a transmitter and a set that no call reaches. -/
structure HybridTransmitter where
  attr : RoleAttributes
  mappingTable : Relation → OptionalMode
  transmitters : OptionalMode → Transmitter
  receivers : OptionalMode → Finset UInt64

inductive HybridOp where
  | enable (opposite : RoleAttributes) (created : Bool)
  | disable (opposite : RoleAttributes)

def HybridOp.opposite : HybridOp → RoleAttributes
  | .enable opposite _ => opposite
  | .disable opposite => opposite

namespace HybridTransmitter

def init (attr : RoleAttributes) (mappingTable : Relation → OptionalMode) (arenaTransmit : Bool) :
    HybridTransmitter :=
  ⟨attr, mappingTable, Transmitter.init arenaTransmit, fun _ => ∅⟩

def getRelation (t : HybridTransmitter) (opposite : RoleAttributes) : Relation :=
  if opposite.channelName ≠ t.attr.channelName then .noRelation
  else if opposite.hostIp ≠ t.attr.hostIp then .diffHost
  else if opposite.processId ≠ t.attr.processId then .diffProc
  else .sameProc

def enable (t : HybridTransmitter) (opposite : RoleAttributes) (created : Bool) :
    HybridTransmitter :=
  let relation := t.getRelation opposite
  if relation = .noRelation then t
  else
    let mode := t.mappingTable relation
    { t with
      receivers := update t.receivers mode (insert opposite.id (t.receivers mode))
      transmitters := update t.transmitters mode ((t.transmitters mode).enable opposite created) }

def disable (t : HybridTransmitter) (opposite : RoleAttributes) : HybridTransmitter :=
  let relation := t.getRelation opposite
  if relation = .noRelation then t
  else
    let mode := t.mappingTable relation
    { t with
      receivers := update t.receivers mode ((t.receivers mode).erase opposite.id)
      transmitters := update t.transmitters mode ((t.transmitters mode).disable opposite) }

def step (t : HybridTransmitter) : HybridOp → HybridTransmitter
  | .enable opposite created => t.enable opposite created
  | .disable opposite => t.disable opposite

end HybridTransmitter

/-!
## `HybridReceiver` (`transport/receiver/hybrid_receiver.h`)

A hybrid receiver has for each mode the writers that it is enabled for, by their ids.
-/

structure HybridReceiver where
  attr : RoleAttributes
  mappingTable : Relation → OptionalMode
  transmitters : OptionalMode → Finset UInt64

namespace HybridReceiver

def init (attr : RoleAttributes) (mappingTable : Relation → OptionalMode) : HybridReceiver :=
  ⟨attr, mappingTable, fun _ => ∅⟩

def getRelation (r : HybridReceiver) (opposite : RoleAttributes) : Relation :=
  if opposite.channelName ≠ r.attr.channelName then .noRelation
  else if opposite.hostIp ≠ r.attr.hostIp then .diffHost
  else if opposite.processId ≠ r.attr.processId then .diffProc
  else .sameProc

def enable (r : HybridReceiver) (opposite : RoleAttributes) : HybridReceiver :=
  let relation := r.getRelation opposite
  if relation = .noRelation then r
  else
    let mode := r.mappingTable relation
    if opposite.id ∈ r.transmitters mode then r
    else
      { r with
        transmitters := update r.transmitters mode (insert opposite.id (r.transmitters mode)) }

def disable (r : HybridReceiver) (opposite : RoleAttributes) : HybridReceiver :=
  let relation := r.getRelation opposite
  if relation = .noRelation then r
  else
    let mode := r.mappingTable relation
    if opposite.id ∈ r.transmitters mode then
      { r with
        transmitters := update r.transmitters mode ((r.transmitters mode).erase opposite.id) }
    else r

def Enabled (r : HybridReceiver) (id : UInt64) : Prop := ∃ mode, id ∈ r.transmitters mode

def modeOf (r : HybridReceiver) (opposite : RoleAttributes) : OptionalMode :=
  r.mappingTable (r.getRelation opposite)

def SameConf (r r' : HybridReceiver) : Prop := r'.attr = r.attr ∧ r'.mappingTable = r.mappingTable

theorem SameConf.modeOf_eq {r r' : HybridReceiver} (h : SameConf r r') (opposite : RoleAttributes) :
    r'.modeOf opposite = r.modeOf opposite := by
  simp only [modeOf, getRelation, h.1, h.2]

variable {r : HybridReceiver} {opposite : RoleAttributes}

section
variable (h : opposite.channelName = r.attr.channelName)
include h

theorem getRelation_ne : r.getRelation opposite ≠ .noRelation := by
  unfold getRelation
  rw [if_neg (not_not_intro h)]
  split
  · decide
  · split <;> decide

omit h in
theorem sameConf_enable (r : HybridReceiver) (opposite : RoleAttributes) :
    SameConf r (r.enable opposite) := by
  unfold enable
  dsimp only
  split
  · exact ⟨rfl, rfl⟩
  · split <;> exact ⟨rfl, rfl⟩

omit h in
theorem sameConf_disable (r : HybridReceiver) (opposite : RoleAttributes) :
    SameConf r (r.disable opposite) := by
  unfold disable
  dsimp only
  split
  · exact ⟨rfl, rfl⟩
  · split <;> exact ⟨rfl, rfl⟩

theorem mem_enable (mode : OptionalMode) (id : UInt64) :
    id ∈ (r.enable opposite).transmitters mode ↔
      id ∈ r.transmitters mode ∨ mode = r.modeOf opposite ∧ id = opposite.id := by
  unfold enable
  rw [if_neg (getRelation_ne h)]
  dsimp only
  split
  · rename_i hmem
    refine ⟨.inl, fun hor => hor.elim (fun h => h) fun hnew => ?_⟩
    rw [hnew.1, hnew.2]
    exact hmem
  · by_cases hmode : mode = r.modeOf opposite
    · subst hmode
      simp [modeOf, or_comm]
    · have hne : mode ≠ r.mappingTable (r.getRelation opposite) := hmode
      simp [hmode, hne]

theorem mem_disable (mode : OptionalMode) (id : UInt64) :
    id ∈ (r.disable opposite).transmitters mode ↔
      id ∈ r.transmitters mode ∧ ¬ (mode = r.modeOf opposite ∧ id = opposite.id) := by
  unfold disable
  rw [if_neg (getRelation_ne h)]
  dsimp only
  split
  · by_cases hmode : mode = r.modeOf opposite
    · subst hmode
      simp [modeOf, and_comm]
    · have hne : mode ≠ r.mappingTable (r.getRelation opposite) := hmode
      simp [hmode, hne]
  · rename_i hmem
    refine ⟨fun hid => ⟨hid, fun hnew => hmem ?_⟩, fun hid => hid.1⟩
    rw [hnew.1, hnew.2] at hid
    exact hid

end

end HybridReceiver

/-!
## The channel of a replay (`HybridTransmitter::ThreadFunc`, `HybridReceiver::ThreadFunc`)

A writer that replays its history to a reader does so on a channel of its own, which both name after
the two ids: the decimal numeral of the writer's, then that of the reader's.
-/

open Lib

def HybridTransmitter.historyChannelName (attr opposite : RoleAttributes) : String :=
  toString attr.id ++ toString opposite.id

def HybridReceiver.historyChannelName (attr opposite : RoleAttributes) : String :=
  toString opposite.id ++ toString attr.id

def pairIds (p : RoleAttributes × RoleAttributes) : UInt64 × UInt64 := (p.1.id, p.2.id)

/-- **A replay reaches the reader that it is for and no other**: the name under which the writer of
`p` replays to the reader of `p` is the one that the reader of `q` listens to for the writer of `q`
if the two are the same writer and reader, and not otherwise. -/
def TellsApart (p q : RoleAttributes × RoleAttributes) : Prop :=
  HybridTransmitter.historyChannelName p.1 p.2 = HybridReceiver.historyChannelName q.2 q.1 ↔
    pairIds p = pairIds q

def Clash (p q : RoleAttributes × RoleAttributes) : Prop :=
  Shifted p.1.id.toNat p.2.id.toNat q.1.id.toNat q.2.id.toNat

theorem name_eq_iff (a b c d : UInt64) :
    toString a ++ toString b = toString c ++ toString d ↔
      digits a.toNat ++ digits b.toNat = digits c.toNat ++ digits d.toNat := by
  have htext : ∀ x y : UInt64,
      toString x ++ toString y = String.ofList (digits x.toNat ++ digits y.toNat) := by
    intro x y
    rw [String.ofList_append, ← Nat.toString_eq_ofList_toDigits, ← Nat.toString_eq_ofList_toDigits]
    rfl
  rw [htext, htext]
  exact ⟨String.ofList_injective, congrArg String.ofList⟩

theorem tellsApart_iff (p q : RoleAttributes × RoleAttributes) :
    TellsApart p q ↔ ¬ Clash p q ∧ ¬ Clash q p := by
  have hids : pairIds p = pairIds q ↔
      p.1.id.toNat = q.1.id.toNat ∧ p.2.id.toNat = q.2.id.toNat := by
    simp only [pairIds, Prod.mk.injEq, UInt64.toNat_inj]
  unfold TellsApart
  rw [HybridTransmitter.historyChannelName, HybridReceiver.historyChannelName, name_eq_iff,
    digits_append_eq_iff, hids]
  constructor
  · intro h
    refine ⟨fun hc => ?_, fun hc => ?_⟩
    · have hlt := hc.lt
      have := (h.1 (.inr (.inl hc))).1
      omega
    · have hlt := hc.lt
      have := (h.1 (.inr (.inr hc))).1
      omega
  · intro h
    exact ⟨fun hor => hor.resolve_right (not_or.2 h), .inl⟩

/-- **The replays of a set of writers and readers reach only the readers they are meant for exactly
when no two of the pairs are shifts of each other.** -/
theorem tells_pairs_apart_iff (pairs : Set (RoleAttributes × RoleAttributes)) :
    (∀ p ∈ pairs, ∀ q ∈ pairs, TellsApart p q) ↔ ∀ p ∈ pairs, ∀ q ∈ pairs, ¬ Clash p q := by
  constructor
  · intro h p hp q hq
    exact ((tellsApart_iff p q).1 (h p hp q hq)).1
  · intro h p hp q hq
    exact (tellsApart_iff p q).2 ⟨h p hp q hq, h q hq p hp⟩

def roleWithId (id : UInt64) : RoleAttributes := ⟨"10.0.0.1", 1, "/chatter", "Chatter", id⟩

/-- Writer 1 replays to reader 11, and reader 1 listens for writer 11. -/
theorem not_tells_apart_oneEleven : ¬ ∀ p q, TellsApart p q := by
  intro h
  have hids := (h (roleWithId 1, roleWithId 11) (roleWithId 11, roleWithId 1)).1 (by decide)
  exact absurd hids (by decide)

end Transport
