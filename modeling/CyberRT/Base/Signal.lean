import Mathlib.Data.List.Basic

/-!
# Signals and slots (`cyber/base/signal.h`)

Slots are heap objects shared by pointer, so a slot carries its address and `Connection.hasSlot`
compares addresses.
-/

namespace Base

open List

structure Slot (L : Type*) where
  addr : Nat
  cb : L
  connected : Bool

structure Connection where
  slot : Nat

structure Signal (L : Type*) where
  slots : List (Slot L)

variable {L A : Type*}

def Connection.hasSlot (c : Connection) (s : Slot L) : Bool := c.slot == s.addr

namespace Signal

def empty : Signal L := ⟨[]⟩

def clearDisconnectedSlots (s : Signal L) : Signal L := ⟨s.slots.filter (·.connected)⟩

def emit (s : Signal L) (args : A) : List (L × A) × Signal L :=
  ((s.slots.filter (·.connected)).map fun slot => (slot.cb, args), s.clearDisconnectedSlots)

def connect (s : Signal L) (addr : Nat) (cb : L) : Signal L × Connection :=
  (⟨s.slots ++ [⟨addr, cb, true⟩]⟩, ⟨addr⟩)

def disconnect (s : Signal L) (c : Connection) : Signal L :=
  let marked : Signal L :=
    ⟨s.slots.map fun slot => if c.hasSlot slot then { slot with connected := false } else slot⟩
  if s.slots.any c.hasSlot then marked.clearDisconnectedSlots else marked

def isConnected (s : Signal L) (c : Connection) : Bool :=
  s.slots.any fun slot => c.hasSlot slot && slot.connected

def AllConnected (s : Signal L) : Prop := ∀ slot ∈ s.slots, slot.connected = true

variable {s : Signal L}

theorem AllConnected.filter (h : s.AllConnected) :
    s.slots.filter (·.connected) = s.slots := filter_eq_self.2 h

theorem AllConnected.emit (h : s.AllConnected) (args : A) :
    s.emit args = (s.slots.map fun slot => (slot.cb, args), s) := by
  simp only [Signal.emit, clearDisconnectedSlots, h.filter]

theorem isConnected_connect (s : Signal L) (addr : Nat) (cb : L) :
    (s.connect addr cb).1.isConnected (s.connect addr cb).2 = true := by
  simp [connect, isConnected, Connection.hasSlot]

theorem hasSlot_eq_false {c : Connection} {slot : Slot L} :
    c.hasSlot slot = false ↔ slot.addr ≠ c.slot := by
  simp only [Connection.hasSlot, beq_eq_false_iff_ne, ne_comm]

theorem AllConnected.disconnect (h : s.AllConnected) (c : Connection) :
    s.disconnect c = ⟨s.slots.filter fun slot => slot.addr != c.slot⟩ := by
  have hmark : (s.slots.map fun slot =>
        if c.hasSlot slot then { slot with connected := false } else slot).filter (·.connected) =
      s.slots.filter fun slot => slot.addr != c.slot := by
    rw [filter_map, filter_congr (q := fun slot => slot.addr != c.slot)]
    · refine (map_congr_left fun slot hs => ?_).trans (map_id _)
      have hne := hasSlot_eq_false.2 (bne_iff_ne.1 (mem_filter.1 hs).2)
      simp [hne]
    · intro slot hs
      have hcon := h slot hs
      by_cases hc : slot.addr = c.slot
      · simp [Connection.hasSlot, hc]
      · simp [hasSlot_eq_false.2 hc, hcon, hc]
  unfold Signal.disconnect
  split
  · simp only [clearDisconnectedSlots, hmark]
  · rename_i hn
    simp only [any_eq_true, not_exists, not_and, Bool.not_eq_true] at hn
    have hid : (s.slots.map fun slot =>
        if c.hasSlot slot then { slot with connected := false } else slot) = s.slots := by
      refine (map_congr_left fun slot hs => ?_).trans (map_id _)
      simp [hn slot hs]
    rw [hid] at hmark ⊢
    rw [← hmark, h.filter]

end Signal
end Base
