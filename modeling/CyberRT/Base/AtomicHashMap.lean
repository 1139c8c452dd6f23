import CyberRT.Lib.Chain
import CyberRT.Lib.Run

/-!
# `AtomicHashMap` (`base/atomic_hash_map.h`)

Each bucket is a linked list of entries in the order of their keys, behind a `head_` whose key is
never looked at.
-/

namespace Base

open Function Lib

/-- The template's parameters: the table has `2^logSize` buckets; `toUInt64` is the conversion of a
key for `key & mode_num_`; `movedFrom` is what is left of a value that was moved. -/
structure MapConf (K V : Type*) where
  logSize : Nat
  toUInt64 : K → UInt64
  movedFrom : V → V

def MapConf.index {K V : Type*} (c : MapConf K V) (key : K) : Nat :=
  (c.toUInt64 key).toNat &&& (2 ^ c.logSize - 1)

inductive NodeRef
  | head (bucket : Nat)
  | entry (addr : Nat)
  deriving DecidableEq

structure MapEntry (K : Type*) where
  key : K
  valuePtr : Nat

structure MapMemory (K V : Type*) where
  entries : Nat → Option (MapEntry K)
  next : NodeRef → Option Nat
  vals : Nat → Option V

/-- The locals of `Insert`. `arg` is what the caller passed (`V()` if nothing), `value` what the
parameter holds now; `moves`: it is the overload for `V&&`. -/
structure SetCall (K V : Type*) where
  key : K
  arg : V
  moves : Bool
  value : V
  newEntry : Option Nat
  newValue : Option Nat
  deriving DecidableEq

inductive MapCall (K V : Type*) where
  | has (key : K) (due : Bool)
  | get (key : K) (due : Bool)
  | set (call : SetCall K V)
  deriving DecidableEq

def MapCall.key {K V : Type*} : MapCall K V → K
  | .has k _ | .get k _ => k
  | .set c => c.key

/-- Where a thread is. `first`: before the load of `head_->next`; `visit`: with a `prev` and a
target, before the test of the target's key and, if it is too small, the load of its `next`.
Then, for `Get`: before the load of `value_ptr`, before the read of the value. For an `Insert` that
has found the key: before `new V`, before the load of `value_ptr`, before the compare-exchange,
before `delete old_val_ptr`, before `delete new_entry`. For one that has not: before `new Entry`,
before the store of its `next`, before the compare-exchange, before `delete new_value`.
A `Get` that read memory that is not in use got `some none`. -/
inductive MapPc (K V : Type*) where
  | idle
  | first (call : MapCall K V)
  | visit (call : MapCall K V) (prev : NodeRef) (target : Option Nat)
  | loadPtr (key : K) (due : Bool) (entry : Nat)
  | deref (key : K) (due : Bool) (entry ptr : Nat)
  | newValue (call : SetCall K V) (entry : Nat)
  | loadOld (call : SetCall K V) (entry : Nat)
  | casValue (call : SetCall K V) (entry old : Nat)
  | deleteOld (call : SetCall K V) (old : Nat)
  | deleteEntry (call : SetCall K V)
  | newEntry (call : SetCall K V) (prev : NodeRef) (target : Option Nat)
  | storeNext (call : SetCall K V) (prev : NodeRef) (target : Option Nat)
  | casNext (call : SetCall K V) (prev : NodeRef) (target : Option Nat)
  | deleteValue (call : SetCall K V)
  | hasResult (key : K) (due found : Bool)
  | getResult (key : K) (due : Bool) (value : Option (Option V))
  deriving DecidableEq

def MapPc.ready {K V : Type*} : MapPc K V → Bool
  | .idle | .hasResult _ _ _ | .getResult _ _ _ => true
  | _ => false

structure MapSystem (ι K V : Type*) where
  mem : MapMemory K V
  pcs : ι → MapPc K V
  stored : List (K × V)
  completed : List K

/-- `addr` and `cell` are the addresses that an allocation of the step would get, for an entry and
for a value. -/
inductive MapEvent (ι K V : Type*) where
  | has (i : ι) (key : K)
  | get (i : ι) (key : K)
  | set (i : ι) (key : K) (value : V) (moves : Bool)
  | step (i : ι) (addr cell : Nat)

namespace MapMemory

variable {K V : Type*} (m : MapMemory K V)

def keyAt (a : Nat) : Option K := (m.entries a).map MapEntry.key

def setVal (cell : Nat) (value : Option V) : MapMemory K V :=
  { m with vals := update m.vals cell value }

def setEntry (addr : Nat) (e : Option (MapEntry K)) : MapMemory K V :=
  { m with entries := update m.entries addr e }

def setNext (node : NodeRef) (target : Option Nat) : MapMemory K V :=
  { m with next := update m.next node target }

def Bucket (b : Nat) (l : List Nat) : Prop :=
  Chain (fun a => m.next (.entry a)) (m.next (.head b)) l

def KeyLt [LT K] (a a' : Nat) : Prop :=
  ∃ k k', m.keyAt a = some k ∧ m.keyAt a' = some k' ∧ k < k'

end MapMemory

namespace MapSystem

variable {ι K V : Type*}

def init : MapSystem ι K V :=
  ⟨⟨fun _ => none, fun _ => none, fun _ => none⟩, fun _ => .idle, [], []⟩

section
variable [DecidableEq ι] [LinearOrder K]

def put (s : MapSystem ι K V) (i : ι) (pc : MapPc K V) (m : MapMemory K V) : MapSystem ι K V :=
  { s with mem := m, pcs := update s.pcs i pc }

def finish (s : MapSystem ι K V) (i : ι) (key : K) (m : MapMemory K V) : MapSystem ι K V :=
  { s.put i .idle m with completed := key :: s.completed }

def found (call : MapCall K V) (e : Nat) : MapPc K V :=
  match call with
  | .has k due => .hasResult k due true
  | .get k due => .loadPtr k due e
  | .set c => .newValue c e

def notFound (call : MapCall K V) (prev : NodeRef) (target : Option Nat) : MapPc K V :=
  match call with
  | .has k due => .hasResult k due false
  | .get k due => .getResult k due none
  | .set c => .newEntry c prev target

def visitStep (m : MapMemory K V) (call : MapCall K V) (prev : NodeRef) : Option Nat → MapPc K V
  | none => notFound call prev none
  | some a =>
    match m.keyAt a with
    | none => .visit call prev (some a)
    | some k =>
      if k < call.key then .visit call (.entry a) (m.next (.entry a))
      else if k = call.key then found call a
      else notFound call prev (some a)

def threadStep (conf : MapConf K V) (s : MapSystem ι K V) (i : ι) (addr cell : Nat) :
    MapSystem ι K V :=
  let m := s.mem
  match s.pcs i with
  | .first call =>
    let b := conf.index call.key
    s.put i (.visit call (.head b) (m.next (.head b))) m
  | .visit call prev target => s.put i (visitStep m call prev target) m
  | .loadPtr k due a =>
    match m.entries a with
    | none => s
    | some e => s.put i (.deref k due a e.valuePtr) m
  | .deref k due _ ptr => s.put i (.getResult k due (some (m.vals ptr))) m
  | .newValue c a =>
    if c.newValue.isSome then s.put i (.loadOld c a) m
    else if (m.vals cell).isNone then
      s.put i (.loadOld { c with
          newValue := some cell, value := if c.moves then conf.movedFrom c.value else c.value } a)
        (m.setVal cell (some c.value))
    else s
  | .loadOld c a =>
    match m.entries a with
    | none => s
    | some e => s.put i (.casValue c a e.valuePtr) m
  | .casValue c a old =>
    match m.entries a, c.newValue with
    | some e, some v =>
      if e.valuePtr = old then
        { s.put i (.deleteOld { c with newValue := none } old)
            (m.setEntry a (some { e with valuePtr := v })) with
          stored := (c.key, c.arg) :: s.stored }
      else s.put i (.first (.set c)) m
    | _, _ => s
  | .deleteOld c old => s.put i (.deleteEntry c) (m.setVal old none)
  | .deleteEntry c =>
    match c.newEntry with
    | none => s.finish i c.key m
    | some a =>
      match m.entries a with
      | none => s
      | some e => s.finish i c.key ((m.setEntry a none).setVal e.valuePtr none)
  | .newEntry c prev target =>
    if c.newEntry.isSome then s.put i (.storeNext c prev target) m
    else if (m.entries addr).isNone ∧ (m.vals cell).isNone then
      s.put i (.storeNext { c with newEntry := some addr } prev target)
        (((m.setVal cell (some c.value)).setEntry addr (some ⟨c.key, cell⟩)).setNext (.entry addr)
          none)
    else s
  | .storeNext c prev target =>
    match c.newEntry with
    | none => s
    | some a => s.put i (.casNext c prev target) (m.setNext (.entry a) target)
  | .casNext c prev target =>
    match c.newEntry with
    | none => s
    | some a =>
      if m.next prev = target then
        { s.put i (.deleteValue { c with newEntry := none }) (m.setNext prev (some a)) with
          stored := (c.key, c.arg) :: s.stored }
      else s.put i (.first (.set c)) m
  | .deleteValue c =>
    match c.newValue with
    | none => s.finish i c.key m
    | some v => s.finish i c.key (m.setVal v none)
  | _ => s

def step (conf : MapConf K V) (s : MapSystem ι K V) : MapEvent ι K V → MapSystem ι K V
  | .has i k =>
    if (s.pcs i).ready then s.put i (.first (.has k (decide (k ∈ s.completed)))) s.mem else s
  | .get i k =>
    if (s.pcs i).ready then s.put i (.first (.get k (decide (k ∈ s.completed)))) s.mem else s
  | .set i k v moves =>
    if (s.pcs i).ready then s.put i (.first (.set ⟨k, v, moves, v, none, none⟩)) s.mem else s
  | .step i addr cell => s.threadStep conf i addr cell

end

/-! ## What is to hold -/

variable (s : MapSystem ι K V)

def Sorted [LT K] : Prop :=
  ∀ b, ∃ l, s.mem.Bucket b l ∧ l.Pairwise s.mem.KeyLt

def Found : Prop :=
  ∀ i k, s.pcs i ≠ .hasResult k true false ∧ s.pcs i ≠ .getResult k true none

def Returned : Prop :=
  ∀ i k due r, s.pcs i = .getResult k due (some r) → ∃ v, r = some v ∧ (k, v) ∈ s.stored

def Kept (s s' : MapSystem ι K V) : Prop :=
  ∀ b l l', s.mem.Bucket b l → s'.mem.Bucket b l' →
    l.Sublist l' ∧ ∀ a ∈ l, s'.mem.keyAt a = s.mem.keyAt a

def PointerCurrent : MapEvent ι K V → Prop
  | .step i _ _ =>
    match s.pcs i with
    | .deref _ _ a ptr => (s.mem.entries a).map MapEntry.valuePtr = some ptr
    | _ => True
  | _ => True

instance (s : MapSystem ι K V) (ev : MapEvent ι K V) : Decidable (s.PointerCurrent ev) := by
  unfold PointerCurrent
  split
  · split <;> infer_instance
  · infer_instance

end MapSystem

end Base
