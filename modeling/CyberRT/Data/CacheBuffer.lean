import Mathlib.Data.Fintype.Basic

/-!
# `CacheBuffer`, `ChannelBuffer` and the one-channel `DataVisitor` (`data/*.h`)

A `CacheBuffer` of size `n` keeps the last `n` messages in a ring of `n + 1` slots; positions count
from 1, `head_` and `tail_` are the positions before the oldest and of the newest message.
-/

namespace Data

open Function

variable {T : Type*}

structure CacheBuffer (T : Type*) where
  head : Nat
  tail : Nat
  capacity : Nat
  buffer : Nat → T

namespace CacheBuffer

def new [Inhabited T] (size : Nat) : CacheBuffer T := ⟨0, 0, size + 1, fun _ => default⟩

variable (b : CacheBuffer T)

def getIndex (pos : Nat) : Nat := pos % b.capacity

def get (pos : Nat) : T := b.buffer (b.getIndex pos)

def first : Nat := b.head + 1

def size : Nat := b.tail - b.head

def back : T := b.buffer (b.getIndex b.tail)

def empty : Bool := b.tail == 0

def full : Bool := b.capacity - 1 == b.tail - b.head

def fill (value : T) : CacheBuffer T :=
  if b.full then
    { b with
      buffer := update b.buffer (b.getIndex b.head) value
      head := b.head + 1
      tail := b.tail + 1 }
  else
    { b with
      buffer := update b.buffer (b.getIndex (b.tail + 1)) value
      tail := b.tail + 1 }

def fetch (index : Nat) : Option T × Nat :=
  if b.empty then (none, index)
  else if index = 0 then (some (b.get b.tail), b.tail)
  else if index = b.tail + 1 then (none, index)
  else if index < b.first then (some (b.get b.tail), b.tail)
  else (some (b.get index), index)

def latest : Option T := if b.empty then none else some b.back

def fetchMulti (fetchSize : Nat) : Option (List T) :=
  if b.empty then none
  else
    let num := min b.size fetchSize
    some ((List.range' (b.tail - num + 1) num).map b.get)

end CacheBuffer

structure DataVisitor (T : Type*) where
  buffer : CacheBuffer T
  nextMsgIndex : Nat

def DataVisitor.tryFetch (v : DataVisitor T) : Option T × DataVisitor T :=
  match v.buffer.fetch v.nextMsgIndex with
  | (some m, index) => (some m, { v with nextMsgIndex := index + 1 })
  | (none, index) => (none, { v with nextMsgIndex := index })

inductive VisitorOp (T : Type*) where
  | fill (m : T)
  | tryFetch

/-- A visitor, the messages filled so far, those fetched with their positions, oldest first, and
the number of `Fill` calls since the last `TryFetch` that succeeded. -/
structure VisitorRun (T : Type*) where
  visitor : DataVisitor T
  filled : List T
  fetched : List (Nat × T)
  since : Nat

namespace VisitorRun

def start [Inhabited T] (size : Nat) : VisitorRun T := ⟨⟨.new size, 0⟩, [], [], 0⟩

def step (s : VisitorRun T) : VisitorOp T → VisitorRun T
  | .fill m =>
    { s with
      visitor := { s.visitor with buffer := s.visitor.buffer.fill m }
      filled := s.filled ++ [m]
      since := s.since + 1 }
  | .tryFetch =>
    match s.visitor.tryFetch with
    | (some m, visitor) =>
      { s with visitor, fetched := s.fetched ++ [(visitor.nextMsgIndex - 1, m)], since := 0 }
    | (none, visitor) => { s with visitor }

def last (s : VisitorRun T) : Nat := (s.fetched.getLast?.map (·.1)).getD 0

/-- The position that the next `TryFetch` is to fetch: the newest if nothing was fetched yet or more
than `max size 1` messages lie after the one fetched last, else the one after that. -/
def nextPos (size : Nat) (s : VisitorRun T) : Nat :=
  if s.last = 0 ∨ max size 1 < s.filled.length - s.last then s.filled.length else s.last + 1

/-- **What a `TryFetch` is to do**: it fails if the newest message is the one fetched last, or
nothing was filled at all; else it returns the message at `nextPos`. -/
def FetchesNext (size : Nat) (s : VisitorRun T) (r : Option T × DataVisitor T) : Prop :=
  (s.filled.length = s.last ∧ r = (none, s.visitor)) ∨
  (s.last < s.filled.length ∧ ∃ m, s.filled[s.nextPos size - 1]? = some m ∧
    r = (some m, { s.visitor with nextMsgIndex := s.nextPos size + 1 }))

end VisitorRun

/-!
## `AllLatest` (`data/fusion/all_latest.h`)

The fusion of a first channel with `k` others; the three templates differ in the number of their
buffers only.
-/

variable {k : Nat} {M0 : Type*} {M : Fin k → Type*}

abbrev Fused (M0 : Type*) (M : Fin k → Type*) := M0 × ((i : Fin k) → M i)

/-- `AllLatest<M0, …>`: the buffers of the other channels and the buffer of tuples, the latter with
the visitor that fetches from it. -/
structure AllLatest (M0 : Type*) (M : Fin k → Type*) where
  buffers : (i : Fin k) → CacheBuffer (M i)
  fusion : VisitorRun (Fused M0 M)

inductive FusionOp (M0 : Type*) (M : Fin k → Type*) where
  | arrive0 (m0 : M0)
  | arrive (i : Fin k) (m : M i)
  | tryFetch

def allSome (o : (i : Fin k) → Option (M i)) : Option ((i : Fin k) → M i) :=
  if h : ∀ i, (o i).isSome then some fun i => (o i).get (h i) else none

namespace AllLatest

def start [Inhabited M0] [∀ i, Inhabited (M i)] (size0 : Nat) (sizes : Fin k → Nat) :
    AllLatest M0 M :=
  ⟨fun i => .new (sizes i), .start size0⟩

def fuse (a : AllLatest M0 M) (m0 : M0) : Option (Fused M0 M) :=
  (allSome fun i => (a.buffers i).latest).map fun ms => (m0, ms)

def fusionCallback (a : AllLatest M0 M) (m0 : M0) : AllLatest M0 M :=
  match a.fuse m0 with
  | none => a
  | some data => { a with fusion := a.fusion.step (.fill data) }

def step (a : AllLatest M0 M) : FusionOp M0 M → AllLatest M0 M
  | .arrive0 m0 => a.fusionCallback m0
  | .arrive i m => { a with buffers := update a.buffers i ((a.buffers i).fill m) }
  | .tryFetch => { a with fusion := a.fusion.step .tryFetch }

end AllLatest

/-- The latest message of each other channel, the tuples so far, and whether one was made since the
last fetch. -/
structure Fusing (M0 : Type*) (M : Fin k → Type*) where
  latest : (i : Fin k) → Option (M i)
  produced : List (Fused M0 M)
  pending : Bool

namespace Fusing

def start : Fusing M0 M := ⟨fun _ => none, [], false⟩

def step (f : Fusing M0 M) : FusionOp M0 M → Fusing M0 M
  | .arrive0 m0 =>
    match allSome f.latest with
    | none => f
    | some ms => { f with produced := f.produced ++ [(m0, ms)], pending := true }
  | .arrive i m => { f with latest := update f.latest i (some m) }
  | .tryFetch => { f with pending := false }

def FetchesEach (f : Fusing M0 M) : FusionOp M0 M → Prop
  | .arrive0 _ => f.pending = false
  | _ => True

instance (f : Fusing M0 M) : ∀ op : FusionOp M0 M, Decidable (f.FetchesEach op)
  | .arrive0 _ => inferInstanceAs (Decidable (_ = _))
  | .arrive _ _ | .tryFetch => isTrue trivial

end Fusing

end Data
