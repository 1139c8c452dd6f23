import CyberRT.Lib.Chain
import CyberRT.Lib.Run

/-!
# `CCObjectPool` (`base/concurrent_object_pool.h`)

The free nodes form a list that begins at `free_head_`: a node pointer with a counter, which every
change counts up.
-/

namespace Base

open Function

structure ObjectPool where
  count : Nat
  node : Option Nat
  next : Nat → Option Nat
  capacity : UInt32

/-- `CCObjectPool(size)`. -/
def ObjectPool.construct (size : UInt32) : Option ObjectPool :=
  let last := size - 1
  if last < size then
    some ⟨0, some 0, fun i => if i < last.toNat then some (i + 1) else none, size⟩
  else none

/-- Where an object is on its way: no object, or none was got; in `FindFreeHead`, before the load of
`free_head_`, before the read of the node's `next`, before the compare-exchange; in use; in
`ReleaseObject`, before the load, before the write of `next`, before the compare-exchange. -/
inductive PoolPc
  | idle
  | failed
  | popLoad
  | popNext (count node : Nat)
  | popCas (count node : Nat) (next : Option Nat)
  | inUse (node : Nat)
  | pushLoad (node : Nat)
  | pushNext (node count : Nat) (head : Option Nat)
  | pushCas (node count : Nat) (head : Option Nat)
  deriving DecidableEq

namespace PoolPc

def held : PoolPc → Option Nat
  | .inUse n | .pushLoad n | .pushNext n _ _ | .pushCas n _ _ => some n
  | _ => none

def acquiring : PoolPc → Bool
  | .popLoad | .popNext _ _ | .popCas _ _ _ => true
  | _ => false

def loaded : PoolPc → Option Nat
  | .popNext c _ | .popCas c _ _ | .pushNext _ c _ | .pushCas _ c _ => some c
  | _ => none

end PoolPc

namespace ObjectPool

def same (p : ObjectPool) (count : Nat) (node : Option Nat) : Bool :=
  decide (p.count % 2 ^ 64 = count % 2 ^ 64) && decide (p.node = node)

def popTest (p : ObjectPool) : PoolPc :=
  match p.node with
  | none => .failed
  | some n => .popNext p.count n

/-- The next step of `FindFreeHead` or `ReleaseObject`; `weak` is a compare-exchange that fails for
no reason. -/
def poolStep (p : ObjectPool) (weak : Bool) : PoolPc → PoolPc × ObjectPool
  | .popLoad => (p.popTest, p)
  | .popNext c n => (.popCas c n (p.next n), p)
  | .popCas c n next =>
    if p.same c (some n) ∧ weak = false then
      (.inUse n, { p with count := p.count + 1, node := next })
    else (p.popTest, p)
  | .pushLoad n => (.pushNext n p.count p.node, p)
  | .pushNext n c head => (.pushCas n c head, { p with next := update p.next n head })
  | .pushCas n c head =>
    if p.same c head ∧ weak = false then
      (.idle, { p with count := p.count + 1, node := some n })
    else (.pushNext n p.count p.node, p)
  | pc => (pc, p)

end ObjectPool

variable {ι : Type*}

structure PoolSystem (ι : Type*) where
  pool : ObjectPool
  pcs : ι → PoolPc

inductive PoolEvent (ι : Type*) where
  | getObject (i : ι)
  | releaseObject (i : ι)
  | step (i : ι) (weak : Bool)

namespace PoolSystem

def init (pool : ObjectPool) : PoolSystem ι := ⟨pool, fun _ => .idle⟩

def AllHeld (s : PoolSystem ι) : Prop :=
  ∀ n < s.pool.capacity.toNat, ∃ i, (s.pcs i).held = some n

/-- **No node is held twice, and none is lost**: each node of the pool is held by one, or in the
free list, once. -/
structure NodesKept (s : PoolSystem ι) : Prop where
  exclusive : ∀ i j n, (s.pcs i).held = some n → (s.pcs j).held = some n → i = j
  kept : ∃ free, Lib.Chain s.pool.next s.pool.node free ∧ free.Nodup ∧
    (∀ n ∈ free, ∀ i, (s.pcs i).held ≠ some n) ∧
    ∀ n, n < s.pool.capacity.toNat ↔ n ∈ free ∨ ∃ i, (s.pcs i).held = some n

variable [DecidableEq ι]

def put (s : PoolSystem ι) (i : ι) (r : PoolPc × ObjectPool) : PoolSystem ι :=
  ⟨r.2, update s.pcs i r.1⟩

def step (s : PoolSystem ι) : PoolEvent ι → PoolSystem ι
  | .getObject i =>
    if s.pcs i = .idle ∨ s.pcs i = .failed then s.put i (.popLoad, s.pool) else s
  | .releaseObject i =>
    match s.pcs i with
    | .inUse n => s.put i (.pushLoad n, s.pool)
    | _ => s
  | .step i weak => s.put i (s.pool.poolStep weak (s.pcs i))

/-- **No object only if there is none**: when a `FindFreeHead` returns false, every node is held at
that moment. -/
def FailsIfAllHeld (s : PoolSystem ι) (ev : PoolEvent ι) : Prop :=
  ∀ i, (s.pcs i).acquiring = true → (s.step ev).pcs i = .failed → s.AllHeld

def NoWrap (s : PoolSystem ι) : PoolEvent ι → Prop
  | .step i _ => ∀ c ∈ (s.pcs i).loaded, s.pool.count < c + 2 ^ 64
  | _ => True

def Serves (ι : Type*) [DecidableEq ι] (size : UInt32) : Prop :=
  ∃ pool, ObjectPool.construct size = some pool ∧ ∀ evs : List (PoolEvent ι),
    Lib.Along step NoWrap (init pool) evs →
      Lib.Always step NodesKept (init pool) evs ∧ Lib.Along step FailsIfAllHeld (init pool) evs

end PoolSystem

end Base
