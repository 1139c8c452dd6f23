import Mathlib.Data.Finmap
import CyberRT.Lib.Run
import CyberRT.Lib.SearchTree

/-!
# `ArenaAddressAllocator` (`transport/shm/arena_address_allocator.{h,cc}`)

The allocator gives each key a segment of the address space.
-/

namespace Shm

open Lib

structure ArenaAddressNode where
  key : UInt64
  index : Nat
  refCount : UInt64
  parent : Option Nat
  left : Option Nat
  right : Option Nat

structure ArenaConf where
  capacity : Nat
  baseAddress : UInt64
  addressSegmentSize : UInt64
  fits : baseAddress.toNat + addressSegmentSize.toNat * capacity ≤ 2 ^ 64

def ArenaConf.default : ArenaConf := ⟨1024, 0x710000000000, 2 * 1024 * 1024 * 1024, by decide⟩

structure ArenaAddressAllocator where
  conf : ArenaConf
  nodes : Nat → ArenaAddressNode
  root : Option Nat
  allocatedIndex : Nat
  reclaimStack : List Nat

namespace ArenaAddressAllocator

def init (conf : ArenaConf) : ArenaAddressAllocator :=
  ⟨conf, fun _ => ⟨0, 0, 0, none, none, none⟩, none, 0, []⟩

variable (s : ArenaAddressAllocator)

def fuel : Nat := s.conf.capacity + 1

def modify (i : Nat) (f : ArenaAddressNode → ArenaAddressNode) : ArenaAddressAllocator :=
  { s with nodes := Function.update s.nodes i (f (s.nodes i)) }

def set (slot : Slot Nat) (p : Option Nat) : ArenaAddressAllocator :=
  match slot with
  | .root => { s with root := p }
  | .left i => s.modify i fun n => { n with left := p }
  | .right i => s.modify i fun n => { n with right := p }

def setParent (i : Nat) (parent : Option Nat) : ArenaAddressAllocator :=
  s.modify i fun n => { n with parent }

/-! ## Nodes -/

def newNode (key : UInt64) : Option (Nat × ArenaAddressAllocator) :=
  match s.reclaimStack with
  | index :: stack =>
    some (index, { s with reclaimStack := stack }.modify index fun n =>
      { n with left := none, right := none, key })
  | [] =>
    if s.conf.capacity ≤ s.allocatedIndex then none
    else
      some (s.allocatedIndex, { s with allocatedIndex := s.allocatedIndex + 1 }.modify
        s.allocatedIndex fun n =>
          { n with left := none, right := none, key, index := s.allocatedIndex })

variable (node : Nat)

def reclaimNode : ArenaAddressAllocator :=
  let index := (s.nodes node).index
  let s := s.modify index fun n => { n with left := none, right := none, parent := none }
  { s with reclaimStack := index :: s.reclaimStack }

def findNode (s : ArenaAddressAllocator) : Nat → Option Nat → UInt64 → Option (Option Nat)
  | 0, _, _ => none
  | _ + 1, none, _ => some none
  | fuel + 1, some i, key =>
    if key < (s.nodes i).key then s.findNode fuel (s.nodes i).left key
    else if (s.nodes i).key < key then s.findNode fuel (s.nodes i).right key
    else some (some i)

/-! ## Balance -/

def treeHeight (s : ArenaAddressAllocator) : Nat → Option Nat → Option Nat
  | 0, _ => none
  | _ + 1, none => some 0
  | fuel + 1, some i => do
    let l ← s.treeHeight fuel (s.nodes i).left
    let r ← s.treeHeight fuel (s.nodes i).right
    some (1 + max l r)

def treeBalanceFactor : Option Nat → Option Int
  | none => some 0
  | some i => do
    let l ← s.treeHeight s.fuel (s.nodes i).left
    let r ← s.treeHeight s.fuel (s.nodes i).right
    some ((l : Int) - r)

def treeRotateLeft (node : Option Nat) (nodeP : Slot Nat) :
    Option ArenaAddressAllocator := do
  let node ← node
  let parent := (s.nodes node).parent
  let right ← (s.nodes node).right
  let s := s.set (.right node) (s.nodes right).left
  let s := s.set (.left right) (some node)
  let s := s.setParent node (some right)
  let s := s.set nodeP (some right)
  some (s.setParent right parent)

def treeRotateRight (node : Option Nat) (nodeP : Slot Nat) :
    Option ArenaAddressAllocator := do
  let node ← node
  let parent := (s.nodes node).parent
  let left ← (s.nodes node).left
  let s := s.set (.left node) (s.nodes left).right
  let s := s.set (.right left) (some node)
  let s := s.setParent node (some left)
  let s := s.set nodeP (some left)
  some (s.setParent left parent)

def treeRotateLeftRight (nodeP : Slot Nat) :
    Option ArenaAddressAllocator := do
  let s ← s.treeRotateLeft (s.nodes node).left (.left node)
  s.treeRotateRight (some node) nodeP

def treeRotateRightLeft (nodeP : Slot Nat) :
    Option ArenaAddressAllocator := do
  let s ← s.treeRotateRight (s.nodes node).right (.right node)
  s.treeRotateLeft (some node) nodeP

def treeRebalance (node : Option Nat) (nodeP : Slot Nat) : Option ArenaAddressAllocator :=
  match node with
  | none => some s
  | some node => do
    let factor ← s.treeBalanceFactor (some node)
    if factor > 1 then
      if (← s.treeBalanceFactor (s.nodes node).left) > 0 then s.treeRotateRight (some node) nodeP
      else s.treeRotateLeftRight node nodeP
    else if factor < -1 then
      if (← s.treeBalanceFactor (s.nodes node).right) < 0 then s.treeRotateLeft (some node) nodeP
      else s.treeRotateRightLeft node nodeP
    else some s

/-! ## Insertion and removal -/

def findOrInsertNode (s : ArenaAddressAllocator) :
    Nat → Option Nat → Slot Nat → Option Nat → UInt64 → Option (Nat × ArenaAddressAllocator)
  | 0, _, _, _, _ => none
  | _ + 1, none, nodeP, parent, key => do
    let (target, s) ← s.newNode key
    some (target, (s.set nodeP (some target)).setParent target parent)
  | fuel + 1, some node, _, _, key =>
    if key < (s.nodes node).key then do
      let (target, s) ←
        s.findOrInsertNode fuel (s.nodes node).left (.left node) (some node) key
      let s ← s.treeRebalance (s.nodes node).left (.left node)
      some (target, s)
    else if (s.nodes node).key < key then do
      let (target, s) ←
        s.findOrInsertNode fuel (s.nodes node).right (.right node) (some node) key
      let s ← s.treeRebalance (s.nodes node).right (.right node)
      some (target, s)
    else some (node, s)

def treeMax (s : ArenaAddressAllocator) : Nat → Nat → Slot Nat → Option (Nat × Slot Nat)
  | 0, _, _ => none
  | fuel + 1, node, nodeP =>
    match (s.nodes node).right with
    | some right => s.treeMax fuel right (.right node)
    | none => some (node, nodeP)

def treeMin (s : ArenaAddressAllocator) : Nat → Nat → Slot Nat → Option (Nat × Slot Nat)
  | 0, _, _ => none
  | fuel + 1, node, nodeP =>
    match (s.nodes node).left with
    | some left => s.treeMin fuel left (.left node)
    | none => some (node, nodeP)

def setParentOf (p : Option Nat) (parent : Nat) : ArenaAddressAllocator :=
  match p with
  | some i => s.setParent i (some parent)
  | none => s

def swapNodePosition (x : Nat) (xP : Slot Nat) (y : Nat) (yP : Slot Nat) : ArenaAddressAllocator :=
  let s := s.set xP (some y)
  let s := s.set yP (some x)
  let parentX := (s.nodes x).parent
  let parentY := (s.nodes y).parent
  let s := s.setParent x parentY
  let s := s.setParent y parentX
  let tmp := (s.nodes x).left
  let s := s.set (.left x) (s.nodes y).left
  let s := s.setParentOf (s.nodes x).left x
  let s := s.set (.left y) tmp
  let s := s.setParentOf (s.nodes y).left y
  let tmp := (s.nodes x).right
  let s := s.set (.right x) (s.nodes y).right
  let s := s.setParentOf (s.nodes x).right x
  let s := s.set (.right y) tmp
  s.setParentOf (s.nodes y).right y

def removeNode (s : ArenaAddressAllocator) :
    Nat → Option Nat → Slot Nat → UInt64 → Option ArenaAddressAllocator
  | 0, _, _, _ => none
  | _ + 1, none, _, _ => some s
  | fuel + 1, some node, nodeP, key => do
    if (← s.findNode s.fuel (some node) key).isNone then
      some s
    else if key < (s.nodes node).key then
      let s ← s.removeNode fuel (s.nodes node).left (.left node) key
      if (← s.treeBalanceFactor (some node)) < -1 then s.treeRebalance s.root .root else some s
    else if (s.nodes node).key < key then
      let s ← s.removeNode fuel (s.nodes node).right (.right node) key
      if (← s.treeBalanceFactor (some node)) > 1 then s.treeRebalance s.root .root else some s
    else
      match (s.nodes node).left, (s.nodes node).right with
      | some left, some right =>
        if (← s.treeBalanceFactor (some node)) > 0 then
          let (max, maxP) ← s.treeMax s.fuel left (.left node)
          let s := s.swapNodePosition node nodeP max maxP
          s.removeNode fuel (s.nodes max).left (.left max) key
        else
          let (min, minP) ← s.treeMin s.fuel right (.right node)
          let s := s.swapNodePosition node nodeP min minP
          s.removeNode fuel (s.nodes min).right (.right min) key
      | some left, none => some ((s.set nodeP (some left)).reclaimNode node)
      | none, right => some ((s.set nodeP right).reclaimNode node)

/-! ## The interface -/

def address : UInt64 :=
  s.conf.baseAddress + s.conf.addressSegmentSize * UInt64.ofNat (s.nodes node).index

def allocate (key : UInt64) : Option (UInt64 × ArenaAddressAllocator) :=
  do
    let (node, s) ← s.findOrInsertNode s.fuel s.root .root none key
    let s := s.modify node fun n => { n with refCount := n.refCount + 1 }
    some (s.address node, s)

def deallocate (key : UInt64) : Option ArenaAddressAllocator := do
  match ← s.findNode s.fuel s.root key with
  | none => some s
  | some node =>
    let old := (s.nodes node).refCount
    let s := s.modify node fun n => { n with refCount := n.refCount - 1 }
    if old = 0 then s.removeNode s.fuel s.root .root key else some s

end ArenaAddressAllocator

/-!
## What `ArenaAddressAllocator` is for

`KeyMap`: a finite map from keys to node indexes, with the free indexes; a new key takes the index
that was freed last, or the next one never used.
-/

open Function

inductive TreeOp where
  | insert (key : UInt64)
  | remove (key : UInt64)

inductive ArenaOp where
  | allocate (key : UInt64)
  | deallocate (key : UInt64)

namespace ArenaAddressAllocator

def find (s : ArenaAddressAllocator) (key : UInt64) : Option (Option Nat) :=
  s.findNode s.fuel s.root key

def treeStep (s : ArenaAddressAllocator) : TreeOp → Option ArenaAddressAllocator
  | .insert key => (s.findOrInsertNode s.fuel s.root .root none key).map (·.2)
  | .remove key => s.removeNode s.fuel s.root .root key

def step (s : ArenaAddressAllocator) : ArenaOp → Option ArenaAddressAllocator
  | .allocate key => (s.allocate key).map (·.2)
  | .deallocate key => s.deallocate key

def HasRoom (s : ArenaAddressAllocator) (key : UInt64) : Prop :=
  s.find key ≠ some none ∨ s.reclaimStack ≠ [] ∨ s.allocatedIndex < s.conf.capacity
deriving Decidable

def TreeRoom (s : ArenaAddressAllocator) : TreeOp → Prop
  | .insert key => s.HasRoom key
  | .remove _ => True

instance (s : ArenaAddressAllocator) : ∀ op, Decidable (s.TreeRoom op)
  | .insert key => inferInstanceAs (Decidable (s.HasRoom key))
  | .remove _ => isTrue trivial

def Room (s : ArenaAddressAllocator) : ArenaOp → Prop
  | .allocate key => s.HasRoom key
  | .deallocate _ => True

instance (s : ArenaAddressAllocator) : ∀ op, Decidable (s.Room op)
  | .allocate key => inferInstanceAs (Decidable (s.HasRoom key))
  | .deallocate _ => isTrue trivial

end ArenaAddressAllocator

structure KeyMap where
  map : Finmap fun _ : UInt64 => Nat
  free : List Nat
  allocated : Nat

namespace KeyMap

def empty : KeyMap := ⟨∅, [], 0⟩

def lookup (m : KeyMap) (key : UInt64) : Option Nat := m.map.lookup key

def insert (m : KeyMap) (key : UInt64) : KeyMap :=
  match m.lookup key, m.free with
  | some _, _ => m
  | none, index :: free => { m with map := m.map.insert key index, free }
  | none, [] => ⟨m.map.insert key m.allocated, [], m.allocated + 1⟩

def remove (m : KeyMap) (key : UInt64) : KeyMap :=
  match m.lookup key with
  | none => m
  | some index => { m with map := m.map.erase key, free := index :: m.free }

def step (m : KeyMap) : TreeOp → KeyMap
  | .insert key => m.insert key
  | .remove key => m.remove key

variable {key key' : UInt64} {m : KeyMap}

theorem lookup_insert_of_ne (m : KeyMap) (h : key' ≠ key) :
    (m.insert key).lookup key' = m.lookup key' := by
  unfold insert
  split
  · rfl
  · exact Finmap.lookup_insert_of_ne _ h
  · exact Finmap.lookup_insert_of_ne _ h

theorem lookup_remove_of_ne (m : KeyMap) (h : key' ≠ key) :
    (m.remove key).lookup key' = m.lookup key' := by
  unfold remove
  split
  · rfl
  · exact Finmap.lookup_erase_ne h

theorem lookup_remove (m : KeyMap) (key : UInt64) : (m.remove key).lookup key = none := by
  unfold remove
  split
  · assumption
  · exact Finmap.lookup_erase _ _

theorem insert_of_some {i : Nat} (h : m.lookup key = some i) : m.insert key = m := by
  simp only [insert, h]

theorem insert_of_none (h : m.lookup key = none) (hf : m.free = []) :
    m.insert key = ⟨m.map.insert key m.allocated, [], m.allocated + 1⟩ := by
  simp only [insert, h, hf]

end KeyMap

structure Counted extends KeyMap where
  count : UInt64 → Nat

namespace Counted

def empty : Counted := ⟨.empty, fun _ => 0⟩

def step (m : Counted) : ArenaOp → Counted
  | .allocate key => ⟨m.toKeyMap.insert key, update m.count key (m.count key + 1)⟩
  | .deallocate key =>
    ⟨if m.count key = 1 then m.toKeyMap.remove key else m.toKeyMap,
      update m.count key (m.count key - 1)⟩

/-- The `Deallocate` of a key with `c` open `Allocate`s does not balance the last of them, and `c`
is no positive multiple of `2 ^ 64`. -/
def DeallocateOk (m : Counted) : ArenaOp → Prop
  | .allocate _ => True
  | .deallocate key => m.count key ≠ 1 ∧ (0 < m.count key → ¬ 2 ^ 64 ∣ m.count key)

instance (m : Counted) : ∀ op, Decidable (m.DeallocateOk op)
  | .allocate _ => isTrue trivial
  | .deallocate _ => inferInstanceAs (Decidable (_ ∧ _))

end Counted

/-!
## The heights of the allocator's tree

What the tree functions of `ArenaAddressAllocator` do to the tree that the pointers form, as
functions on trees.
-/

namespace ArenaAddressAllocator

def links (s : ArenaAddressAllocator) : Links Nat :=
  ⟨s.root, fun i => (s.nodes i).left, fun i => (s.nodes i).right⟩

def side (s : ArenaAddressAllocator) (key : UInt64) (i : Nat) : Ordering :=
  if key < (s.nodes i).key then .lt else if (s.nodes i).key < key then .gt else .eq

def factor : BinaryTree Nat → Int
  | .nil => 0
  | .node _ l r => (l.height : Int) - r.height

def rotateLeftRight : BinaryTree Nat → BinaryTree Nat
  | .nil => .nil
  | .node i l r => rotateRight (.node i (rotateLeft l) r)

def rotateRightLeft : BinaryTree Nat → BinaryTree Nat
  | .nil => .nil
  | .node i l r => rotateLeft (.node i l (rotateRight r))

def rebalanced (t : BinaryTree Nat) : BinaryTree Nat :=
  if factor t > 1 then
    if factor t.left > 0 then rotateRight t else rotateLeftRight t
  else if factor t < -1 then
    if factor t.right < 0 then rotateLeft t else rotateRightLeft t
  else t

theorem rebalanced_node (i : Nat) (l r : BinaryTree Nat) : rebalanced (.node i l r) =
    if factor (.node i l r) > 1 then
      if factor l > 0 then rotateRight (.node i l r) else rotateRight (.node i (rotateLeft l) r)
    else if factor (.node i l r) < -1 then
      if factor r < 0 then rotateLeft (.node i l r) else rotateLeft (.node i l (rotateRight r))
    else .node i l r := rfl

def inserted (cmp : Nat → Ordering) (n : Nat) : BinaryTree Nat → BinaryTree Nat
  | .nil => .node n .nil .nil
  | .node i l r =>
    match cmp i with
    | .lt => .node i (rebalanced (inserted cmp n l)) r
    | .gt => .node i l (rebalanced (inserted cmp n r))
    | .eq => .node i l r

/-- **The heights of the left and right subtrees of every node differ by at most one.** -/
def HeightsBalanced (s : ArenaAddressAllocator) : Prop :=
  ∃ t, Linked s.links t ∧ HeightBalanced t

def Grows (cmp : Nat → Ordering) : BinaryTree Nat → Prop
  | .nil => True
  | .node i l r => l.height = r.height ∧
    match cmp i with
    | .lt => Grows cmp l
    | .gt => Grows cmp r
    | .eq => False

def InsertOk (cmp : Nat → Ordering) : BinaryTree Nat → Prop
  | .nil => True
  | .node i l r =>
    match cmp i with
    | .lt => r.height < l.height → ¬ Grows cmp l
    | .gt => l.height < r.height → ¬ Grows cmp r
    | .eq => True

/-- No node below the root leans away from a part that the removal makes lower; and if the root
does, and its other child is even, then that child's inner part does not lean to the side that gets
lower. -/
def RemoveOk (cmp : Nat → Ordering) : BinaryTree Nat → Prop
  | .nil => True
  | .node i l r =>
    match cmp i with
    | .lt => ¬ Tips cmp l ∧
      (Lowers cmp l → l.height < r.height → factor r = 0 → factor r.left ≤ 0)
    | .gt => ¬ Tips cmp r ∧
      (Lowers cmp r → r.height < l.height → factor l = 0 → 0 ≤ factor l.right)
    | .eq => ¬ Tips cmp (.node i l r)

/-- **When a call keeps the tree balanced.** -/
def KeepsHeights (s : ArenaAddressAllocator) : TreeOp → Prop
  | .insert key => ∀ t, Linked s.links t → InsertOk (s.side key) t
  | .remove key => ∀ t, Linked s.links t → RemoveOk (s.side key) t

end ArenaAddressAllocator

/-!
## `ArenaAddressAllocator` with its spin flag

`Allocate` and `Deallocate` wait until `occupied_` is clear, set it, go to the tree and clear it.
-/

namespace ArenaAddressAllocator

/-- `FindOrInsertNode(node, node_p, parent, key)`: the node, or what the memory is like when the
null pointer from `NewNode`, stored by then, is followed. -/
def insertNode (s : ArenaAddressAllocator) :
    Nat → Option Nat → Slot Nat → Option Nat → UInt64 →
      Option (Except ArenaAddressAllocator (Nat × ArenaAddressAllocator))
  | 0, _, _, _, _ => none
  | _ + 1, none, nodeP, parent, key =>
    match s.newNode key with
    | some (target, s) => some (.ok (target, (s.set nodeP (some target)).setParent target parent))
    | none => some (.error (s.set nodeP none))
  | fuel + 1, some node, _, _, key =>
    if key < (s.nodes node).key then do
      match ← s.insertNode fuel (s.nodes node).left (.left node) (some node) key with
      | .error s => some (.error s)
      | .ok (target, s) =>
        let s ← s.treeRebalance (s.nodes node).left (.left node)
        some (.ok (target, s))
    else if (s.nodes node).key < key then do
      match ← s.insertNode fuel (s.nodes node).right (.right node) (some node) key with
      | .error s => some (.error s)
      | .ok (target, s) =>
        let s ← s.treeRebalance (s.nodes node).right (.right node)
        some (.ok (target, s))
    else some (.ok (node, s))

end ArenaAddressAllocator

structure SharedArena where
  memory : ArenaAddressAllocator
  occupied : Bool

inductive CallEnd (α : Type) where
  | returned (value : α) (s : SharedArena)
  | crashed (s : SharedArena)
  | waiting (s : SharedArena)

namespace CallEnd

variable {α : Type}

def state : CallEnd α → SharedArena
  | .returned _ s | .crashed s | .waiting s => s

def isReturned : CallEnd α → Bool
  | .returned _ _ => true
  | .crashed _ | .waiting _ => false

end CallEnd

namespace SharedArena

def init (conf : ArenaConf) : SharedArena := ⟨.init conf, false⟩

variable (a : SharedArena)

def allocate (key : UInt64) : Option (CallEnd (Option UInt64)) :=
  if a.occupied then some (.waiting a)
  else do
    match ← a.memory.insertNode a.memory.fuel a.memory.root .root none key with
    | .error s => some (.crashed ⟨s, true⟩)
    | .ok (node, s) =>
      let s := s.modify node fun n => { n with refCount := n.refCount + 1 }
      some (.returned (some (s.address node)) ⟨s, false⟩)

def deallocate (a : SharedArena) (key : UInt64) : Option (CallEnd Unit) :=
  if a.occupied then some (.waiting a)
  else (a.memory.deallocate key).map fun s => .returned () ⟨s, false⟩

def step : ArenaOp → Option SharedArena
  | .allocate key => (a.allocate key).map CallEnd.state
  | .deallocate key => (a.deallocate key).map CallEnd.state

def Full : Prop :=
  a.memory.reclaimStack = [] ∧ a.memory.conf.capacity ≤ a.memory.allocatedIndex
deriving Decidable

/-- **`Allocate` fails cleanly**: it returns null, every key has the node, the index and the count
it had, and the flag is clear. -/
def FailsCleanly (key : UInt64) : Prop :=
  ∃ a', a.allocate key = some (.returned none a') ∧ a'.occupied = false ∧
    (∀ k, a'.memory.find k = a.memory.find k) ∧
    ∀ i, (a'.memory.nodes i).index = (a.memory.nodes i).index ∧
      (a'.memory.nodes i).refCount = (a.memory.nodes i).refCount

end SharedArena

end Shm
