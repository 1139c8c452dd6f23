import CyberRT.Lib.Run
import CyberRT.Shm.Proof.OpenLayout
import CyberRT.Transport.MessageInfo

/-!
# Segments at work

Any number of `Segment`s of one channel, writers and readers, over the kernel's shared memory.
-/

namespace Shm

open Function

inductive ByIndex
  | lockBlockForWrite (spurious : Bool) (index : Nat)
  | releaseBlockForWrite (index : Nat)
  | lockBlockForRead (spurious index : Nat)
  | releaseBlockForRead (index : Nat)
  | lockArenaBlockForWrite (spurious : Bool) (index : Nat)
  | releaseArenaBlockForWrite (index : Nat)
  | lockArenaBlockForRead (spurious index : Nat)
  | releaseArenaBlockForRead (index : Nat)

def ByIndex.call : ByIndex → Call Bool
  | .lockBlockForWrite spurious index => lockBlockForWriteByIndex spurious index
  | .releaseBlockForWrite index => releaseBlockForWriteByIndex index
  | .lockBlockForRead spurious index => lockBlockForReadByIndex spurious index
  | .releaseBlockForRead index => releaseBlockForReadByIndex index
  | .lockArenaBlockForWrite spurious index => lockArenaBlockForWriteByIndex spurious index
  | .releaseArenaBlockForWrite index => releaseArenaBlockForWriteByIndex index
  | .lockArenaBlockForRead spurious index => lockArenaBlockForReadByIndex spurious index
  | .releaseArenaBlockForRead index => releaseArenaBlockForReadByIndex index

inductive SegmentOp
  | initOnly (p : Nat) (e : Env) (messageSize : Nat)
  | acquireBlockToWrite (p : Nat) (e : Env) (attempts : List Bool) (msgSize : Nat)
  | releaseWrittenBlock (p : Nat) (b : WritableBlock)
  | acquireArenaBlockToWrite (p : Nat) (e : Env) (attempts : List Bool)
  | releaseArenaWrittenBlock (p : Nat) (b : WritableBlock)
  | acquireBlockToRead (p : Nat) (e : Env) (spurious index : Nat)
  | releaseReadBlock (p : Nat) (b : ReadableBlock)
  | acquireArenaBlockToRead (p : Nat) (e : Env) (spurious index : Nat)
  | releaseArenaReadBlock (p : Nat) (b : ReadableBlock)
  | byIndex (p : Nat) (c : ByIndex)
  | destroy (p : Nat)

structure Sys where
  kernel : Kernel
  segs : Nat → Segment
  held : Nat → List ReadableBlock

namespace Sys

def init : Sys := ⟨.empty, fun _ => .new, fun _ => []⟩

def run {α : Type} (s : Sys) (p : Nat) (c : Call α) : Option (α × Sys) :=
  (c (s.kernel, s.segs p)).map fun r =>
    (r.1, { s with kernel := r.2.1, segs := update s.segs p r.2.2 })

def setHeld (s : Sys) (p : Nat) (l : List ReadableBlock) : Sys :=
  { s with held := update s.held p l }

variable (abi : Abi) (backend : Backend)

def step (s : Sys) : SegmentOp → Option Sys
  | .initOnly p e n => (s.run p (initOnly abi backend e n)).map Prod.snd
  | .acquireBlockToWrite p e attempts n =>
    (s.run p (acquireBlockToWrite abi backend e attempts n)).map Prod.snd
  | .releaseWrittenBlock p b => (s.run p (releaseWrittenBlock b)).map Prod.snd
  | .acquireArenaBlockToWrite p e attempts =>
    (s.run p (acquireArenaBlockToWrite abi backend e attempts)).map Prod.snd
  | .releaseArenaWrittenBlock p b => (s.run p (releaseArenaWrittenBlock b)).map Prod.snd
  | .acquireBlockToRead p e spurious i =>
    (s.run p (acquireBlockToRead abi backend e spurious i)).map fun r =>
      r.2.setHeld p (r.1.toList ++ s.held p)
  | .releaseReadBlock p b =>
    (s.run p (releaseReadBlock b)).map fun r => r.2.setHeld p ((s.held p).erase b)
  | .acquireArenaBlockToRead p e spurious i =>
    (s.run p (acquireArenaBlockToRead abi backend e spurious i)).map Prod.snd
  | .releaseArenaReadBlock p b => (s.run p (releaseArenaReadBlock b)).map Prod.snd
  | .byIndex p c => (s.run p c.call).map Prod.snd
  | .destroy p =>
    (s.run p destroy).map fun r => { r.2 with segs := update r.2.segs p .new }

end Sys

/-! ## What a reader relies on -/

def Kernel.lockNum (k : Kernel) (id i : Nat) : Int32 := ((k.objects id).blocks i).lockNum

def Kernel.lockOf (k : Kernel) (id i : Nat) : Int32 := if id < k.next then k.lockNum id i else 0

/-- **Block `i` of the mapped segment was handed out**: the index is one of its blocks, the buffer
is the one registered for it, and of all locks exactly its own was taken. -/
structure ReadsBlock (abi : Abi) (k k' : Kernel) (seg : Segment) (i : Nat) (b : ReadableBlock) :
    Prop where
  index_lt : i < seg.conf.blockNum
  buf_registered : b.buf = seg.blockBufAddrs i
  buf_eq : b.buf = some (seg.base + blockBufOffset abi seg.conf i)
  lock : ∃ id, seg.shm = some id ∧ b.block = some (id, i) ∧ ∀ id' j,
    k'.lockNum id' j = if b.block = some (id', j) then k.lockNum id' j + 1 else k.lockNum id' j

/-- **The lock was given back**, and no other. -/
def GivesBack (k k' : Kernel) (b : ReadableBlock) : Prop :=
  ∀ id j, k'.lockNum id j = if b.block = some (id, j) then k.lockNum id j - 1 else k.lockNum id j

variable (abi : Abi) (backend : Backend)

/-- An `AcquireBlockToRead` that returns true hands out the block; the `ReleaseReadBlock` of a block
that is held returns and gives it back. -/
def Sys.Safe (s : Sys) : SegmentOp → Prop
  | .acquireBlockToRead p e spurious i => ∀ b k seg,
    acquireBlockToRead abi backend e spurious i (s.kernel, s.segs p) = some (some b, k, seg) →
      ReadsBlock abi s.kernel k seg i b
  | .releaseReadBlock p b => b ∈ s.held p → ∃ r k seg,
    releaseReadBlock b (s.kernel, s.segs p) = some (r, k, seg) ∧ GivesBack s.kernel k b
  | _ => True

def Kernel.conf (k : Kernel) (id : Nat) : ShmConf := .update (k.objects id).state.ceilingMsgSize

/-- **When a reader is safe.** If `AcquireBlockToRead` finds `need_remap` set, the segment that is
linked by then has a block of that index (or what is there cannot be locked); and when
`ReleaseReadBlock` is called, the `Segment` still maps the object in which the block was acquired.
-/
def Sys.StepOk (s : Sys) : SegmentOp → Prop
  | .acquireBlockToRead p _ spurious i => ∀ old id, backend = .xsi → (s.segs p).init = true →
    (s.segs p).shm = some old → (s.kernel.objects old).state.needRemap = true →
    s.kernel.linked = some id → i < (s.segs p).conf.blockNum →
      i < (s.kernel.conf id).blockNum ∨
        ((s.kernel.objects id).blocks i).tryLockForRead spurious = none
  | .releaseReadBlock p b => b ∈ s.held p → b.block.map Prod.fst = (s.segs p).shm
  | _ => True

/-! ## What a writer relies on -/

def Apart (a n b m : Nat) : Prop := a + n ≤ b ∨ b + m ≤ a

/-- **The buffer of the block that was handed out**, at offset `off` of the mapped object: it ends
inside the object, and overlaps neither the state nor the two block tables, the buffer of another
block or the arena buffers. -/
structure OwnBuffer (k : Kernel) (seg : Segment) (b : WritableBlock) (off : Nat) : Prop where
  buf : b.buf = some (seg.base + off)
  index_lt : b.index < seg.conf.blockNum
  inside : ∃ id, seg.shm = some id ∧ off + seg.conf.blockBufSize ≤ (k.objects id).size
  state : Apart off seg.conf.blockBufSize 0 abi.sizeofState
  tables : Apart off seg.conf.blockBufSize abi.sizeofState
    ((seg.conf.blockNum + ShmConf.arenaBlockNum) * abi.sizeofBlock)
  others : ∀ j < seg.conf.blockNum, j ≠ b.index →
    Apart off seg.conf.blockBufSize (blockBufOffset abi seg.conf j) seg.conf.blockBufSize
  arena : Apart off seg.conf.blockBufSize (arenaBlockBufOffset abi seg.conf 0)
    (ShmConf.arenaBlockNum * ShmConf.arenaMessageSize)

/-- An `AcquireBlockToWrite` that returns true hands out a buffer of its own, with room for the
message and its info. -/
def Sys.Roomy (s : Sys) : SegmentOp → Prop
  | .acquireBlockToWrite p e attempts msgSize => ∀ b k seg,
    acquireBlockToWrite abi backend e attempts msgSize (s.kernel, s.segs p) =
      some (some b, k, seg) →
        msgSize + Transport.MessageInfo.kSize ≤ seg.conf.blockBufSize ∧
          ∃ off, OwnBuffer abi k seg b off
  | _ => True

/-- **When there is room**: an `AcquireBlockToWrite` that returns true was for a message that fits
the largest size class. -/
def Sys.RoomOk (s : Sys) : SegmentOp → Prop
  | .acquireBlockToWrite p e attempts msgSize => ∀ b k seg,
    acquireBlockToWrite abi backend e attempts msgSize (s.kernel, s.segs p) =
      some (some b, k, seg) →
        msgSize + Transport.MessageInfo.kSize ≤ ShmConf.messageSizeMore + ShmConf.messageInfoSize
  | _ => True

end Shm
