import CyberRT.Lib.Locks
import CyberRT.Lib.Run
import CyberRT.Shm.Segment

/-!
# The locks of the blocks, step by step
(`transport/shm/block.cc`, `segment.cc`, `protobuf_arena_manager.cc`)

`Segment` has each lock as a whole call; here each load, compare-exchange, increment and
decrement is a step of its own. There are three arrays of blocks with the same code over them:
`blocks_` and `arena_blocks_` of a `Segment`, and `blocks_` of an `ArenaSegment`, whose
`AddBlockWriteLock` and `AddBlockReadLock` are `TryLockForWrite` and `TryLockForRead` of `Block`.
-/

namespace Shm

open Function

inductive BlockArray
  | blocks
  | arenaBlocks
  | arenaSegment
  deriving DecidableEq

structure Mapping where
  blockNum : Nat
  arenaSegmentBlockNum : Nat
  blockNum_pos : 0 < blockNum
  arenaSegmentBlockNum_pos : 0 < arenaSegmentBlockNum

def Mapping.num (m : Mapping) : BlockArray → Nat
  | .blocks => m.blockNum
  | .arenaBlocks => ShmConf.arenaBlockNum
  | .arenaSegment => m.arenaSegmentBlockNum

/-- The width of the counter that draws the next block to write: `seq_` and `arena_seq_` are
`uint32_t`, `message_seq_` is `uint64_t`. -/
def BlockArray.seqBits : BlockArray → Nat
  | .blocks | .arenaBlocks => 32
  | .arenaSegment => 64

/-- Where an acquirer is. In the search for a block to write: before the increment of the counter;
before the compare-exchange of `TryLockForWrite`, which is tried again on the next block if it is
part of a search. In `TryLockForRead`, after `tryTimes` failures: before a load of `lock_num_`;
before the compare-exchange. Else: with the block, before its release; or without one. -/
inductive BlockPc
  | idle
  | nextIndex (array : BlockArray)
  | tryWrite (array : BlockArray) (index : Nat) (search : Bool)
  | readLoad (array : BlockArray) (index : Nat) (tryTimes : Nat)
  | readCas (array : BlockArray) (index : Nat) (lockNum : Int32) (tryTimes : Nat)
  | reading (array : BlockArray) (index : Nat)
  | writing (array : BlockArray) (index : Nat)
  deriving DecidableEq

namespace BlockPc

def reads (a : BlockArray) (i : Nat) : BlockPc → Bool
  | .reading a' i' => decide (a' = a ∧ i' = i)
  | _ => false

def writes (a : BlockArray) (i : Nat) : BlockPc → Bool
  | .writing a' i' => decide (a' = a ∧ i' = i)
  | _ => false

end BlockPc

variable {ι : Type*}

structure BlockSystem (ι : Type*) where
  lockNum : BlockArray → Nat → Int32
  seq : BlockArray → Nat
  pcs : ι → BlockPc

inductive BlockEvent (ι : Type*) where
  | acquireToWrite (t : ι) (array : BlockArray)
  | lockForWrite (t : ι) (array : BlockArray) (index : Nat)
  /-- `AcquireBlockToRead`, `AcquireArenaBlockToRead`, `LockBlockForReadByIndex`,
  `LockArenaBlockForReadByIndex`, `AddBlockReadLock` -/
  | lockForRead (t : ι) (array : BlockArray) (index : Nat)
  | step (t : ι) (weak : Bool)
  | release (t : ι)

namespace BlockSystem

def init : BlockSystem ι := ⟨fun _ _ => 0, fun _ => 0, fun _ => .idle⟩

def setLock (s : BlockSystem ι) (a : BlockArray) (i : Nat) (n : Int32) : BlockSystem ι :=
  { s with lockNum := update s.lockNum a (update (s.lockNum a) i n) }

def nextSeq (s : BlockSystem ι) (a : BlockArray) : BlockSystem ι :=
  { s with seq := update s.seq a ((s.seq a + 1) % 2 ^ a.seqBits) }

variable [DecidableEq ι]

def put (s : BlockSystem ι) (t : ι) (pc : BlockPc) : BlockSystem ι :=
  { s with pcs := update s.pcs t pc }

def callStep (m : Mapping) (s : BlockSystem ι) (t : ι) (weak : Bool) : BlockSystem ι :=
  match s.pcs t with
  | .nextIndex a => (s.nextSeq a).put t (.tryWrite a (s.seq a % m.num a) true)
  | .tryWrite a i search =>
    if s.lockNum a i = Block.kRWLockFree ∧ weak = false then
      (s.setLock a i Block.kWriteExclusive).put t (.writing a i)
    else s.put t (if search then .nextIndex a else .idle)
  | .readLoad a i tryTimes =>
    s.put t (if s.lockNum a i < Block.kRWLockFree then .idle
      else .readCas a i (s.lockNum a i) tryTimes)
  | .readCas a i n tryTimes =>
    if s.lockNum a i = n ∧ weak = false then (s.setLock a i (n + 1)).put t (.reading a i)
    else
      s.put t (if tryTimes + 1 = Block.kMaxTryLockTimes then .idle
        else .readLoad a i (tryTimes + 1))
  | _ => s

def release (m : Mapping) (s : BlockSystem ι) (t : ι) : BlockSystem ι :=
  match s.pcs t with
  | .reading a i =>
    (if i < m.num a then s.setLock a i (s.lockNum a i - 1) else s).put t .idle
  | .writing a i =>
    (if i < m.num a then s.setLock a i (s.lockNum a i + 1) else s).put t .idle
  | _ => s

def step (m : Mapping) (s : BlockSystem ι) : BlockEvent ι → BlockSystem ι
  | .acquireToWrite t a => if s.pcs t = .idle then s.put t (.nextIndex a) else s
  | .lockForWrite t a i =>
    if s.pcs t = .idle ∧ i < m.num a then s.put t (.tryWrite a i false) else s
  | .lockForRead t a i =>
    if s.pcs t = .idle ∧ i < m.num a then s.put t (.readLoad a i 0) else s
  | .step t weak => s.callStep m t weak
  | .release t => s.release m t

/-- **The lock of each block tells who holds it**: it is -1 while one writer and no reader holds the
block, else the number of the readers that hold it. -/
def LocksTell [Fintype ι] (s : BlockSystem ι) : Prop := ∀ a i,
  Lib.Agrees (s.lockNum a i).toInt (Lib.count (BlockPc.reads a i) s.pcs)
    (Lib.count (BlockPc.writes a i) s.pcs)

def CanCount (s : BlockSystem ι) : BlockEvent ι → Prop
  | .step t weak =>
    match s.pcs t with
    | .readCas a i n _ => s.lockNum a i = n → weak = false → n ≠ Int32.maxValue
    | _ => True
  | _ => True

end BlockSystem

/-!
## Messages in arena blocks (`transport/shm/protobuf_arena_manager.h`, `protobuf_arena_manager.cc`)

`AcquireArenaMessage` locks a block of the channel's `ArenaSegment` for writing and makes a message
in it.
-/

/-- Where a writer is: not begun; in `GetNextWritableBlockIndex`, before the increment of
`message_seq_` and before the compare-exchange; before it sets `arenas_[block]`; with a message,
which was `sent` or not; in `SetMessage`, before the search for its arena and, for the block that
was found, before `RemoveBlockWriteLock`; with its copy done, before `ReleaseWrittenBlock`; in the
deleter, before the load of the lock and before `ReleaseWrittenBlock`; at its end. -/
inductive ArenaPc
  | idle
  | nextIndex (copy : Bool)
  | tryWrite (copy : Bool) (block : Nat)
  | create (copy : Bool) (block : Nat)
  | message (block : Nat) (sent : Bool)
  | setMessage (block : Nat) (sent : Bool)
  | sendRelease (block : Nat) (sent : Bool) (found : Nat)
  | copyRelease (block : Nat)
  | delete (block : Nat) (sent : Bool)
  | deleteRelease (block : Nat) (sent : Bool)
  | done (block : Nat)
  deriving DecidableEq

structure ArenaChannel (ι π : Type*) where
  blockNum : Nat
  blockNum_pos : 0 < blockNum
  messageCapacity : Nat
  proc : ι → π

structure ArenaMessages (ι π : Type*) where
  lockNum : Nat → Int
  messageSeq : Nat
  arenas : π → Nat → Option ι
  pcs : ι → ArenaPc
  readers : Nat → Nat
  holder : Nat → Option ι
  releases : ι → Nat

inductive ArenaEvent (ι : Type*) where
  | acquireArenaMessage (t : ι)
  | transmitCopy (t : ι)
  | transmit (t : ι)
  | destroy (t : ι)
  | step (t : ι) (weak : Bool)
  | addBlockReadLock (block : Nat)
  | removeBlockReadLock (block : Nat)

namespace ArenaMessages

variable {ι π : Type*}

def init : ArenaMessages ι π :=
  ⟨fun _ => 0, 0, fun _ _ => none, fun _ => .idle, fun _ => 0, fun _ => none, fun _ => 0⟩

variable [DecidableEq ι]

def findArena (messageCapacity : Nat) (arenas : Nat → Option ι) (t : ι) : Option Nat :=
  (List.range messageCapacity).find? fun i => arenas i = some t

variable (s : ArenaMessages ι π)

def put (t : ι) (pc : ArenaPc) : ArenaMessages ι π :=
  { s with pcs := update s.pcs t pc }

def lock (t : ι) (b : Nat) : ArenaMessages ι π :=
  { s with
    lockNum := update s.lockNum b (-1)
    holder := update s.holder b (some t) }

def removeBlockWriteLock (t : ι) (b : Nat) : ArenaMessages ι π :=
  { s with
    lockNum := update s.lockNum b (s.lockNum b + 1)
    holder := update s.holder b none
    releases := update s.releases t (s.releases t + 1) }

def releaseWrittenBlock (blockNum : Nat) (s : ArenaMessages ι π) (t : ι) (b : Nat) :
    ArenaMessages ι π :=
  if b < blockNum then s.removeBlockWriteLock t b else s

variable [DecidableEq π]

def setArena (p : π) (b : Nat) (t : ι) : ArenaMessages ι π :=
  { s with arenas := update s.arenas p (update (s.arenas p) b (some t)) }

def writerStep (c : ArenaChannel ι π) (s : ArenaMessages ι π) (t : ι) (weak : Bool) :
    ArenaMessages ι π :=
  match s.pcs t with
  | .nextIndex copy =>
    { s with messageSeq := (s.messageSeq + 1) % 2 ^ 64 }.put t
      (.tryWrite copy (s.messageSeq % c.blockNum))
  | .tryWrite copy b =>
    if s.lockNum b = 0 ∧ weak = false then (s.lock t b).put t (.create copy b)
    else s.put t (.nextIndex copy)
  | .create copy b =>
    (s.setArena (c.proc t) b t).put t (if copy then .copyRelease b else .message b false)
  | .setMessage b sent =>
    match findArena c.messageCapacity (s.arenas (c.proc t)) t with
    | some found => s.put t (.sendRelease b sent found)
    | none => s.put t (.message b sent)
  | .sendRelease b _ found =>
    (s.releaseWrittenBlock c.blockNum t found).put t (.message b true)
  | .copyRelease b => (s.releaseWrittenBlock c.blockNum t b).put t (.done b)
  | .delete b sent => s.put t (if s.lockNum b < 0 then .deleteRelease b sent else .done b)
  | .deleteRelease b _ => (s.releaseWrittenBlock c.blockNum t b).put t (.done b)
  | _ => s

def step (c : ArenaChannel ι π) (s : ArenaMessages ι π) : ArenaEvent ι → ArenaMessages ι π
  | .acquireArenaMessage t => if s.pcs t = .idle then s.put t (.nextIndex false) else s
  | .transmitCopy t => if s.pcs t = .idle then s.put t (.nextIndex true) else s
  | .transmit t =>
    match s.pcs t with
    | .message b sent => s.put t (.setMessage b sent)
    | _ => s
  | .destroy t =>
    match s.pcs t with
    | .message b sent => s.put t (.delete b sent)
    | _ => s
  | .step t weak => s.writerStep c t weak
  | .addBlockReadLock b =>
    if 0 ≤ s.lockNum b then
      { s with
        lockNum := update s.lockNum b (s.lockNum b + 1)
        readers := update s.readers b (s.readers b + 1) }
    else s
  | .removeBlockReadLock b =>
    if 0 < s.readers b then
      { s with
        lockNum := update s.lockNum b (s.lockNum b - 1)
        readers := update s.readers b (s.readers b - 1) }
    else s

/-- **Once**: no writer has released twice, and one that is at its end has released. -/
def Once : Prop :=
  ∀ t, s.releases t ≤ 1 ∧ ∀ b, s.pcs t = .done b → s.releases t = 1

/-- A message that was sent is sent again only if its arena is not found any more, and when it is
destroyed its block is not being written. -/
def Fresh (c : ArenaChannel ι π) (s : ArenaMessages ι π) : ArenaEvent ι → Prop
  | .step t _ =>
    match s.pcs t with
    | .setMessage _ true => findArena c.messageCapacity (s.arenas (c.proc t)) t = none
    | .delete b true => 0 ≤ s.lockNum b
    | _ => True
  | _ => True

instance (c : ArenaChannel ι π) (s : ArenaMessages ι π) (ev : ArenaEvent ι) :
    Decidable (s.Fresh c ev) := by
  unfold Fresh
  split
  · split <;> infer_instance
  · infer_instance

end ArenaMessages

end Shm
