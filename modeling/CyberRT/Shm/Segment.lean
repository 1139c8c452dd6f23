import CyberRT.Lib.Loop

/-!
# `ShmConf` (`transport/shm/shm_conf.cc`)

The configuration of a segment is chosen by the size of the message: the size is rounded up to one
of six ceilings, and the ceiling fixes the number of blocks and the size of a block's buffer.
-/

namespace Shm

open List

structure ShmConf where
  ceilingMsgSize : Nat
  blockBufSize : Nat
  blockNum : Nat
  managedShmSize : Nat

namespace ShmConf

def extraSize : Nat := 1024 * 4
def stateSize : Nat := 1024
def blockSize : Nat := 1024
def messageInfoSize : Nat := 1024

def arenaBlockNum : Nat := 512
def arenaMessageSize : Nat := 1024

def messageSize16K : Nat := 1024 * 16
def messageSize128K : Nat := 1024 * 128
def messageSize1M : Nat := 1024 * 1024
def messageSize8M : Nat := 1024 * 1024 * 8
def messageSize16M : Nat := 1024 * 1024 * 16
def messageSizeMore : Nat := 1024 * 1024 * 32

def blockNum16K : Nat := 512
def blockNum128K : Nat := 128
def blockNum1M : Nat := 64
def blockNum8M : Nat := 32
def blockNum16M : Nat := 16
def blockNumMore : Nat := 8

def getCeilingMessageSize (realMsgSize : Nat) : Nat :=
  if realMsgSize ≤ messageSize16K then messageSize16K
  else if realMsgSize ≤ messageSize128K then messageSize128K
  else if realMsgSize ≤ messageSize1M then messageSize1M
  else if realMsgSize ≤ messageSize8M then messageSize8M
  else if realMsgSize ≤ messageSize16M then messageSize16M
  else messageSizeMore

def getBlockBufSize (ceilingMsgSize : Nat) : Nat := ceilingMsgSize + messageInfoSize

def getBlockNum (ceilingMsgSize : Nat) : Nat :=
  if ceilingMsgSize = messageSize16K then blockNum16K
  else if ceilingMsgSize = messageSize128K then blockNum128K
  else if ceilingMsgSize = messageSize1M then blockNum1M
  else if ceilingMsgSize = messageSize8M then blockNum8M
  else if ceilingMsgSize = messageSize16M then blockNum16M
  else if ceilingMsgSize = messageSizeMore then blockNumMore
  else 0

def update (realMsgSize : Nat) : ShmConf :=
  let ceiling := getCeilingMessageSize realMsgSize
  let bufSize := getBlockBufSize ceiling
  let num := getBlockNum ceiling
  { ceilingMsgSize := ceiling
    blockBufSize := bufSize
    blockNum := num
    managedShmSize := extraSize + stateSize + (blockSize + bufSize) * num +
      (blockSize + arenaMessageSize) * arenaBlockNum }

def default : ShmConf := update messageSize16K

section
variable (n : Nat)
include n

theorem getCeilingMessageSize_cases :
    getCeilingMessageSize n ∈ [messageSize16K, messageSize128K, messageSize1M, messageSize8M,
      messageSize16M, messageSizeMore] := by
  unfold getCeilingMessageSize
  repeat' split
  all_goals simp

theorem getCeilingMessageSize_le : getCeilingMessageSize n ≤ messageSizeMore := by
  have h := getCeilingMessageSize_cases n
  generalize getCeilingMessageSize n = c at h
  revert c
  decide

theorem le_getCeilingMessageSize : min n messageSizeMore ≤ getCeilingMessageSize n := by
  unfold getCeilingMessageSize
  repeat' split
  all_goals omega

/-- A ceiling is its own ceiling, so that a segment opened by the ceiling in its state gets the
configuration it was created with. -/
theorem getCeilingMessageSize_idem :
    getCeilingMessageSize (getCeilingMessageSize n) = getCeilingMessageSize n := by
  have h := getCeilingMessageSize_cases n
  generalize getCeilingMessageSize n = c at h
  revert c
  decide

theorem update_ceiling : update (update n).ceilingMsgSize = update n := by
  simp only [update, getCeilingMessageSize_idem]

theorem blockNum_bounds : 8 ≤ (update n).blockNum ∧ (update n).blockNum ≤ 512 := by
  have h := getCeilingMessageSize_cases n
  simp only [update]
  generalize getCeilingMessageSize n = c at h
  revert c
  decide

theorem managedShmSize_lt : (update n).managedShmSize < 2 ^ 30 := by
  have h := getCeilingMessageSize_cases n
  simp only [update]
  generalize getCeilingMessageSize n = c at h
  revert c
  decide

end

end ShmConf

/-!
## Segments (`transport/shm/segment.cc`, `xsi_segment.cc`, `posix_segment.cc`)

The kernel side (`Kernel`) holds the shared-memory objects that were ever made and which of them the
channel's name (the XSI key, the POSIX name) is linked to; an object stays usable by whoever has it
mapped after it is unlinked.
-/

open Function Lib

structure Abi where
  sizeofState : Nat
  sizeofBlock : Nat
  state_le : sizeofState ≤ ShmConf.stateSize
  block_le : sizeofBlock ≤ ShmConf.blockSize

def Abi.lp64 : Abi := ⟨32, 32, by decide, by decide⟩

structure State where
  needRemap : Bool
  seq : UInt32
  arenaSeq : UInt32
  referenceCount : Nat
  ceilingMsgSize : Nat

structure Block where
  lockNum : Int32
  msgSize : Nat
  msgInfoSize : Nat

/-- A shared-memory object: its size, its state, its blocks (module doc) and the bytes of its
buffers, by offset. -/
structure ShmObject where
  size : Nat
  state : State
  blocks : Nat → Block
  mem : Nat → UInt8

structure Kernel where
  objects : Nat → ShmObject
  linked : Option Nat
  next : Nat

structure Segment where
  init : Bool
  conf : ShmConf
  shm : Option Nat
  base : Nat
  blockBufAddrs : Nat → Option Nat
  arenaBlockBufAddrs : Nat → Option Nat

def Segment.new : Segment := ⟨false, .default, none, 0, fun _ => none, fun _ => none⟩

def Kernel.modify (k : Kernel) (id : Nat) (f : ShmObject → ShmObject) : Kernel :=
  { k with objects := update k.objects id (f (k.objects id)) }

def ShmObject.increaseReferenceCounts (o : ShmObject) : ShmObject :=
  { o with state := { o.state with referenceCount := o.state.referenceCount + 1 } }

def ShmObject.create (conf : ShmConf) : ShmObject where
  size := conf.managedShmSize
  state := ⟨false, 0, 0, 0, conf.ceilingMsgSize⟩
  blocks := fun _ => ⟨0, 0, 0⟩
  mem := fun _ => 0

variable (abi : Abi)

def blockBufOffset (conf : ShmConf) (i : Nat) : Nat :=
  abi.sizeofState + conf.blockNum * abi.sizeofBlock + ShmConf.arenaBlockNum * abi.sizeofBlock +
    i * conf.blockBufSize

def arenaBlockBufOffset (conf : ShmConf) (ai : Nat) : Nat :=
  abi.sizeofState + conf.blockNum * abi.sizeofBlock + ShmConf.arenaBlockNum * abi.sizeofBlock +
    conf.blockNum * conf.blockBufSize + ai * ShmConf.arenaMessageSize

def address (base offset : Nat) : Nat := (base + offset) % 2 ^ 64

/-- `for (; i < n; ++i)` over the buffers, `rem` passes before `i` reaches `n`: each address is
registered under its index; with `nullCheck`, a null address leaves the loop. -/
def registerBufs (nullCheck : Bool) (addr : Nat → Nat) :
    Nat → Nat → (Nat → Option Nat) → Nat × (Nat → Option Nat)
  | 0, i, bufs => (i, bufs)
  | rem + 1, i, bufs =>
    if nullCheck && addr i == 0 then (i, bufs)
    else registerBufs nullCheck addr rem (i + 1) (update bufs i (some (addr i)))

namespace Segment

def reset (seg : Segment) : Segment :=
  { seg with
    shm := none, base := 0, blockBufAddrs := fun _ => none, arenaBlockBufAddrs := fun _ => none }

/-- The end of an open: `i` and `ai` are where the two loops stopped. -/
def finishOpen (k : Kernel) (seg : Segment) (id : Nat) (conf : ShmConf) (base : Nat)
    (bufs arenaBufs : Nat × (Nat → Option Nat)) : Bool × Kernel × Segment :=
  if bufs.1 ≠ conf.blockNum ∨ arenaBufs.1 ≠ ShmConf.arenaBlockNum then
    (false, { k with linked := none }, { seg.reset with conf })
  else
    (true, k.modify id ShmObject.increaseReferenceCounts,
      ⟨true, conf, some id, base, bufs.2, arenaBufs.2⟩)

def xsiOpenOnly (k : Kernel) (seg : Segment) (base : Nat) : Bool × Kernel × Segment :=
  if seg.init then (true, k, seg)
  else
    match k.linked with
    | none => (false, k, seg)
    | some id =>
      let conf := ShmConf.update (k.objects id).state.ceilingMsgSize
      finishOpen k seg id conf base
        (registerBufs true (fun i => address base (blockBufOffset abi conf i)) conf.blockNum 0
          seg.blockBufAddrs)
        (registerBufs true (fun ai => address base (arenaBlockBufOffset abi conf ai))
          ShmConf.arenaBlockNum 0 seg.arenaBlockBufAddrs)

def create (nullCheck : Bool) (k : Kernel) (seg : Segment) (base : Nat) : Bool × Kernel × Segment :=
  let id := k.next
  let object := ShmObject.create seg.conf
  let k : Kernel := ⟨update k.objects id object, some id, k.next + 1⟩
  let conf := ShmConf.update object.state.ceilingMsgSize
  finishOpen k seg id conf base
    (registerBufs nullCheck (fun i => address base (blockBufOffset abi conf i)) conf.blockNum 0
      seg.blockBufAddrs)
    (registerBufs nullCheck (fun ai => address base (arenaBlockBufOffset abi conf ai))
      ShmConf.arenaBlockNum 0 seg.arenaBlockBufAddrs)

def xsiOpenOrCreate (k : Kernel) (seg : Segment) (base : Nat) : Bool × Kernel × Segment :=
  if seg.init then (true, k, seg)
  else if k.linked.isSome then xsiOpenOnly abi k seg base
  else create abi false k seg base

def posixArenaLoop (conf : ShmConf) (base i fuel : Nat) (arenaBufs : Nat → Option Nat) :
    Option (UInt32 × (Nat → Option Nat)) :=
  loop (fun _ => decide (i < ShmConf.arenaBlockNum))
    (fun s =>
      let addr := address base (arenaBlockBufOffset abi conf s.1.toNat)
      if addr = 0 then .brk s
      else .next (s.1 + 1, update s.2 s.1.toNat (some addr)))
    fuel (0, arenaBufs)

def posixOpenOnly (fuel : Nat) (k : Kernel) (seg : Segment) (base : Nat) :
    Option (Bool × Kernel × Segment) :=
  if seg.init then some (true, k, seg)
  else
    match k.linked with
    | none => some (false, k, seg)
    | some id =>
      let conf := ShmConf.update (k.objects id).state.ceilingMsgSize
      let bufs := registerBufs true (fun i => address base (blockBufOffset abi conf i))
        conf.blockNum 0 seg.blockBufAddrs
      match posixArenaLoop abi conf base bufs.1 fuel seg.arenaBlockBufAddrs with
      | none => none
      | some (ai, arenaBufs) => some (finishOpen k seg id conf base bufs (ai.toNat, arenaBufs))

def posixOpenOrCreate (fuel : Nat) (k : Kernel) (seg : Segment) (base : Nat) :
    Option (Bool × Kernel × Segment) :=
  if seg.init then some (true, k, seg)
  else if k.linked.isSome then posixOpenOnly abi fuel k seg base
  else some (create abi true k seg base)

end Segment

/-!
## The calls of `Segment` (`transport/shm/segment.cc`, `block.cc`)

Each call is a program over the kernel's shared memory and the C++ object.
-/

open Lib

/-! ## `Block` -/

namespace Block

def kRWLockFree : Int32 := 0
def kWriteExclusive : Int32 := -1
def kMaxTryLockTimes : Nat := 5

def tryLockForWrite (spurious : Bool) (b : Block) : Option Block :=
  if b.lockNum = kRWLockFree ∧ spurious = false then some { b with lockNum := kWriteExclusive }
  else none

def readLockLoop (b : Block) : Nat → Nat → Option Block
  | 0, _ => some { b with lockNum := b.lockNum + 1 }
  | spurious + 1, tryTimes =>
    if tryTimes + 1 = kMaxTryLockTimes then none
    else if b.lockNum < kRWLockFree then none
    else readLockLoop b spurious (tryTimes + 1)

def tryLockForRead (spurious : Nat) (b : Block) : Option Block :=
  if b.lockNum < kRWLockFree then none else readLockLoop b spurious 0

def releaseWriteLock (b : Block) : Block := { b with lockNum := b.lockNum + 1 }

def releaseReadLock (b : Block) : Block := { b with lockNum := b.lockNum - 1 }

end Block

/-! ## What a call works on -/

structure MapAddr where
  val : Nat
  pos : 0 < val
  lt : val < 2 ^ 47

/-- Where the mappings that a call may make are placed, and the passes of the loop in
`PosixSegment::OpenOnly`. -/
structure Env where
  openAt : MapAddr
  remapAt : MapAddr
  recreateAt : MapAddr
  fuel : Nat

inductive Backend
  | xsi
  | posix

/-- `WritableBlock`, which is also `ReadableBlock`. `block` is a pointer: the object and the index
in its blocks. -/
structure WritableBlock where
  index : Nat
  block : Option (Nat × Nat)
  buf : Option Nat
  deriving DecidableEq

abbrev ReadableBlock := WritableBlock

abbrev Call := Prog (Kernel × Segment)

def Kernel.setBlock (k : Kernel) (id i : Nat) (b : Block) : Kernel :=
  k.modify id fun o => { o with blocks := Function.update o.blocks i b }

def Kernel.setState (k : Kernel) (id : Nat) (st : State) : Kernel :=
  k.modify id fun o => { o with state := st }

namespace Segment

def self : Call Segment := fun s => some (s.2, s)

def onSelf (f : Segment → Segment) : Call Unit := fun s => some ((), s.1, f s.2)

def onState {α : Type} (f : State → α × State) : Call α := fun s =>
  s.2.shm.map fun id =>
    let r := f (s.1.objects id).state
    (r.1, s.1.setState id r.2, s.2)

def tryBlock (i : Nat) (f : Block → Option Block) : Call Bool := fun s =>
  s.2.shm.map fun id =>
    match f ((s.1.objects id).blocks i) with
    | none => (false, s)
    | some b => (true, s.1.setBlock id i b, s.2)

def needRemap : Call Bool := fun s =>
  s.2.shm.map fun id => ((s.1.objects id).state.needRemap, s)

end Segment

open Segment

variable (abi : Abi) (backend : Backend)

/-! ## Mapping -/

def openOnly (fuel : Nat) (base : MapAddr) : Call Bool := fun s =>
  match backend with
  | .xsi => some (xsiOpenOnly abi s.1 s.2 base.val)
  | .posix => posixOpenOnly abi fuel s.1 s.2 base.val

def openOrCreate (fuel : Nat) (base : MapAddr) : Call Bool := fun s =>
  match backend with
  | .xsi => some (xsiOpenOrCreate abi s.1 s.2 base.val)
  | .posix => posixOpenOrCreate abi fuel s.1 s.2 base.val

def remove : Call Bool := fun s => some (s.1.linked.isSome, { s.1 with linked := none }, s.2)

def ready (openIt : Call Bool) : Call Bool := do
  if (← self).init then return true else openIt

variable (e : Env)

def remap : Call Bool := do
  onSelf fun seg => { seg with init := false }
  onSelf Segment.reset
  openOnly abi backend e.fuel e.remapAt

def recreate (msgSize : Nat) : Call Bool := do
  onSelf fun seg => { seg with init := false }
  onState fun st => ((), { st with needRemap := true })
  onSelf Segment.reset
  let _ ← remove
  onSelf fun seg => { seg with conf := .update msgSize }
  openOrCreate abi backend e.fuel e.recreateAt

def remapIfNeeded : Call Bool := do
  if ← needRemap then remap abi backend e else return true

def recreateIfLarger (msgSize : Nat) (result : Bool) : Call Bool := do
  if (← self).conf.ceilingMsgSize < msgSize then recreate abi backend e msgSize else return result

def initOnly (messageSize : Nat) : Call Bool := do
  if (← self).init then return true
  else
    onSelf fun seg => { seg with conf := .update messageSize }
    openOrCreate abi backend e.fuel e.openAt

def destroy : Call Bool := do
  if (← self).init then
    onSelf fun seg => { seg with init := false }
    let count ← onState fun st =>
      (st.referenceCount - 1, { st with referenceCount := st.referenceCount - 1 })
    if count = 0 then remove else return true
  else return true

/-! ## Writing -/

/-- `GetNextWritableBlockIndex` and `GetNextArenaWritableBlockIndex`: the blocks from `first` on,
`blockNum` of them, in the order of the sequence number that `fetchAdd` draws. -/
def nextIndex (fetchAdd : State → UInt32 × State) (first blockNum : Nat) : List Bool → Call Nat
  | [] => fun _ => none
  | spurious :: rest => do
    let seq ← onState fetchAdd
    let tryIdx := seq.toNat % blockNum
    if ← tryBlock (first + tryIdx) (Block.tryLockForWrite spurious) then return tryIdx
    else nextIndex fetchAdd first blockNum rest

def fetchAddSeq (st : State) : UInt32 × State := (st.seq, { st with seq := st.seq + 1 })

def fetchAddArenaSeq (st : State) : UInt32 × State :=
  (st.arenaSeq, { st with arenaSeq := st.arenaSeq + 1 })

def acquireBlockToWrite (attempts : List Bool) (msgSize : Nat) :
    Call (Option WritableBlock) := do
  if ← ready (openOrCreate abi backend e.fuel e.openAt) then
    let result ← remapIfNeeded abi backend e
    if ← recreateIfLarger abi backend e msgSize result then
      let index ← nextIndex fetchAddSeq 0 (← self).conf.blockNum attempts
      let seg ← self
      return some ⟨index, seg.shm.map (·, index), seg.blockBufAddrs index⟩
    else return none
  else return none

def acquireArenaBlockToWrite (attempts : List Bool) : Call (Option WritableBlock) := do
  if ← ready (openOrCreate abi backend e.fuel e.openAt) then
    let _ ← remapIfNeeded abi backend e
    let first := (← self).conf.blockNum
    let index ← nextIndex fetchAddArenaSeq first ShmConf.arenaBlockNum attempts
    let seg ← self
    return some ⟨index, seg.shm.map (·, first + index), seg.arenaBlockBufAddrs index⟩
  else return none

variable (index : Nat)

def onBlock (f : Block → Option Block) : Call Bool := do
  if index < (← self).conf.blockNum then tryBlock index f else return false

def onArenaBlock (f : Block → Option Block) : Call Bool := do
  if index < ShmConf.arenaBlockNum then tryBlock ((← self).conf.blockNum + index) f
  else return false

def releaseWrittenBlock (b : WritableBlock) : Call Bool :=
  onBlock b.index fun b => some b.releaseWriteLock

def releaseArenaWrittenBlock (b : WritableBlock) : Call Bool :=
  onArenaBlock b.index fun b => some b.releaseWriteLock

/-! ## Reading -/

/-- `AcquireBlockToRead`: the index is checked against the configuration of the mapping that the
call found, which may not be the one it leaves. -/
def acquireBlockToRead (spurious index : Nat) : Call (Option ReadableBlock) := do
  if ← ready (openOnly abi backend e.fuel e.openAt) then
    if index < (← self).conf.blockNum then
      if ← remapIfNeeded abi backend e then
        if ← tryBlock index (Block.tryLockForRead spurious) then
          let seg ← self
          return some ⟨index, seg.shm.map (·, index), seg.blockBufAddrs index⟩
        else return none
      else return none
    else return none
  else return none

def acquireArenaBlockToRead (spurious index : Nat) : Call (Option ReadableBlock) := do
  if ← ready (openOnly abi backend e.fuel e.openAt) then
    if index < ShmConf.arenaBlockNum then
      if ← remapIfNeeded abi backend e then
        let first := (← self).conf.blockNum
        if ← tryBlock (first + index) (Block.tryLockForRead spurious) then
          let seg ← self
          return some ⟨index, seg.shm.map (·, first + index), seg.arenaBlockBufAddrs index⟩
        else return none
      else return none
    else return none
  else return none

def releaseReadBlock (b : ReadableBlock) : Call Bool :=
  onBlock b.index fun b => some b.releaseReadLock

def releaseArenaReadBlock (b : ReadableBlock) : Call Bool :=
  onArenaBlock b.index fun b => some b.releaseReadLock

/-! ## Locking by index -/

def lockBlockForWriteByIndex (spurious : Bool) (index : Nat) : Call Bool :=
  onBlock index (Block.tryLockForWrite spurious)
def releaseBlockForWriteByIndex : Call Bool :=
  onBlock index fun b => some b.releaseWriteLock
def lockBlockForReadByIndex (spurious : Nat) (index : Nat) : Call Bool :=
  onBlock index (Block.tryLockForRead spurious)
def releaseBlockForReadByIndex : Call Bool :=
  onBlock index fun b => some b.releaseReadLock
def lockArenaBlockForWriteByIndex (spurious : Bool) (index : Nat) : Call Bool :=
  onArenaBlock index (Block.tryLockForWrite spurious)
def releaseArenaBlockForWriteByIndex : Call Bool :=
  onArenaBlock index fun b => some b.releaseWriteLock
def lockArenaBlockForReadByIndex (spurious : Nat) (index : Nat) : Call Bool :=
  onArenaBlock index (Block.tryLockForRead spurious)
def releaseArenaBlockForReadByIndex : Call Bool :=
  onArenaBlock index fun b => some b.releaseReadLock

end Shm
