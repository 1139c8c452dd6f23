import CyberRT.Transport.Hybrid
import CyberRT.Shm.SegmentSystem

/-!
# `ShmTransmitter` and the arena part of `ShmDispatcher`
(`transport/transmitter/shm_transmitter.h`, `transport/dispatcher/shm_dispatcher.cc`)

`Transmit` writes a message to a block of the segment: into an arena block goes the 1024 bytes of
the `ArenaMessageWrapper`, into an ordinary block the serialized message; the `MessageInfo` follows
at once in both cases. `ReadArenaMessage` finds the wrapper at the start of the arena block's buffer
and the `MessageInfo` behind it.
-/

namespace Transport

open Lib Shm Shm.Segment

/-- `sizeof(ArenaMessageWrapperDataStruct)`: `msg_size` of the arena path, and the length of the
`memcpy` in the reader's listener. -/
def wrapperSize : Nat := 1024

/-- What the serializers make of a message: `SerializeToArenaMessageWrapper` (the wrapper's data),
`ByteSize`, `SerializeToArray` (that many bytes). -/
structure Message where
  wrapper : Option (Vector UInt8 wrapperSize)
  byteSize : Nat
  body : Option (List UInt8)
  body_length : ∀ bs ∈ body, bs.length = byteSize

structure ReadableInfo where
  arenaBlockIndex : Int
  blockIndex : Int

def store (buf : Option Nat) (offset : Nat) (bs : List UInt8) : Call Unit := fun s =>
  buf.bind fun addr => s.2.shm.bind fun id =>
    if s.2.base ≤ addr ∧ addr + offset + bs.length ≤ s.2.base + (s.1.objects id).size then
      some ((), s.1.modify id fun o => { o with mem := write o.mem (addr - s.2.base + offset) bs },
        s.2)
    else none

def load (buf : Option Nat) (offset n : Nat) : Call (List UInt8) := fun s =>
  buf.bind fun addr => s.2.shm.map fun id =>
    (read (s.1.objects id).mem (addr - s.2.base + offset) n, s)

def onBlockPtr (ptr : Option (Nat × Nat)) (f : Block → Block) : Call Unit := fun s =>
  ptr.map fun p => ((), s.1.setBlock p.1 p.2 (f ((s.1.objects p.1).blocks p.2)), s.2)

def blockAt (ptr : Option (Nat × Nat)) : Call Block := fun s =>
  ptr.map fun p => ((s.1.objects p.1).blocks p.2, s)

variable (abi : Abi) (backend : Backend)

def writeInfo (b : WritableBlock) (msgSize : Nat) (info : MessageInfo) : Call Bool :=
  match info.serializeTo MessageInfo.kSize with
  | none => return false
  | some bs => do
    store b.buf msgSize bs
    onBlockPtr b.block fun b => { b with msgInfoSize := MessageInfo.kSize }
    return true

/-- The arena block and the wrapper's data: `AcquireArenaBlockToWrite`, then
`SerializeToArenaMessageWrapper`. -/
def beginArena (e : Env) (attempts : List Bool) (msg : Message) :
    Call (Option (WritableBlock × Vector UInt8 wrapperSize)) := do
  match ← acquireArenaBlockToWrite abi backend e attempts with
  | none => return none
  | some b =>
    match msg.wrapper with
    | none =>
      let _ ← releaseArenaWrittenBlock b
      return none
    | some w => return some (b, w)

def copyWrapper (b : WritableBlock) (w : Vector UInt8 wrapperSize) : Call Unit := do
  store b.buf 0 w.toList
  onBlockPtr b.block fun b => { b with msgSize := wrapperSize }

def infoArena (b : WritableBlock) (info : MessageInfo) : Call Bool := do
  if ← writeInfo b wrapperSize info then return true
  else
    let _ ← releaseArenaWrittenBlock b
    return false

def sendSerialized (e : Env) (attempts : List Bool) (msg : Message) (info : MessageInfo) :
    Call (Option Nat) := do
  match ← acquireBlockToWrite abi backend e attempts msg.byteSize with
  | none => return none
  | some b =>
    match msg.body with
    | none =>
      let _ ← releaseWrittenBlock b
      return none
    | some bs =>
      store b.buf 0 bs
      onBlockPtr b.block fun b => { b with msgSize := msg.byteSize }
      let ok ← writeInfo b msg.byteSize info
      let _ ← releaseWrittenBlock b
      return if ok then some b.index else none

/-- What a reader gets from an arena block: nothing, as it could not be acquired; an error, as there
is no `MessageInfo`; or the wrapper and the `MessageInfo` that its listeners are called with. -/
inductive ArenaRead
  | notAcquired
  | badInfo
  | read (wrapper : List UInt8) (info : MessageInfo)

variable (hash : List UInt8 → UInt64)

def readBlock (rb : ReadableBlock) : Call ArenaRead := do
  let block ← blockAt rb.block
  let src ← load rb.buf block.msgSize MessageInfo.kSize
  let data ← load rb.buf 0 wrapperSize
  match MessageInfo.deserializeFrom hash src block.msgInfoSize with
  | some info => return .read data info
  | none => return .badInfo

def readArenaMessage (e : Env) (spurious index : Nat) : Call ArenaRead := do
  match ← acquireArenaBlockToRead abi backend e spurious index with
  | none => return .notAcquired
  | some rb =>
    let result ← readBlock hash rb
    let _ ← releaseArenaReadBlock rb
    return result

/-!
## The arena blocks of a channel at work

Any number of transmitters and readers of one channel, each with a `Segment` of its own.
-/

open Function

inductive Phase
  | copy
  | info
  | serialize
  | release
  deriving DecidableEq

structure Writing where
  block : WritableBlock
  wrapper : Vector UInt8 wrapperSize
  msg : Message
  info : MessageInfo
  phase : Phase

structure ArenaSys where
  kernel : Kernel
  segs : Nat → Segment
  writing : Nat → Option Writing
  held : List (Nat × ReadableBlock)
  last : Nat → Option (Vector UInt8 wrapperSize × MessageInfo)

inductive TransmitOp
  | transmit (p : Nat) (e : Env) (attempts : List Bool) (msg : Message) (info : MessageInfo)
  | next (p : Nat) (receivers : Bool) (e : Env) (attempts : List Bool)
  | acquire (q : Nat) (e : Env) (spurious index : Nat)
  | release (q : Nat) (b : ReadableBlock)

namespace ArenaSys

def init : ArenaSys := ⟨.empty, fun _ => .new, fun _ => none, [], fun _ => none⟩

def put (s : ArenaSys) (p : Nat) (r : Kernel × Segment) : ArenaSys :=
  { s with kernel := r.1, segs := update s.segs p r.2 }

def setWriting (s : ArenaSys) (p : Nat) (w : Option Writing) : ArenaSys :=
  { s with writing := update s.writing p w }

def setLast (s : ArenaSys) (i : Nat) (m : Vector UInt8 wrapperSize × MessageInfo) : ArenaSys :=
  { s with last := update s.last i (some m) }

def run {α : Type} (s : ArenaSys) (p : Nat) (c : Call α) : Option (α × ArenaSys) :=
  (c (s.kernel, s.segs p)).map fun r => (r.1, s.put p r.2)

variable (abi : Abi) (backend : Backend)

def advance (s : ArenaSys) (p : Nat) (w : Writing) (receivers : Bool) (e : Env)
    (attempts : List Bool) : Option ArenaSys :=
  match w.phase with
  | .copy => (s.run p (copyWrapper w.block w.wrapper)).map fun r =>
      r.2.setWriting p (some { w with phase := .info })
  | .info => (s.run p (infoArena w.block w.info)).map fun r =>
      if r.1 then
        (r.2.setLast w.block.index (w.wrapper, w.info)).setWriting p
          (some { w with phase := .serialize })
      else r.2.setWriting p none
  | .serialize =>
    if receivers then
      (s.run p (sendSerialized abi backend e attempts w.msg w.info)).map fun r =>
        r.2.setWriting p (if r.1.isSome then some { w with phase := .release } else none)
    else some (s.setWriting p (some { w with phase := .release }))
  | .release => (s.run p (releaseArenaWrittenBlock w.block)).map fun r => r.2.setWriting p none

def step (s : ArenaSys) : TransmitOp → Option ArenaSys
  | .transmit p e attempts msg info =>
    match s.writing p with
    | some _ => some s
    | none => (s.run p (beginArena abi backend e attempts msg)).map fun r =>
        r.2.setWriting p (r.1.map fun bw => ⟨bw.1, bw.2, msg, info, .copy⟩)
  | .next p receivers e attempts =>
    match s.writing p with
    | some w => s.advance abi backend p w receivers e attempts
    | none => some s
  | .acquire q e spurious i =>
    (s.run q (acquireArenaBlockToRead abi backend e spurious i)).map fun r =>
      { r.2 with held := r.1.toList.map (q, ·) ++ s.held }
  | .release q b =>
    if (q, b) ∈ s.held then
      (s.run q (releaseArenaReadBlock b)).map fun r => { r.2 with held := s.held.erase (q, b) }
    else some s

def Idle (s : ArenaSys) (i : Nat) : Prop := ∀ p w, s.writing p = some w → w.block.index ≠ i

/-- **A reader gets the last message**: whoever calls `ReadArenaMessage` for a block that is not
being written, with whatever segment, acquires it only to get the wrapper and the info last written
there (the hashes of the ids in it are computed anew). -/
def Reads (hash : List UInt8 → UInt64) (s : ArenaSys) : Prop :=
  ∀ q e spurious i m, s.Idle i → s.last i = some m → ∀ r t,
    readArenaMessage abi backend hash e spurious i (s.kernel, s.segs q) = some (r, t) →
      r = .notAcquired ∨ r = .read m.1.toList (m.2.rehash hash)

def nextArenaBlock (o : ShmObject) (first : Nat) : UInt32 → List Bool → Option Nat
  | _, [] => none
  | seq, spurious :: rest =>
    let tryIdx := seq.toNat % ShmConf.arenaBlockNum
    if ((o.blocks (first + tryIdx)).tryLockForWrite spurious).isSome then some tryIdx
    else nextArenaBlock o first (seq + 1) rest

def Untouched (s : ArenaSys) (i : Nat) : Prop := s.last i = none ∧ s.Idle i

def CanOpen (s : ArenaSys) (p : Nat) : Prop :=
  (s.segs p).init = false → s.kernel.linked ≠ none → backend = .xsi

/-- **When readers are safe.** A `Transmit` gets an arena block whose two neighbours hold no message
and are not being written, and does not make its own segment be recreated by a message larger than
the ceiling; whoever has to open the segment is not a `PosixSegment`; and no block has as many
readers as its counter can count. -/
def StepOk (s : ArenaSys) : TransmitOp → Prop
  | .transmit p _ attempts _ _ => s.writing p = none → s.CanOpen backend p ∧
    ∀ id j, s.kernel.linked = some id →
      nextArenaBlock (s.kernel.objects id) (s.kernel.conf id).blockNum
        (s.kernel.objects id).state.arenaSeq attempts = some j →
      s.Untouched (j + 1) ∧ ∀ i, i + 1 = j → s.Untouched i
  | .next p receivers _ _ => ∀ w, s.writing p = some w → w.phase = .serialize → receivers = true →
    w.msg.byteSize ≤ (s.segs p).conf.ceilingMsgSize
  | .acquire q _ _ i => s.CanOpen backend q ∧ ∀ id, s.kernel.linked = some id →
    s.kernel.lockNum id ((s.kernel.conf id).blockNum + i) ≠ Int32.maxValue
  | .release _ _ => True

end ArenaSys

/-!
## The locks that `Transmit` takes

`ShmTransmitter::Transmit` stage by stage (`TransmitStage`): between two stages of a call anything
may happen to the shared memory by the calls on other segments, which may recreate it. Any number of
transmitters, with the calls of readers and other writers in between; a call that ends its process
or does not return ends the run.
-/

/-- Where a `Transmit` is: at its begin; with the arena block, before
`SerializeToArenaMessageWrapper`, before the wrapper is copied, before its `MessageInfo`, before
`serialized_receiver_count_` is read; with the ordinary block (and the arena block in the arena
path), before `SerializeToArray`, before its `MessageInfo`, before `ReleaseWrittenBlock`; before
`ReleaseArenaWrittenBlock`. -/
inductive TransmitStage
  | start
  | wrapper (arena : WritableBlock)
  | copy (arena : WritableBlock) (data : Vector UInt8 wrapperSize)
  | info (arena : WritableBlock)
  | branch (arena : WritableBlock)
  | body (arena : Option WritableBlock) (b : WritableBlock)
  | bodyInfo (arena : Option WritableBlock) (b : WritableBlock)
  | release (arena : Option WritableBlock) (b : WritableBlock)
  | releaseArena (arena : WritableBlock) (blockIndex : Int)

inductive StageEnd
  | goOn (stage : TransmitStage)
  | returned (result : Option ReadableInfo)

structure TransmitCall where
  arenaTransmit : Bool
  msg : Message
  info : MessageInfo

structure StageEnv where
  env : Env
  attempts : List Bool
  receivers : Bool

variable (abi : Abi) (backend : Backend)

namespace TransmitCall

def acquire (c : TransmitCall) (se : StageEnv) (arena : Option WritableBlock) : Call StageEnd := do
  match ← acquireBlockToWrite abi backend se.env se.attempts c.msg.byteSize with
  | none => return .returned none
  | some b => return .goOn (.body arena b)

def next (c : TransmitCall) (se : StageEnv) : TransmitStage → Call StageEnd
  | .start => do
    if c.arenaTransmit then
      match ← acquireArenaBlockToWrite abi backend se.env se.attempts with
      | none => return .returned none
      | some a => return .goOn (.wrapper a)
    else c.acquire abi backend se none
  | .wrapper a =>
    match c.msg.wrapper with
    | none => do
      let _ ← releaseArenaWrittenBlock a
      return .returned none
    | some w => return .goOn (.copy a w)
  | .copy a w => do
    copyWrapper a w
    return .goOn (.info a)
  | .info a => do
    if ← infoArena a c.info then return .goOn (.branch a) else return .returned none
  | .branch a =>
    if se.receivers then c.acquire abi backend se (some a) else return .goOn (.releaseArena a (-1))
  | .body a b =>
    match c.msg.body with
    | none => do
      let _ ← releaseWrittenBlock b
      return .returned none
    | some bs => do
      store b.buf 0 bs
      onBlockPtr b.block fun b => { b with msgSize := c.msg.byteSize }
      return .goOn (.bodyInfo a b)
  | .bodyInfo a b => do
    if ← writeInfo b c.msg.byteSize c.info then return .goOn (.release a b)
    else
      let _ ← releaseWrittenBlock b
      return .returned none
  | .release a b => do
    let _ ← releaseWrittenBlock b
    match a with
    | none => return .returned (some ⟨-1, b.index⟩)
    | some a => return .goOn (.releaseArena a b.index)
  | .releaseArena a i => do
    let _ ← releaseArenaWrittenBlock a
    return .returned (some ⟨a.index, i⟩)

end TransmitCall

/-! ## Transmitters at work -/

structure TransmitSys where
  sys : Sys
  calls : Nat → Option (TransmitCall × TransmitStage)
  changed : Nat → Nat → Nat → Int32

inductive TransmitSysOp
  | transmit (p : Nat) (c : TransmitCall)
  | next (p : Nat) (se : StageEnv)
  | other (op : SegmentOp)

def lockChange (k k' : Kernel) (id i : Nat) : Int32 := k'.lockOf id i - k.lockOf id i

end Transport

def Shm.SegmentOp.segment : SegmentOp → Nat
  | .initOnly p _ _ => p
  | .acquireBlockToWrite p _ _ _ => p
  | .releaseWrittenBlock p _ => p
  | .acquireArenaBlockToWrite p _ _ => p
  | .releaseArenaWrittenBlock p _ => p
  | .acquireBlockToRead p _ _ _ => p
  | .releaseReadBlock p _ => p
  | .acquireArenaBlockToRead p _ _ _ => p
  | .releaseArenaReadBlock p _ => p
  | .byIndex p _ => p
  | .destroy p => p

namespace Transport

open Lib Shm Shm.Segment

variable (abi : Abi) (backend : Backend)

namespace TransmitSys

def init : TransmitSys := ⟨.init, fun _ => none, fun _ _ _ => 0⟩

def after (c : TransmitCall) : StageEnd → Option (TransmitCall × TransmitStage)
  | .goOn stage => some (c, stage)
  | .returned _ => none

def step (s : TransmitSys) : TransmitSysOp → Option TransmitSys
  | .transmit p c =>
    match s.calls p with
    | some _ => some s
    | none => some
      { s with
        calls := Function.update s.calls p (some (c, .start))
        changed := Function.update s.changed p fun _ _ => 0 }
  | .next p se =>
    match s.calls p with
    | none => some s
    | some (c, stage) => (s.sys.run p (c.next abi backend se stage)).map fun r =>
      { sys := r.2
        calls := Function.update s.calls p (after c r.1)
        changed := Function.update s.changed p fun id i =>
          s.changed p id i + lockChange s.sys.kernel r.2.kernel id i }
  | .other op =>
    if (s.calls op.segment).isSome then some s
    else (s.sys.step abi backend op).map fun sys => { s with sys := sys }

/-! ## What is to hold -/

/-- **A `Transmit` that has returned has left every lock as it was.** -/
def Balanced (s : TransmitSys) : Prop :=
  ∀ p, s.calls p = none → ∀ id i, s.changed p id i = 0

/-- What a stage must not meet. In the arena path, with the arena block locked: the acquire of an
ordinary block fails; `SerializeToArray` fails; the segment no longer maps the object that the arena
block is in. -/
def Allowed (k : Kernel) (seg : Segment) (c : TransmitCall) (se : StageEnv) :
    TransmitStage → Prop
  | .branch _ => se.receivers = true → ∀ t,
    acquireBlockToWrite abi backend se.env se.attempts c.msg.byteSize (k, seg) ≠ some (none, t)
  | .body (some _) _ => c.msg.body ≠ none
  | .releaseArena a _ => a.block.map Prod.fst = seg.shm
  | _ => True

/-- **When a `Transmit` releases what it has locked.** -/
def StepOk (s : TransmitSys) : TransmitSysOp → Prop
  | .next p se => ∀ c stage, s.calls p = some (c, stage) →
    Allowed abi backend s.sys.kernel (s.sys.segs p) c se stage
  | _ => True

end TransmitSys

end Transport
