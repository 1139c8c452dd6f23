import CyberRT.Lib.Run

/-!
# The arenas of a channel (`transport/shm/protobuf_arena_manager.cc`)

`EnableSegment` makes an `ArenaSegment` for a channel, whose constructor maps the shared memory of
the channel: it creates it, or opens it if it is there, in two attempts.
-/

namespace Shm

open Function Lib

/-! ## The shared memory -/

structure ArenaShm where
  refCount : UInt64
  autoExtended : Bool
  messageSize : UInt64
  blockNum : UInt64
  messageSeq : UInt64
  lockNum : Nat → Int32

structure ArenaChannelConf where
  enabled : Bool
  maxMsgSize : UInt64
  maxPoolSize : UInt64

inductive StatePtr
  | null
  | wild
  | shm
  deriving DecidableEq

structure ArenaSegment (A : Type) where
  state : StatePtr
  shmAddress : UInt64
  arenas : List (Option A)
  arenaBlockAddress : List UInt64
  messageCapacity : UInt64

inductive CreateResult
  | created
  | einval
  | failed

structure OpenEnv where
  create : CreateResult
  find : Bool
  attach : Option UInt64

variable {A : Type}

namespace ArenaSegment

def attachFailed : UInt64 := -1

/-- The address of a block's buffer: `sizeof(ArenaSegmentState)` is 128,
`sizeof(ArenaSegmentBlock)` is 16. -/
def blockAddress (shmAddress messageSize blockNum : UInt64) (i : Nat) : UInt64 :=
  shmAddress + 128 + blockNum * 16 + UInt64.ofNat i * messageSize

def mapped (seg : ArenaSegment A) (messageSize blockNum address : UInt64) : ArenaSegment A :=
  { seg with
    state := .shm
    shmAddress := address
    messageCapacity := messageSize
    arenas := seg.arenas.take blockNum.toNat ++
      List.replicate (blockNum.toNat - seg.arenas.length) none
    arenaBlockAddress := seg.arenaBlockAddress ++
      (List.range blockNum.toNat).map (blockAddress address messageSize blockNum) }

def openShm (env : OpenEnv) (messageSize blockNum : UInt64) (m : ArenaShm) (seg : ArenaSegment A) :
    Bool × ArenaShm × ArenaSegment A :=
  if env.find then
    match env.attach with
    | none => (false, m, { seg with shmAddress := attachFailed })
    | some address =>
      (true, { m with refCount := m.refCount + 1 }, seg.mapped messageSize blockNum address)
  else (false, m, seg)

def openOrCreate (env : OpenEnv) (messageSize blockNum : UInt64) (m : Option ArenaShm)
    (seg : ArenaSegment A) : Bool × Option ArenaShm × ArenaSegment A :=
  match m with
  | some m =>
    -- EEXIST
    let (ok, m, seg) := seg.openShm env messageSize blockNum m
    (ok, some m, seg)
  | none =>
    match env.create with
    | .failed => (false, none, seg)
    | .einval =>
      -- goes on, and `shmat` fails
      (false, none, { seg with messageCapacity := messageSize, shmAddress := attachFailed })
    | .created =>
      match env.attach with
      | none =>
        (false, some ⟨0, false, 0, 0, 0, fun _ => 0⟩,
          { seg with messageCapacity := messageSize, shmAddress := attachFailed })
      | some address =>
        (true, some ⟨1, false, messageSize, blockNum, 0, fun _ => 0⟩,
          seg.mapped messageSize blockNum address)

def init (env env' : OpenEnv) (messageSize blockNum : UInt64) (m : Option ArenaShm)
    (seg : ArenaSegment A) : Option ArenaShm × ArenaSegment A :=
  match seg.openOrCreate env messageSize blockNum m with
  | (true, m, seg) => (m, seg)
  | (false, m, seg) => (seg.openOrCreate env' messageSize blockNum m).2

end ArenaSegment

/-! ## Blocks -/

namespace ArenaShm

def getNextWritableBlockIndex (m : ArenaShm) : List Bool → Option (Nat × ArenaShm)
  | [] => none
  | spurious :: rest =>
    if m.blockNum = 0 then none
    else
      let index := (m.messageSeq % m.blockNum).toNat
      let m := { m with messageSeq := m.messageSeq + 1 }
      if m.lockNum index = (0 : Int32) ∧ spurious = false then
        some (index, { m with lockNum := update m.lockNum index (-1) })
      else m.getNextWritableBlockIndex rest

def releaseWrittenBlock (m : ArenaShm) (index : UInt64) : ArenaShm :=
  if index ≥ m.blockNum then m
  else
    { m with
      lockNum := update m.lockNum index.toNat (m.lockNum index.toNat + 1) }

end ArenaShm

structure ExtendedStruct where
  channelId : UInt64
  addressOffset : UInt64
  relatedBlocks : Fin 4 → UInt64
  relatedBlocksSize : UInt64

namespace ExtendedStruct

def resetMessageRelatedBlocks (x : ExtendedStruct) : ExtendedStruct :=
  { x with relatedBlocksSize := 0 }

def addMessageRelatedBlock (x : ExtendedStruct) (blockIndex : UInt64) : ExtendedStruct :=
  if h : x.relatedBlocksSize.toNat < 4 then
    { x with
      relatedBlocks := update x.relatedBlocks ⟨x.relatedBlocksSize.toNat, h⟩ blockIndex
      relatedBlocksSize := x.relatedBlocksSize + 1 }
  else x

end ExtendedStruct

structure ArenaInput (A : Type) where
  address : UInt64
  arena : Option A

/-! ## The search -/

/-- How the search for an arena ends: at its entry; behind the last index; at an index that the
table does not have. -/
inductive SearchEnd
  | found (index : Nat)
  | notFound
  | outside

/-- The loop of `SetMessage` over `arenas_`, from index `i` with the entries from there on: the
indices that it looks at, and how it ends. -/
def searchArena [DecidableEq A] (messageCapacity : Nat) (arena : A) :
    Nat → List (Option A) → List Nat × SearchEnd
  | i, [] => if i < messageCapacity then ([i], .outside) else ([], .notFound)
  | i, entry :: entries =>
    if i < messageCapacity then
      if entry = some arena then ([i], .found i)
      else
        let r := searchArena messageCapacity arena (i + 1) entries
        (i :: r.1, r.2)
    else ([], .notFound)

def ArenaSegment.search [DecidableEq A] (seg : ArenaSegment A) (arena : A) : List Nat × SearchEnd :=
  searchArena seg.messageCapacity.toNat arena 0 seg.arenas

/-! ## `ProtobufArenaManager` -/

structure ArenaManager (A : Type) where
  shm : UInt64 → Option ArenaShm
  segments : UInt64 → Option (ArenaSegment A)

/-- What happens in `EnableSegment`: what is in the memory of the new `ArenaSegment`, and the system
calls of the two attempts. -/
structure EnableEnv where
  wild : Bool
  address : UInt64
  capacity : UInt64
  first : OpenEnv
  second : OpenEnv

/-- What a message is made with: the attempts for a block, the address of the new arena, and that of
the message in it. -/
structure MakeEnv (A : Type) where
  attempts : List Bool
  arena : A
  message : UInt64

namespace ArenaManager

def init : ArenaManager A := ⟨fun _ => none, fun _ => none⟩

variable (s : ArenaManager A) (ch : UInt64) (seg : ArenaSegment A)

def setSegment : ArenaManager A :=
  { s with segments := update s.segments ch (some seg) }

def setShm (m : ArenaShm) : ArenaManager A :=
  { s with shm := update s.shm ch (some m) }

def enableSegment (conf : ArenaChannelConf) (s : ArenaManager A) (ch : UInt64) (env : EnableEnv) :
    ArenaManager A :=
  match s.segments ch with
  | some _ => s
  | none =>
    if conf.enabled then
      let seg : ArenaSegment A :=
        ⟨if env.wild then .wild else .null, env.address, [], [], env.capacity⟩
      let (m, seg) := seg.init env.first env.second conf.maxMsgSize conf.maxPoolSize (s.shm ch)
      { s with shm := update s.shm ch m }.setSegment ch seg
    else s

def acquireBlockToWrite (attempts : List Bool) : Option (Option Nat × ArenaManager A) :=
  match seg.state with
  | .null => some (none, s)
  | .wild => none
  | .shm => do
    let m ← s.shm ch
    let (index, m) ← m.getNextWritableBlockIndex attempts
    return (some index, s.setShm ch m)

def releaseWrittenBlock (s : ArenaManager A) (ch : UInt64) (seg : ArenaSegment A)
    (index : UInt64) : Option (ArenaManager A) :=
  match seg.state with
  | .null => some s
  | .wild => none
  | .shm => do
    let m ← s.shm ch
    return s.setShm ch (m.releaseWrittenBlock index)

def makeArena (index : Nat) (arena : A) : Option (ArenaManager A) :=
  if index < seg.arenaBlockAddress.length ∧ index < seg.arenas.length then
    some (s.setSegment ch { seg with arenas := seg.arenas.set index (some arena) })
  else none

def acquireArenaMessage (env : MakeEnv A) : Option (ArenaManager A) :=
  match s.segments ch with
  | none => some s
  | some seg => do
    let (index, s) ← s.acquireBlockToWrite ch seg env.attempts
    match index with
    | none => return s
    | some index => s.makeArena ch seg index env.arena

variable (x : ExtendedStruct)

def setCopy (seg : ArenaSegment A) (env : MakeEnv A) :
    Option (Option UInt64 × ExtendedStruct × ArenaManager A) := do
  let x := x.resetMessageRelatedBlocks
  let (index, s) ← s.acquireBlockToWrite x.channelId seg env.attempts
  match index with
  | none => return (none, x, s)
  | some index =>
    let x := x.addMessageRelatedBlock (UInt64.ofNat index)
    let s ← s.makeArena x.channelId seg index env.arena
    let x := { x with addressOffset := env.message - seg.shmAddress }
    let s ← s.releaseWrittenBlock x.channelId seg (UInt64.ofNat index)
    return (some env.message, x, s)

def setFound (seg : ArenaSegment A) (message : UInt64) (index : Nat) : Option (Option UInt64 × ExtendedStruct × ArenaManager A) :=
  -- `int block_index`
  let blockIndex := Int32.ofNat index
  if blockIndex = -1 then some (none, x, s)
  else do
    let index := blockIndex.toInt64.toUInt64
    let x := (x.resetMessageRelatedBlocks).addMessageRelatedBlock index
    let x := { x with addressOffset := message - seg.shmAddress }
    let s ← s.releaseWrittenBlock x.channelId seg index
    return (some message, x, s)

variable [DecidableEq A]

def setMessage (message : ArenaInput A) (env : MakeEnv A) : Option (Option UInt64 × ExtendedStruct × ArenaManager A) :=
  match s.segments x.channelId with
  | none => some (none, x, s)
  | some seg =>
    match message.arena with
    | none => s.setCopy x seg env
    | some arena =>
      match (seg.search arena).2 with
      | .found index => s.setFound x seg message.address index
      | .notFound => some (none, x, s)
      | .outside => none

end ArenaManager

inductive ManagerEvent (A : Type) where
  | enableSegment (ch : UInt64) (env : EnableEnv)
  | acquireArenaMessage (ch : UInt64) (env : MakeEnv A)
  | setMessage (x : ExtendedStruct) (message : ArenaInput A) (env : MakeEnv A)
  | others (ch : UInt64) (m : ArenaShm)

namespace ArenaManager

variable [DecidableEq A]

def step (conf : UInt64 → ArenaChannelConf) (s : ArenaManager A) :
    ManagerEvent A → Option (ArenaManager A)
  | .enableSegment ch env => some (s.enableSegment (conf ch) ch env)
  | .acquireArenaMessage ch env => s.acquireArenaMessage ch env
  | .setMessage x message env => (s.setMessage x message env).map fun r => r.2.2
  | .others ch m => some (s.setShm ch m)

/-! ## What is to hold -/

/-- **The search stays in the table**, and a message in an arena that the table does not have
changes nothing. -/
def SearchesInside (s : ArenaManager A) : ManagerEvent A → Prop
  | .setMessage x message env => ∀ arena, message.arena = some arena →
      (∀ seg, s.segments x.channelId = some seg →
        ∀ i ∈ (seg.search arena).1, i < seg.arenas.length) ∧
      ((∀ seg, s.segments x.channelId = some seg → some arena ∉ seg.arenas) →
        s.setMessage x message env = some (none, x, s))
  | _ => True

/-- The message is in an arena of the table, or the table is not smaller than the bound: in a
segment that was mapped there are as many blocks as the largest message has bytes, and in one that
was not the bound is 0. -/
def Bounded (conf : UInt64 → ArenaChannelConf) (s : ArenaManager A) : ManagerEvent A → Prop
  | .setMessage x message _ => ∀ arena, message.arena = some arena →
      ∀ seg, s.segments x.channelId = some seg → some arena ∈ seg.arenas ∨
        if seg.state = .shm then (conf x.channelId).maxMsgSize ≤ (conf x.channelId).maxPoolSize
        else seg.messageCapacity = 0
  | _ => True

end ArenaManager

end Shm
