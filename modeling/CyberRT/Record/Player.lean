import CyberRT.Lib.Run
import CyberRT.Record.Reader

/-!
# Playing records (`tools/cyber_recorder/player`)

A producer takes the messages of a viewer and puts a task into a buffer for each one that has a
writer; a consumer plays the first task of the buffer and then removes the first task.
-/

namespace Record

def RecordViewer.beginIterator (fuel : Nat) (v : RecordViewer) :
    Option (Option SingleMessage × RecordViewer) :=
  let v := v.reset
  if v.isValid then v.update fuel else some (none, v)

/-! ## The buffer -/

structure PlayTask where
  id : Nat
  message : SingleMessage
  msgRealTimeNs : UInt64
  msgPlayTimeNs : UInt64
  deriving DecidableEq

namespace PlayTaskBuffer

def push (task : PlayTask) : List PlayTask → List PlayTask
  | [] => [task]
  | task' :: tasks =>
    if task.msgPlayTimeNs < task'.msgPlayTimeNs then task :: task' :: tasks
    else task' :: push task tasks

def front (tasks : List PlayTask) : Option PlayTask := tasks.head?

def popFront (tasks : List PlayTask) : List PlayTask := tasks.tail

end PlayTaskBuffer

/-! ## The threads -/

structure PlayTaskProducer where
  recordings : List Recording
  beginTimeNs : UInt64
  endTimeNs : UInt64
  channelsToPlay : List String
  isLoopPlayback : Bool
  writers : List String
  preloadFillBufferMode : Bool
  frequencySize : Nat
  fuel : Nat

inductive ProducerPc where
  | top
  | next (itr : Option SingleMessage)
  | wait (m : SingleMessage)
  | fill (itr : Option SingleMessage)
  | push (m : SingleMessage)
  | advance
  | stopped
  deriving DecidableEq

inductive ConsumerPc where
  | front
  | play (task : PlayTask)
  | popFront (task : PlayTask)

structure Player where
  viewer : RecordViewer
  currItr : Option SingleMessage
  taskBuffer : List PlayTask
  producer : ProducerPc
  loopNum : UInt32
  consumer : ConsumerPc
  pushed : List PlayTask
  played : List PlayTask

namespace PlayTaskProducer

def kMinTaskBufferSize : Nat := 500

variable (p : PlayTaskProducer)

def viewer : RecordViewer :=
  Record.viewer p.recordings p.beginTimeNs p.endTimeNs p.channelsToPlay

def preloadSize : Nat :=
  if p.preloadFillBufferMode then kMinTaskBufferSize * 2 else p.frequencySize

def loopTimeNs : UInt64 := p.endTimeNs - p.beginTimeNs

def plusTimeNs (loopNum : UInt32) : UInt64 :=
  if p.preloadFillBufferMode then 0 else loopNum.toUInt64 * p.loopTimeNs

def pushMessage (s : Player) (m : SingleMessage) : Player :=
  if m.channelName ∈ p.writers then
    let task := ⟨s.pushed.length, m, m.time, m.time + p.plusTimeNs s.loopNum⟩
    { s with taskBuffer := PlayTaskBuffer.push task s.taskBuffer, pushed := s.pushed ++ [task] }
  else s

def init : Player := ⟨p.viewer, none, [], .top, 0, .front, [], []⟩

def fillLoop : Nat → Player → Option SingleMessage → Option Player
  | 0, _, _ => none
  | _ + 1, s, none => some s
  | fuel + 1, s, some m =>
    if p.preloadSize < s.taskBuffer.length then some { s with currItr := some m }
    else
      let s := p.pushMessage s m
      (s.viewer.update p.fuel).bind fun (itr, v) => fillLoop fuel { s with viewer := v } itr

def fillPlayTaskBuffer : Option Player :=
  (p.viewer.beginIterator p.fuel).bind fun (itr, v) =>
    p.fillLoop (p.fuel + 1) { p.init with viewer := v, currItr := itr } itr

/-- `ThreadFunc` and `ThreadFuncUnderPreloadMode`. -/
def produce (s : Player) : Player :=
  match s.producer with
  | .top =>
    if p.preloadFillBufferMode then { s with producer := .next s.currItr }
    else
      match s.viewer.beginIterator p.fuel with
      | none => s
      | some (itr, v) => { s with viewer := v, producer := .next itr }
  | .next none =>
    if p.preloadFillBufferMode || !p.isLoopPlayback then { s with producer := .stopped }
    else { s with loopNum := s.loopNum + 1, producer := .top }
  | .next (some m) => { s with producer := .wait m }
  | .wait m =>
    if p.preloadSize < s.taskBuffer.length then s else { s with producer := .fill (some m) }
  | .fill none => { s with producer := .next none }
  | .fill (some m) =>
    if p.preloadSize < s.taskBuffer.length then { s with producer := .next (some m) }
    else { s with producer := .push m }
  | .push m => { p.pushMessage s m with producer := .advance }
  | .advance =>
    match s.viewer.update p.fuel with
    | none => s
    | some (itr, v) => { s with viewer := v, producer := .fill itr }
  | .stopped => s

end PlayTaskProducer

def Player.consume (s : Player) : Player :=
  match s.consumer with
  | .front =>
    match PlayTaskBuffer.front s.taskBuffer with
    | none => s
    | some task => { s with consumer := .play task }
  | .play task => { s with played := s.played ++ [task], consumer := .popFront task }
  | .popFront _ => { s with taskBuffer := PlayTaskBuffer.popFront s.taskBuffer, consumer := .front }

inductive PlayEvent where
  | produce
  | consume
  deriving DecidableEq

namespace PlayTaskProducer

variable (p : PlayTaskProducer)

def step (s : Player) : PlayEvent → Player
  | .produce => p.produce s
  | .consume => s.consume

def run (s : Player) (events : List PlayEvent) : Player := events.foldl p.step s

end PlayTaskProducer

/-! ## What is to hold -/

def RecordViewer.Next (v : RecordViewer) (itr : Option SingleMessage) (t : RecordViewer) : Prop :=
  ∃ fuel, v.update fuel = some (itr, t)

def RecordViewer.Iterates (v : RecordViewer) (l : List SingleMessage) (itr : Option SingleMessage) :
    Prop :=
  ∃ fuel start t, v.beginIterator fuel = some start ∧ Lib.Passes RecordViewer.Next start l (itr, t)

namespace PlayTaskProducer

variable (p : PlayTaskProducer)

def playable (l : List SingleMessage) : List SingleMessage :=
  l.filter fun m => m.channelName ∈ p.writers

/-- The tasks pushed so far are those for the first messages of the viewer, up to where the producer
stands or with that message, and for all of them when the producer has stopped. -/
def PushedInOrder (s : Player) : Prop :=
  ∃ l itr, p.viewer.Iterates l itr ∧ (s.producer = .stopped → itr = none) ∧
    (s.pushed.map PlayTask.message = p.playable l ∨
      ∃ m, itr = some m ∧ s.pushed.map PlayTask.message = p.playable (l ++ [m]))

/-- **Each message is pushed once**, by `FillPlayTaskBuffer` and the producer's thread together. If
the viewer comes to an end, then so does `FillPlayTaskBuffer`, and so can the thread from where it
is. -/
structure PushesOnce : Prop where
  returns : ∀ ms, p.viewer.messages p.fuel = some ms → ∃ s, p.fillPlayTaskBuffer = some s
  inOrder : ∀ s, p.fillPlayTaskBuffer = some s → ∀ events, p.PushedInOrder (p.run s events)
  completes : ∀ ms, p.viewer.messages p.fuel = some ms → ∀ s, p.fillPlayTaskBuffer = some s →
    ∀ events, ∃ more, (p.run s (events ++ more)).producer = .stopped

def LeavesOver : Prop :=
  ∀ ms m, p.viewer.messages p.fuel = some ms → ms.head? = some m → m.channelName ∈ p.writers →
    p.preloadSize < (p.playable ms.dropLast).length

end PlayTaskProducer

/-- **The tasks are played in order**: those that were pushed are those that were played and those
in the buffer, in the order of their play times, and the task that `PopFront` removes is the one
that was played last. -/
def Player.InOrder (s : Player) : Prop :=
  s.pushed.Pairwise (fun task task' => task.msgPlayTimeNs ≤ task'.msgPlayTimeNs) ∧
    match s.consumer with
    | .front => s.pushed = s.played ++ s.taskBuffer
    | .play task => s.pushed = s.played ++ s.taskBuffer ∧ s.taskBuffer.head? = some task
    | .popFront task => s.pushed = s.played ++ s.taskBuffer.tail ∧ s.taskBuffer.head? = some task ∧
        s.played.getLast? = some task

/-- The numbers are large enough: for the play time of a message that is to be pushed, and for the
number of the next loop. -/
def PlayTaskProducer.NoWrap (p : PlayTaskProducer) (s : Player) (event : PlayEvent) : Prop :=
  event = .produce →
    match s.producer with
    | .push m => m.channelName ∈ p.writers →
        m.time.toNat + s.loopNum.toNat * p.loopTimeNs.toNat < 2 ^ 64
    | .next none => s.loopNum.toNat + 1 < 2 ^ 32
    | _ => True

instance (s : Player) : Decidable s.InOrder := by
  unfold Player.InOrder
  split <;> infer_instance

instance (p : PlayTaskProducer) (s : Player) (event : PlayEvent) :
    Decidable (p.NoWrap s event) := by
  unfold PlayTaskProducer.NoWrap
  split <;> infer_instance

/-!
## Starting and stopping a producer (`tools/cyber_recorder/player/play_task_producer.cc`)

`is_stopped_` tells the thread to stop, and the thread sets it when it comes to the end; `Stop`
joins the thread only if it finds the flag set.
-/

/-- Where the producing thread is: at its check of `record_viewer_ptr_`, before it loads the flag in
one of its loops, before it pushes a task, behind its loops, or at its end. -/
inductive ProducePc where
  | enter
  | loop
  | push
  | finish
  | ended
  deriving DecidableEq

/-- What the thread finds: no viewer that fits the mode, a message to push, nothing yet, or the end
of the messages. -/
inductive ThreadChoice where
  | noViewer
  | message
  | nothing
  | over
  deriving DecidableEq

/-- `quiet`: a `Stop` has returned, and no `Start` has begun since. A thread that is replaced before
it is joined ends the process (`terminated`). -/
structure ProducerControl where
  isInitialized : Bool
  isStopped : Bool
  produceTh : Option ProducePc
  joining : Bool
  quiet : Bool
  pushed : Nat
  terminated : Bool

inductive ControlEvent where
  | init
  | start
  | setStopped
  | stop
  | join
  | thread (choice : ThreadChoice)

namespace ProducerControl

def new : ProducerControl := ⟨false, true, none, false, false, 0, false⟩

def start (s : ProducerControl) : ProducerControl :=
  if !s.isInitialized then s
  else if !s.isStopped then s
  else
    let s := { s with isStopped := false }
    match s.produceTh with
    | none => { s with produceTh := some .enter, quiet := false }
    | some _ => { s with terminated := true }

def stop (s : ProducerControl) : ProducerControl :=
  if !s.isStopped then { s with isStopped := true, quiet := true }
  else
    match s.produceTh with
    | none => { s with quiet := true }
    | some _ => { s with joining := true }

def join (s : ProducerControl) : ProducerControl :=
  if s.produceTh = some .ended then { s with produceTh := none, joining := false, quiet := true }
  else s

/-- A step of `ThreadFunc` or `ThreadFuncUnderPreloadMode`. -/
def threadStep (s : ProducerControl) (choice : ThreadChoice) : ProducerControl :=
  match s.produceTh with
  | some .enter =>
    -- a return that leaves the flag as it is
    if choice = .noViewer then { s with produceTh := some .ended }
    else { s with produceTh := some .loop }
  | some .loop =>
    if s.isStopped then { s with produceTh := some .finish }
    else
      match choice with
      | .message => { s with produceTh := some .push }
      | .over => { s with produceTh := some .finish }
      | _ => s
  | some .push => { s with produceTh := some .loop, pushed := s.pushed + 1 }
  | some .finish => { s with produceTh := some .ended, isStopped := true }
  | _ => s

def step (s : ProducerControl) : ControlEvent → ProducerControl
  | .thread choice => if s.terminated then s else s.threadStep choice
  | .join => if s.terminated || !s.joining then s else s.join
  | .init => if s.terminated || s.joining then s else { s with isInitialized := true }
  | .start => if s.terminated || s.joining then s else s.start
  | .setStopped => if s.terminated || s.joining then s else { s with isStopped := true }
  | .stop => if s.terminated || s.joining then s else s.stop

end ProducerControl

/-!
## The number of messages to play (`PlayTaskProducer::ReadRecordInfo`)

`total_msg_num_` is put together file by file from the numbers that the headers and the indexes
give.
-/

/-- What a reader tells of its file: the channels with the numbers of their messages, and the number
in the header. -/
structure RecordInfo where
  isValid : Bool
  isComplete : Bool
  channels : List (String × UInt64)
  messageNumber : UInt64

structure PlayParam where
  isPlayAllChannels : Bool
  channelsToPlay : List String
  blackChannels : List String

namespace PlayParam

variable (p : PlayParam)

def readChannel (totalMsgNum : UInt64) (c : String × UInt64) : UInt64 :=
  if c.1 ∈ p.blackChannels then totalMsgNum - c.2
  else if !p.isPlayAllChannels && decide (c.1 ∈ p.channelsToPlay) then totalMsgNum + c.2
  else totalMsgNum

def readFile (totalMsgNum : UInt64) (f : RecordInfo) : UInt64 :=
  if !f.isValid then totalMsgNum
  else if !f.isComplete then totalMsgNum
  else
    let totalMsgNum := f.channels.foldl p.readChannel totalMsgNum
    if p.isPlayAllChannels then totalMsgNum + f.messageNumber else totalMsgNum

def readRecordInfo (files : List RecordInfo) : UInt64 := files.foldl p.readFile 0

end PlayParam

end Record
