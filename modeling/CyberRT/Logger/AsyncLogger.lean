import CyberRT.Common.File
import CyberRT.Lib.Locks

/-!
# `AsyncLogger` (`logger/async_logger.cc`, `logger/logger_util.h`)

`FlushBuffer` takes the messages of a buffer one after the other, cuts the name of a module out of
each and hands it to the log file of that module, which is made when its module comes up first.
-/

namespace Logger

open Common (find)

abbrev Text := List Char

structure Msg where
  ts : Int
  message : Text
  level : Int
  deriving DecidableEq

/-- The first part of `FindModuleName`: the brackets are cut out of the message, and what is in them
is the module's name. -/
def cutBrackets (message moduleName : Text) : Text × Text :=
  match find message '[' 0 with
  | none => (message, moduleName)
  | some lpos =>
    match find message ']' lpos with
    | none => (message, moduleName)
    | some rpos =>
      (message.take lpos ++ message.drop (lpos + (rpos - lpos + 1)),
        (message.drop (lpos + 1)).take (rpos - lpos - 1))

def findModuleName (processGroup message moduleName : Text) : Text × Text :=
  let cut := cutBrackets message moduleName
  (cut.1, if cut.2.isEmpty then processGroup else cut.2)

structure LogFile where
  baseFilename : Text
  symlinkBasename : Text
  deriving DecidableEq

def logFileOf (logDir moduleName : Text) : LogFile :=
  let fileName := moduleName ++ ".log.INFO.".toList
  ⟨if !logDir.isEmpty then logDir ++ '/' :: fileName else fileName, moduleName⟩

structure ModuleLoggerMap (logDir : Text) where
  logger : Text → Option LogFile
  own : ∀ name file, logger name = some file → file = logFileOf logDir name

namespace ModuleLoggerMap

variable {logDir : Text}

def empty : ModuleLoggerMap logDir := ⟨fun _ => none, nofun⟩

def provide (loggers : ModuleLoggerMap logDir) (name : Text) : ModuleLoggerMap logDir × LogFile :=
  match loggers.logger name with
  | some file => (loggers, file)
  | none =>
    let file := logFileOf logDir name
    (⟨Function.update loggers.logger name (some file), fun n f hf => by
      by_cases hn : n = name
      · subst hn
        rw [Function.update_self] at hf
        exact (Option.some.inj hf).symm
      · rw [Function.update_of_ne hn] at hf
        exact loggers.own n f hf⟩, file)

end ModuleLoggerMap

structure Entry where
  forceFlush : Bool
  timestamp : Int
  message : Text
  deriving DecidableEq

structure Flushing (logDir : Text) where
  moduleName : Text
  loggers : ModuleLoggerMap logDir
  writes : List (LogFile × Entry)

variable {logDir : Text}

def Flushing.pass (processGroup : Text) (s : Flushing logDir) (msg : Msg) : Flushing logDir :=
  let found := findModuleName processGroup msg.message s.moduleName
  let provided := s.loggers.provide found.2
  { moduleName := found.2
    loggers := provided.1
    writes := s.writes ++ [(provided.2, ⟨decide (msg.level > 0), msg.ts, found.1⟩)] }

def flushBuffer (processGroup : Text) (loggers : ModuleLoggerMap logDir) (buffer : List Msg) :
    Flushing logDir :=
  buffer.foldl (Flushing.pass processGroup) ⟨[], loggers, []⟩

/-!
## The threads of an `AsyncLogger` (`logger/async_logger.cc`)

Any number of threads call `Write`, which appends to the active buffer under a spin flag.
-/

open Function Lib

inductive LogLevel where
  | fatal
  | error
  | warning
  | info
  deriving DecidableEq

namespace LogLevel

def letter : LogLevel → Char
  | fatal => 'F'
  | error => 'E'
  | warning => 'W'
  | info => 'I'

def number : LogLevel → Int
  | fatal => 3
  | error => 2
  | warning => 1
  | info => 0

end LogLevel

structure Line where
  timestamp : Int
  level : LogLevel
  text : Text
  deriving DecidableEq

def Line.msg (line : Line) : Msg :=
  ⟨line.timestamp, line.level.letter :: line.text, line.level.number⟩

inductive LoggerState where
  | initted
  | running
  | stopped
  deriving DecidableEq

/-- Where a `Write` is: in no call; with `RUNNING` seen, before it has the flag; with the flag,
before the append; behind the append, before it clears the flag. -/
inductive WritePc where
  | idle
  | spinning (line : Line)
  | appending (line : Line)
  | clearing
  deriving DecidableEq

/-- Where `RunThread` is: before it looks at the state; before it has the flag; before the swap;
before it clears the flag; in `FlushBuffer`; returned. -/
inductive RunPc where
  | top
  | spinning
  | swapping
  | clearing
  | flushing
  | exited
  deriving DecidableEq

/-- Where `Stop` is: not called; before the join has returned; in `FlushBuffer`; before its checks;
returned. -/
inductive StopPc where
  | notCalled
  | joining
  | draining
  | checking
  | done
  deriving DecidableEq

inductive LoggerThread (ι : Type*) where
  | writer (i : ι)
  | runner
  deriving DecidableEq

structure LoggerSys (ι : Type*) where
  state : LoggerState
  flag : Option (LoggerThread ι)
  activeBuf : List Msg
  flushingBuf : List Msg
  writers : ι → WritePc
  runner : RunPc
  stopper : StopPc
  aborted : Bool
  handed : List Msg
  observed : List Msg
  appended : List Msg

inductive LoggerEvent (ι : Type*) where
  | write (i : ι) (line : Line)
  | writer (i : ι)
  | runner
  | stop
  | stopper
  deriving DecidableEq

namespace LoggerSys

variable {ι : Type*} [DecidableEq ι]

omit [DecidableEq ι] in
def init : LoggerSys ι :=
  ⟨.running, none, [], [], fun _ => .idle, .top, .notCalled, false, [], [], []⟩

variable (s : LoggerSys ι)

def write (i : ι) (line : Line) : LoggerSys ι :=
  if s.writers i = .idle ∧ s.state = .running then
    { s with
      writers := update s.writers i (.spinning line)
      observed := s.observed ++ [line.msg] }
  else s

def writerStep (i : ι) : LoggerSys ι :=
  match s.writers i with
  | .idle => s
  | .spinning line =>
    if s.flag.isSome then s
    else
      { s with
        flag := some (.writer i)
        writers := update s.writers i (.appending line) }
  | .appending line =>
    { s with
      activeBuf := s.activeBuf ++ [line.msg]
      appended := s.appended ++ [line.msg]
      writers := update s.writers i .clearing }
  | .clearing => { s with flag := none, writers := update s.writers i .idle }

omit [DecidableEq ι] in
def runnerStep : LoggerSys ι :=
  match s.runner with
  | .top => { s with runner := if s.state = .running then .spinning else .exited }
  | .spinning => if s.flag.isSome then s else { s with flag := some .runner, runner := .swapping }
  | .swapping =>
    { s with activeBuf := s.flushingBuf, flushingBuf := s.activeBuf, runner := .clearing }
  | .clearing => { s with flag := none, runner := .flushing }
  | .flushing =>
    match s.flushingBuf with
    | [] => { s with runner := .top }
    | msg :: rest => { s with flushingBuf := rest, handed := s.handed ++ [msg] }
  | .exited => s

omit [DecidableEq ι] in
def stop : LoggerSys ι :=
  match s.stopper with
  | .notCalled => { s with state := .stopped, stopper := .joining }
  | _ => s

omit [DecidableEq ι] in
def stopperStep : LoggerSys ι :=
  match s.stopper with
  | .notCalled => s
  | .joining => if s.runner = .exited then { s with stopper := .draining } else s
  | .draining =>
    match s.activeBuf with
    | [] => { s with stopper := .checking }
    | msg :: rest => { s with activeBuf := rest, handed := s.handed ++ [msg] }
  | .checking =>
    if s.activeBuf.isEmpty && s.flushingBuf.isEmpty then { s with stopper := .done }
    else { s with aborted := true }
  | .done => s

def step (ev : LoggerEvent ι) : LoggerSys ι :=
  if s.aborted then s
  else
    match ev with
    | .write i line => s.write i line
    | .writer i => s.writerStep i
    | .runner => s.runnerStep
    | .stop => s.stop
    | .stopper => s.stopperStep

end LoggerSys

/-! ## The spin flag -/

def logLevelMap : Char → Option Int
  | 'F' => some 3
  | 'E' => some 2
  | 'W' => some 1
  | 'I' => some 0
  | _ => none

/-- Where a thread is: in no critical section; before it has the flag; with the flag, before its
work there; before it clears the flag. The work of a `Write` is to append its message, which is not
empty (`head` and the rest), that of `RunThread` to swap the buffers (`none`). -/
inductive FlagPc where
  | out
  | spinning (message : Option (Char × Text))
  | inside (message : Option (Char × Text))
  | clearing
  deriving DecidableEq

def FlagPc.holds : FlagPc → Bool
  | .inside _ => true
  | .clearing => true
  | _ => false

structure FlagSystem (ι : Type*) where
  flag : Option ι
  pc : ι → FlagPc
  activeBuf : List (Text × Int)
  flushingBuf : List (Text × Int)

inductive FlagEvent (ι : Type*) where
  | call (i : ι) (message : Option (Char × Text))
  | step (i : ι)

namespace FlagSystem

variable {ι : Type*} [DecidableEq ι]

def init : FlagSystem ι := ⟨none, fun _ => .out, [], []⟩

def step (s : FlagSystem ι) : FlagEvent ι → FlagSystem ι
  | .call i message =>
    if s.pc i = .out then { s with pc := update s.pc i (.spinning message) } else s
  | .step i =>
    match s.pc i with
    | .out => s
    | .spinning message =>
      if s.flag.isSome then s
      else { s with flag := some i, pc := update s.pc i (.inside message) }
    | .inside none =>
      { s with
        activeBuf := s.flushingBuf
        flushingBuf := s.activeBuf
        pc := update s.pc i .clearing }
    | .inside (some (c, text)) =>
      match logLevelMap c with
      | some level =>
        { s with activeBuf := s.activeBuf ++ [(c :: text, level)], pc := update s.pc i .clearing }
      -- the exception leaves `Write`
      | none => { s with pc := update s.pc i .out }
    | .clearing => { s with flag := none, pc := update s.pc i .out }

end FlagSystem

end Logger
