import Mathlib.Algebra.Group.Nat.Defs
import Mathlib.Data.List.Basic

namespace Ashe.Logging

inductive LoggingSeverity
  | info
  | error
  | fatal
  deriving DecidableEq

def LoggingSeverity.rank : LoggingSeverity → Nat
  | .info => 0
  | .error => 1
  | .fatal => 2

structure LoggingDestination where
  toFile : Bool
  toStdout : Bool
  deriving DecidableEq

structure LoggingSettings where
  destination : LoggingDestination
  minLogLevel : LoggingSeverity
  logDir : String
  maxLogFileSize : Nat
  maxLogFileAge : Nat

/-- A file that gLogFile was opened for, with gMaxLogFileSize at that time, its last write
time on the file clock, in nanoseconds, and whether it was removed since. -/
structure LogFile where
  dir : String
  number : Int
  limit : Nat
  content : List UInt8
  time : Int
  removed : Bool
  deriving DecidableEq

/-- A file in some directory that is not of this process. -/
structure OtherFile where
  dir : String
  time : Int
  deriving DecidableEq

/-- GLogFile: closed, open and good, or with failbit or badbit. -/
inductive Stream
  | closed
  | good
  | failed
  deriving DecidableEq

/-- A message that ~LogMessage has dealt with under the lock: what came to which file. -/
structure Entry where
  message : List UInt8
  file : Option Nat
  written : List UInt8
  deriving DecidableEq

/-- The globals of the module, the files, the destructors that are on their way to
gLogFileLock, and what has happened. -/
structure State where
  destination : LoggingDestination
  minLogLevel : LoggingSeverity
  dir : String
  maxLogFileSize : Nat
  maxLogFileAge : Nat
  number : Int
  stream : Stream
  files : List LogFile
  others : List OtherFile
  pending : List (List UInt8)
  accepted : List (List UInt8)
  stderr : List (List UInt8)
  history : List Entry

/-- As the globals are initialised, where LOG_DEFAULT is the destination. -/
def initial (logDefault : LoggingDestination) : State :=
  ⟨logDefault, .error, "", 2 * 1024 * 1024, 14, -1, .closed, [], [], [], [], [], []⟩

/-- What the file system answers while a log file is opened. -/
structure Disk where
  tempDirectory : Option String
  found : Option Bool
  creates : Bool
  opens : Bool
  lastWriteTime : Option Int

/-- Numbers of the file clock and of hours have 64 bits. Those out of range wrap around. -/
def wrap (n : Int) : Int := n.bmod (2 ^ 64)

def nanosecondsPerHour : Int := 60 * 60 * 1000000000

def removeOldFiles (s : State) (dir : String) (current : Int) (maxFileAge : Nat) : State :=
  let hours := wrap (24 * maxFileAge)
  let time := wrap (current - wrap (hours * nanosecondsPerHour))
  { s with
    files := s.files.map fun f =>
      if f.dir = dir ∧ f.time < time then { f with removed := true } else f
    others := s.others.filter fun f => !(f.dir = dir ∧ f.time < time) }

def fileDir (s : State) (disk : Disk) : Option String :=
  (if s.dir = "" then disk.tempDirectory else some s.dir).bind fun dir =>
    if dir = "" then none else match disk.found with
    | none => none
    | some found => if found || disk.creates then some dir else none

/-- The next number of a log file. The number is an int. -/
def nextNumber (n : Int) : Int := (n + 1).bmod (2 ^ 32)

/-- The name of the file has its number and the time, so that none is opened twice. -/
def initLoggingUnlocked (s : State) (disk : Disk) (now : Int) : State × Bool :=
  let s := { s with stream := .closed }
  if !s.destination.toFile then (s, true)
  else
    let s := { s with number := nextNumber s.number }
    match fileDir s disk with
    | none => (s, false)
    | some dir =>
        if !disk.opens then (s, false)
        else
          let file := ⟨dir, s.number, s.maxLogFileSize, [], disk.lastWriteTime.getD now, false⟩
          let s := { s with stream := .good, files := s.files ++ [file] }
          match disk.lastWriteTime with
          | some time =>
              if s.maxLogFileAge ≠ 0 then (removeOldFiles s dir time s.maxLogFileAge, true)
              else (s, true)
          | none => (s, true)

def initLogging (s : State) (settings : LoggingSettings) (disk : Disk) (now : Int) :
    State × Bool :=
  let s := { s with
    destination := settings.destination
    minLogLevel := settings.minLogLevel
    dir := settings.logDir
    maxLogFileSize := settings.maxLogFileSize
    maxLogFileAge := settings.maxLogFileAge }
  initLoggingUnlocked s disk now

def shouldCreateLogMessage (s : State) (severity : LoggingSeverity) : Bool :=
  if severity.rank < s.minLogLevel.rank then false
  else (s.destination.toFile || s.destination.toStdout) || 1 ≤ severity.rank

/-- A statement LOG(severity), up to the lock in ~LogMessage. -/
def log (s : State) (severity : LoggingSeverity) (message : List UInt8) : State :=
  if !shouldCreateLogMessage s severity then s
  else
    let s :=
      if s.destination.toStdout || 1 ≤ severity.rank then { s with stderr := s.stderr ++ [message] }
      else s
    if s.destination.toFile then
      { s with pending := s.pending ++ [message], accepted := s.accepted ++ [message] }
    else s

/-- The position in gLogFile, which is -1 where it is not good. -/
def tellp (s : State) : Option Nat :=
  match s.stream with
  | .good => s.files.getLast?.map fun f => f.content.length
  | _ => none

/-- The size is compared as size_t, for which -1 is the greatest number. -/
def isFull (s : State) : Bool :=
  match tellp s with
  | none => true
  | some position => s.maxLogFileSize ≤ position

def appendLast (files : List LogFile) (bytes : List UInt8) (now : Int) : List LogFile :=
  match files.getLast? with
  | none => files
  | some f => files.dropLast ++ [{ f with content := f.content ++ bytes, time := now }]

def write (s : State) (message : List UInt8) (room : Nat) (now : Int) : State :=
  match s.stream with
  | .good =>
      let written := message.take room
      { s with
        files := appendLast s.files written now
        stream := if room < message.length then .failed else .good
        history := s.history ++ [⟨message, some (s.files.length - 1), written⟩] }
  | _ => { s with history := s.history ++ [⟨message, none, []⟩] }

def writeLogFile (s : State) (message : List UInt8) (disk : Disk) (room : Nat) (now : Int) :
    State :=
  let s := if isFull s then (initLoggingUnlocked s disk now).1 else s
  write s message room now

inductive Label
  | initLogging (settings : LoggingSettings) (disk : Disk) (now : Int)
  | log (severity : LoggingSeverity) (message : List UInt8)
  | write (i : Nat) (disk : Disk) (room : Nat) (now : Int)
  | shutdown
  | other (file : OtherFile)

/-- Steps at lock granularity. Any number of threads log, call initLogging and call
shutdownLogging, whose own messages are steps like any other. -/
def step (s : State) : Label → Option State
  | .initLogging settings disk now => some (initLogging s settings disk now).1
  | .log severity message => some (log s severity message)
  | .write i disk room now => match s.pending[i]? with
    | none => none
    | some message =>
        let s := { s with pending := s.pending.eraseIdx i }
        some (writeLogFile s message disk room now)
  | .shutdown => some { s with stream := .closed }
  | .other file => some { s with others := s.others ++ [file] }

end Ashe.Logging
