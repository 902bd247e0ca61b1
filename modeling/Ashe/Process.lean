import Mathlib.Logic.Function.Basic
import Ashe.Handles

namespace Ashe.Process

open Handles

inductive Stream
  | stdout
  | stderr
  deriving DecidableEq

/-- What the constructor is given: open_stdin, which of read_stdout and read_stderr are
not empty, and the buffer size. -/
structure Config where
  openStdin : Bool
  reads : Stream → Bool
  bufferSize : Nat

/-- A descriptor on the heap. Open writes the number once the child is there. -/
abbrev Descriptor := Option Nat

/-- An entry of pollfds. No descriptor stands for -1, and hungUp for POLLERR, POLLHUP or
POLLNVAL. -/
structure PollFd where
  stream : Stream
  fd : Option Nat
  readable : Bool
  hungUp : Bool
  deriving DecidableEq

/-- Where the reader thread is. In the loop over pollfds it has still to look at the entry
with the number. -/
inductive Reader
  | absent
  | starting
  | polling
  | scanning (i : Nat) (anyOpen : Bool)
  | finished
  deriving DecidableEq

/-- The child, with its status for waitpid. -/
inductive Child
  | running
  | exited (status : Nat)
  | reaped (status : Nat)
  deriving DecidableEq

/-- Where the thread is that waits for the child or destroys the object: after waitpid it
sets closed_, then it joins the reader. -/
inductive Client
  | idle
  | marking
  | joining (destroys : Bool)
  | destroyed
  deriving DecidableEq

/-- A pipe: all that was ever written to it, how much of it was read, and whether the
child or another process can still write. -/
structure Pipe where
  written : List UInt8
  taken : Nat
  writers : Bool
  deriving DecidableEq

/-- The object, its descriptors, the child, and what the object has told and delivered. -/
structure State where
  config : Config
  id : Int
  exitStatus : Int
  closed : Bool
  stdinFd : Option Descriptor
  fds : Stream → Option Descriptor
  reader : Reader
  pollfds : List PollFd
  client : Client
  table : Table Nat
  strayWrites : Nat
  child : Child
  pipes : Stream → Pipe
  delivered : Stream → List UInt8
  reported : List Int
  strayKills : Nat

/-- What pipe and fork return. -/
structure Answers where
  stdin : Option (Nat × Nat)
  output : Stream → Option (Nat × Nat)
  pid : Int

def unopened (c : Config) : State where
  config := c
  id := -1
  exitStatus := -1
  closed := true
  stdinFd := if c.openStdin then some none else none
  fds := fun x => if c.reads x then some none else none
  reader := .absent
  pollfds := []
  client := .idle
  table := ⟨[], 0⟩
  strayWrites := 0
  child := .running
  pipes := fun _ => ⟨[], 0, false⟩
  delivered := fun _ => []
  reported := []
  strayKills := 0

def makePipe (t : Table Nat) (wanted : Bool) (answer : Option (Nat × Nat)) :
    Option (Table Nat × Option (Nat × Nat)) :=
  if wanted then answer.map fun p => (t.gain [p.1, p.2], some p) else some (t, none)

def ends : Option (Nat × Nat) → List Nat
  | none => []
  | some p => [p.1, p.2]

def failed (c : Config) (t : Table Nat) (toClose : List Nat) : State :=
  { unopened c with table := t.closeAll toClose }

def forked (c : Config) (t : Table Nat) (stdinP stdoutP stderrP : Option (Nat × Nat))
    (pid : Int) : State :=
  let toClose := (stdinP.map Prod.fst).toList ++ (stdoutP.map Prod.snd).toList ++
    (stderrP.map Prod.snd).toList
  { unopened c with
    table := t.closeAll toClose
    stdinFd := stdinP.map fun p => some p.2
    fds := fun
      | .stdout => stdoutP.map fun p => some p.1
      | .stderr => stderrP.map fun p => some p.1
    closed := false
    id := pid
    pipes := fun _ => ⟨[], 0, true⟩ }

def openProcess (c : Config) (k : Answers) : State :=
  match makePipe ⟨[], 0⟩ c.openStdin k.stdin with
  | none => failed c ⟨[], 0⟩ []
  | some (t, stdinP) => match makePipe t (c.reads .stdout) (k.output .stdout) with
    | none => failed c t (ends stdinP)
    | some (t, stdoutP) => match makePipe t (c.reads .stderr) (k.output .stderr) with
      | none => failed c t (ends stdinP ++ ends stdoutP)
      | some (t, stderrP) =>
          if k.pid < 0 then failed c t (ends stdinP ++ ends stdoutP ++ ends stderrP)
          else forked c t stdinP stdoutP stderrP k.pid

def asyncRead (s : State) : State :=
  if s.id ≤ 0 ∨ s.fds .stdout = none ∧ s.fds .stderr = none then s
  else { s with reader := .starting }

def process (c : Config) (k : Answers) : State := asyncRead (openProcess c k)

def pollFd (s : State) (nonblocking : Stream → Bool) (x : Stream) : List PollFd :=
  match s.fds x with
  | none => []
  | some fd => [⟨x, if nonblocking x then fd else none, false, false⟩]

def startReader (s : State) (nonblocking : Stream → Bool) : State :=
  { s with
    pollfds := pollFd s nonblocking .stdout ++ pollFd s nonblocking .stderr
    table := ([Stream.stdout, .stderr].filterMap fun x => (s.fds x).join).foldl Table.touch s.table
    reader := .polling }

def Pipe.pending (p : Pipe) : List UInt8 := p.written.drop p.taken

def cleared (e : PollFd) : PollFd := { e with readable := false, hungUp := false }

/-- The revents that poll leaves in an entry. -/
def revents (s : State) (e : PollFd) : PollFd :=
  if e.fd.isSome then
    { e with
      readable := !(s.pipes e.stream).pending.isEmpty
      hungUp := !(s.pipes e.stream).writers }
  else cleared e

/-- How poll returns: with events, with EINTR, for which Linux clears the revents and other
systems may leave them, or with another error. -/
inductive Polled
  | events
  | interrupted (clears : Bool)
  | failed
  deriving DecidableEq

def watch (s : State) : State :=
  { s with table := (s.pollfds.filterMap PollFd.fd).foldl Table.touch s.table }

def polled (s : State) : Polled → Option State
  | .events =>
      let pollfds := s.pollfds.map (revents s)
      if pollfds.any (fun e => e.readable || e.hungUp) then
        some { s with pollfds := pollfds, reader := .scanning 0 false }
      else none
  | .interrupted clears =>
      let pollfds := if clears then s.pollfds.map cleared else s.pollfds
      some { s with pollfds := pollfds, reader := .scanning 0 false }
  | .failed => some { s with reader := .finished }

def poll (s : State) (result : Polled) : Option State := polled (watch s) result

def State.setPipe (s : State) (x : Stream) (p : Pipe) : State :=
  { s with pipes := Function.update s.pipes x p }

def deliver (s : State) (x : Stream) : State :=
  let bytes := (s.pipes x).pending.take s.config.bufferSize
  { s.setPipe x { s.pipes x with taken := (s.pipes x).taken + bytes.length } with
    delivered := Function.update s.delivered x (s.delivered x ++ bytes) }

/-- The body of the loop over pollfds. Failed says whether a read fails for good. -/
def scanEntry (s : State) (i : Nat) (anyOpen : Bool) (e : PollFd) (failed : Bool) : State :=
  let dropped := { e with fd := none }
  match e.fd with
  | none => { s with reader := .scanning (i + 1) anyOpen }
  | some fd =>
      let s := if e.readable then { s with table := s.table.touch fd } else s
      if e.readable ∧ failed then
        { s with pollfds := s.pollfds.set i dropped, reader := .scanning (i + 1) anyOpen }
      else
        let s := if e.readable then deliver s e.stream else s
        if e.hungUp then
          { s with pollfds := s.pollfds.set i dropped, reader := .scanning (i + 1) anyOpen }
        else { s with reader := .scanning (i + 1) true }

def scan (s : State) (failed : Bool) : Option State :=
  match s.reader with
  | .scanning i anyOpen => match s.pollfds[i]? with
    | some e => some (scanEntry s i anyOpen e failed)
    | none => some { s with reader := if anyOpen then .polling else .finished }
  | _ => none

/-- Exit codes from 1 on come back as they are, and numbers of signals too. -/
def decodeStatus (status : Nat) : Int := if status ≥ 256 then (status >>> 8 : Nat) else status

def waited (s : State) : Option State :=
  match s.child with
  | .running => none
  | .exited status => some { s with
      child := .reaped status, exitStatus := decodeStatus status, client := .marking }
  | .reaped _ => some { s with reported := s.reported ++ [s.exitStatus] }

/-- GetExitStatus up to its lock. An interrupted waitpid is made again. -/
def getExitStatus (s : State) : Option State :=
  if s.client ≠ .idle then none
  else if s.id ≤ 0 then some { s with reported := s.reported ++ [-1] }
  else waited s

/-- TryGetExitStatus up to its lock. -/
def tryGetExitStatus (s : State) : Option State :=
  if s.client ≠ .idle then none
  else if s.id ≤ 0 ∨ s.child = .running then some s
  else waited s

/-- Close of a descriptor on the heap, whose number counts as stray where none was
written. -/
def closeHeap (s : State) : Option Descriptor → State
  | some (some fd) => if 0 < s.id then { s with table := s.table.close fd } else s
  | some none => if 0 < s.id then { s with table := ⟨s.table.opened, s.table.faults + 1⟩ } else s
  | none => s

def closeStdin (s : State) : State := { closeHeap s s.stdinFd with stdinFd := none }

def closeStream (x : Stream) (s : State) : State :=
  { closeHeap s (s.fds x) with fds := Function.update s.fds x none }

/-- The rest of close_fds, once the reader is joined. -/
def closeFds (s : State) : State := closeStream .stderr (closeStream .stdout (closeStdin s))

def clientNext (s : State) : Option State :=
  match s.client with
  | .idle | .destroyed => none
  | .marking => some { s with closed := true, client := .joining false }
  | .joining destroys =>
      if s.reader = .absent ∨ s.reader = .finished then
        let s := closeFds s
        some (if destroys then { s with client := .destroyed }
          else { s with client := .idle, reported := s.reported ++ [s.exitStatus] })
      else none

/-- Write to stdin, from any thread. -/
def write (s : State) : State :=
  match s.stdinFd with
  | some (some fd) => { s with table := s.table.touch fd }
  | some none => { s with strayWrites := s.strayWrites + 1 }
  | none => s

/-- Kill and killProcessTree, from any thread. A signal that goes out after the child was
reaped counts as stray. -/
def kill (s : State) : State :=
  match s.child with
  | .reaped _ => if 0 < s.id ∧ !s.closed then { s with strayKills := s.strayKills + 1 } else s
  | _ => s

inductive Label
  | startReader (nonblocking : Stream → Bool)
  | poll (result : Polled)
  | scan (failed : Bool)
  | childWrites (x : Stream) (bytes : List UInt8)
  | hangUp (x : Stream)
  | exit (status : Nat)
  | reapedElsewhere
  | getExitStatus
  | tryGetExitStatus
  | client
  | closeStdin
  | write
  | kill
  | destroy

/-- The steps of the reader thread, the child, the thread that waits for it, and others
that call write, closeStdin and kill. A pipe holds at most capacity bytes. -/
def step (capacity : Nat) (s : State) : Label → Option State
  | .startReader nonblocking =>
      if s.reader = .starting then some (startReader s nonblocking) else none
  | .poll result => if s.reader = .polling then poll s result else none
  | .scan failed => scan s failed
  | .childWrites x bytes =>
      if (s.pipes x).writers ∧ (s.pipes x).pending.length + bytes.length ≤ capacity then
        some (s.setPipe x { s.pipes x with written := (s.pipes x).written ++ bytes })
      else none
  | .hangUp x => some (s.setPipe x { s.pipes x with writers := false })
  | .exit status => if s.child = .running then some { s with child := .exited status } else none
  | .reapedElsewhere => match s.child with
    | .exited status => some { s with child := .reaped status }
    | _ => none
  | .getExitStatus => getExitStatus s
  | .tryGetExitStatus => tryGetExitStatus s
  | .client => clientNext s
  | .closeStdin => if s.client ≠ .destroyed then some (closeStdin s) else none
  | .write => if s.client ≠ .destroyed ∧ s.config.openStdin then some (write s) else none
  | .kill => if s.client ≠ .destroyed then some (kill s) else none
  | .destroy => if s.client = .idle then some { s with client := .joining true } else none

end Ashe.Process
