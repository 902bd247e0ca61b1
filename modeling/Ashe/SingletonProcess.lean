import Mathlib.Data.List.Basic
import Mathlib.Logic.Function.Basic

namespace Ashe.SingletonProcess

/-- How far the process is in markAndCheckStartup. -/
inductive Call
  | before
  | opening
  | locking
  | returned
  deriving DecidableEq

/-- The object of one process. Without a file pidFile_ is -1. -/
structure Instance where
  uniqueName : String
  isPrimary : Bool
  pidFile : Option Nat
  call : Call
  deriving DecidableEq

def constructed : Instance := ⟨"", true, none, .before⟩

inductive Flock
  | granted
  | wouldBlock
  | error
  deriving DecidableEq

def markAndCheckStartup (name : String) (o : Instance) : Instance :=
  if o.uniqueName.isEmpty && !name.isEmpty then { o with uniqueName := name, call := .opening }
  else { o with call := .returned }

def checkLocked (rc : Flock) (o : Instance) : Instance :=
  let o :=
    if rc = .wouldBlock then { o with isPrimary := false }
    else o
  { o with isPrimary := true, call := .returned }

/-- The objects of the live processes, the number of open file descriptions there have
been for the file of the name, and the one that has its lock. -/
structure System where
  instances : Nat → Option Instance
  opened : Nat
  lock : Option Nat

def initial : System := ⟨fun _ => none, 0, none⟩

/-- Steps between the system calls of any number of processes. The end of a process,
or of its object, closes the file. -/
inductive Label
  | construct (p : Nat)
  | mark (p : Nat)
  | openFile (p : Nat) (ok : Bool)
  | flock (p : Nat) (rc : Flock)
  | exit (p : Nat)
  deriving DecidableEq

def System.put (s : System) (p : Nat) (o : Instance) : System :=
  { s with instances := Function.update s.instances p (some o) }

def openFile (ok : Bool) (p : Nat) (o : Instance) (s : System) : System :=
  if ok then
    { s with opened := s.opened + 1 }.put p { o with pidFile := some s.opened, call := .locking }
  else s.put p { o with pidFile := none, call := .locking }

/-- Flock gives the lock to one open file description at a time, and otherwise says that
it would block. Any call of it may fail with another error, and one without a file does. -/
def flock (rc : Flock) (p : Nat) (o : Instance) (s : System) : Option System :=
  match rc, o.pidFile with
  | .granted, some d =>
      if s.lock = none ∨ s.lock = some d then
        some ({ s with lock := some d }.put p (checkLocked .granted o))
      else none
  | .wouldBlock, some d =>
      if s.lock ≠ none ∧ s.lock ≠ some d then some (s.put p (checkLocked .wouldBlock o)) else none
  | .error, _ => some (s.put p (checkLocked .error o))
  | _, none => none

/-- The lock goes with its open file description. -/
def exit (p : Nat) (o : Instance) (s : System) : System :=
  { s with
    instances := Function.update s.instances p none
    lock := if o.pidFile ≠ none ∧ s.lock = o.pidFile then none else s.lock }

def step (name : String) (s : System) : Label → Option System
  | .construct p => if s.instances p = none then some (s.put p constructed) else none
  | .mark p => (s.instances p).bind fun o =>
      if o.call = .before ∨ o.call = .returned then some (s.put p (markAndCheckStartup name o))
      else none
  | .openFile p ok => (s.instances p).bind fun o =>
      if o.call = .opening then some (openFile ok p o s) else none
  | .flock p rc => (s.instances p).bind fun o =>
      if o.call = .locking then flock rc p o s else none
  | .exit p => (s.instances p).bind fun o => some (exit p o s)

end Ashe.SingletonProcess
