import Mathlib.Data.List.Basic

namespace Ashe.ThreadPool

/-- Where a worker is in its loop. In none of these places it holds queue_mutex. -/
inductive Worker
  | locking
  | waiting
  | popped (task : Nat)
  | running (task : Nat)
  | returned
  deriving DecidableEq

/-- The thread that owns the pool. In the destructor it has set stop, then notified all
workers, and joins them one after the other. -/
inductive Owner
  | alive
  | stopped
  | joining (i : Nat)
  | destroyed
  deriving DecidableEq

inductive Event
  | accepted (task : Nat)
  | refused (task : Nat)
  | taken (task : Nat)
  | started (task : Nat)
  | ended (task : Nat)
  deriving DecidableEq

/-- The members of ThreadPool, its threads, the callers of enqueue that have still to
notify, and what has happened. Tasks are numbered by the calls of enqueue. -/
structure State where
  workers : List Worker
  tasks : List Nat
  stop : Bool
  owner : Owner
  notifying : Nat
  enqueued : Nat
  log : List Event

def threadPool (threads : Nat) : State :=
  ⟨List.replicate threads .locking, [], false, .alive, 0, 0, []⟩

def State.record (s : State) (e : Event) : State := { s with log := s.log ++ [e] }

def State.goto (s : State) (i : Nat) (w : Worker) : State :=
  { s with workers := s.workers.set i w }

/-- The section of enqueue under the lock. A task that is not accepted is dropped, and its
future is left with a broken promise. -/
def enqueue (s : State) : State :=
  let s' := { s with enqueued := s.enqueued + 1, notifying := s.notifying + 1 }
  if s.stop then s'.record (.refused s.enqueued)
  else { s' with tasks := s.tasks ++ [s.enqueued] }.record (.accepted s.enqueued)

def notifyOne (s : State) : Option Nat → Option State
  | some i => if s.workers[i]? = some .waiting then some (s.goto i .locking) else none
  | none => if .waiting ∉ s.workers then some s else none

def woken : Worker → Worker
  | .waiting => .locking
  | w => w

def notifyAll (s : State) : State := { s with workers := s.workers.map woken }

/-- The section of a worker under the lock: it begins with the predicate of the wait and
ends at the wait or with the lock released. -/
def lockedSection (i : Nat) (s : State) : State :=
  match s.tasks with
  | [] => if s.stop then s.goto i .returned else s.goto i .waiting
  | task :: tasks => ({ s with tasks := tasks }.goto i (.popped task)).record (.taken task)

/-- What a worker does next. A task is a packaged_task, which keeps what its function
throws. -/
def workerNext (i : Nat) (s : State) : Option State :=
  match s.workers[i]? with
  | none | some .waiting | some .returned => none
  | some .locking => some (lockedSection i s)
  | some (.popped task) => some ((s.goto i (.running task)).record (.started task))
  | some (.running task) => some ((s.goto i .locking).record (.ended task))

/-- What the owner does next: the destructor, up to the release of the lock, its
notify_all, and its joins. -/
def destruct (s : State) : Option State :=
  match s.owner with
  | .alive => some { s with stop := true, owner := .stopped }
  | .stopped => some { notifyAll s with owner := .joining 0 }
  | .joining i => match s.workers[i]? with
    | none => some { s with owner := .destroyed }
    | some .returned => some { s with owner := .joining (i + 1) }
    | some _ => none
  | .destroyed => none

/-- Steps at lock granularity. Enqueue is called from any thread, also out of a task, and
a wait may end without a notification. -/
inductive Label
  | enqueue
  | notify (woken : Option Nat)
  | worker (i : Nat)
  | wake (i : Nat)
  | owner
  deriving DecidableEq

def step (s : State) : Label → Option State
  | .enqueue => if s.owner ≠ .destroyed then some (enqueue s) else none
  | .notify woken =>
      if 0 < s.notifying then notifyOne { s with notifying := s.notifying - 1 } woken else none
  | .worker i => workerNext i s
  | .wake i => if s.workers[i]? = some .waiting then some (s.goto i .locking) else none
  | .owner => destruct s

end Ashe.ThreadPool
