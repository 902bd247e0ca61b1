import Mathlib.Data.List.Basic
import Mathlib.Logic.Function.Basic

namespace Ashe.AsyncWorker

/-- Where a thread is in run. With a task popped or executed it does not hold the lock. -/
inductive Run
  | absent
  | entering
  | locking
  | waiting
  | popped (task : Nat)
  | executing (task : Nat)
  | leaving
  | returned
  deriving DecidableEq

/-- The thread that calls start and stop. -/
inductive Owner
  | idle
  | joining
  deriving DecidableEq

inductive Event
  | startReturned (ok : Bool)
  | stopCalled
  | enqueued (task : Nat)
  | emptied (tasks : List Nat)
  | started (task : Nat)
  | ended (task : Nat)
  deriving DecidableEq

/-- The members of AsyncWorker, its threads by the order of their creation, the callers
of invoke that have still to notify, and what has happened. -/
structure State where
  thread : Option Nat
  exit : Bool
  workQueue : List Nat
  running : Bool
  run : Nat → Run
  threads : Nat
  owner : Owner
  notifying : Nat
  invoked : Nat
  log : List Event

def initial : State := ⟨none, false, [], false, fun _ => .absent, 0, .idle, 0, 0, []⟩

def State.record (s : State) (e : Event) : State := { s with log := s.log ++ [e] }

def State.goto (s : State) (i : Nat) (r : Run) : State :=
  { s with run := Function.update s.run i r }

@[simp] theorem State.goto_run_self (s : State) (i : Nat) (r : Run) : (s.goto i r).run i = r :=
  Function.update_self ..

theorem State.goto_run_ne (s : State) {i j : Nat} (h : j ≠ i) (r : Run) :
    (s.goto i r).run j = s.run j :=
  Function.update_of_ne h ..

def State.timesOut (s : State) : Bool :=
  match s.thread with
  | none => false
  | some i => s.run i ≠ .returned

/-- A thread may fail to be created. -/
def start (created : Bool) (s : State) : State :=
  if s.timesOut then s.record (.startReturned true)
  else if created then
    let s := { s with thread := some s.threads, threads := s.threads + 1 }.goto s.threads .entering
    s.record (.startReturned true)
  else s.record (.startReturned false)

def notifyOne (s : State) : Option Nat → Option State
  | some i => if s.run i = .waiting then some (s.goto i .locking) else none
  | none => if ∀ i < s.threads, s.run i ≠ .waiting then some s else none

def emptyQueue (s : State) : State := { s with workQueue := [] }.record (.emptied s.workQueue)

def clearTasks (s : State) : State := emptyQueue s

def stop (woken : Option Nat) (s : State) : Option State :=
  notifyOne { emptyQueue (s.record .stopCalled) with exit := true, owner := .joining } woken

/-- The section of invoke under the lock. Tasks are numbered as they are queued. -/
def invoke (s : State) : State :=
  { s with
    workQueue := s.workQueue ++ [s.invoked]
    invoked := s.invoked + 1
    notifying := s.notifying + 1 }.record (.enqueued s.invoked)

/-- The section of run under the lock, which ends at a wait or with the lock released. -/
def lockedSection (i : Nat) (s : State) : State :=
  if s.exit then { s with running := false }.goto i .leaving
  else
    match s.workQueue with
    | [] => s.goto i .waiting
    | task :: tasks => { s with workQueue := tasks }.goto i (.popped task)

def runNext (i : Nat) (s : State) : Option State :=
  match s.run i with
  | .absent | .waiting | .returned => none
  | .entering => some ({ s with running := true }.goto i .locking)
  | .locking => some (lockedSection i s)
  | .popped task => some ((s.goto i (.executing task)).record (.started task))
  | .executing task => some ((s.goto i .locking).record (.ended task))
  | .leaving => some (s.goto i .returned)

/-- Steps at lock granularity. Start and stop come from one thread, invoke and clearTasks
from any, also out of a task, and a wait may end without a notification. -/
inductive Label
  | start (created : Bool)
  | stop (woken : Option Nat)
  | join
  | invoke
  | notify (woken : Option Nat)
  | clearTasks
  | run (i : Nat)
  | wake (i : Nat)
  deriving DecidableEq

def step (s : State) : Label → Option State
  | .start created => if s.owner = .idle then some (start created s) else none
  | .stop woken => if s.owner = .idle then stop woken s else none
  | .join => if s.owner = .joining ∧ ¬ s.timesOut then some { s with owner := .idle } else none
  | .invoke => some (invoke s)
  | .notify woken =>
      if 0 < s.notifying then notifyOne { s with notifying := s.notifying - 1 } woken else none
  | .clearTasks => some (clearTasks s)
  | .run i => runNext i s
  | .wake i => if s.run i = .waiting then some (s.goto i .locking) else none

end Ashe.AsyncWorker
