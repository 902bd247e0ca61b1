import Mathlib.Tactic.Common

namespace Ashe.Threads

inductive State
  | starting
  | started
  | stopping
  | stopped
  deriving DecidableEq

/-- The thread that calls start, by what it does next: it takes runningLock and
tests running_, or it waits on runningEvent. -/
inductive Starter
  | idle
  | locking
  | waiting
  | returned
  deriving DecidableEq

/-- The new thread, by what threadMain does next. What the delegate's functions
do in the meantime, and for how long, is left open. -/
inductive Main
  | absent
  | enter
  | onBeforeThreadRunning
  | setRunning
  | notify
  | onThreadRunning
  | clearRunning
  | onAfterThreadRunning
  | leave
  | finished
  deriving DecidableEq

structure Thread where
  state : State
  running : Bool
  messageLoop : Bool
  starter : Starter
  main : Main
  deriving DecidableEq

def initial : Thread := ⟨.stopped, false, false, .idle, .absent⟩

/-- The next section of threadMain under the lock, or between two of them. -/
def threadMain (s : Thread) : Option Thread :=
  match s.main with
  | .absent | .finished => none
  | .enter => some { s with messageLoop := true, main := .onBeforeThreadRunning }
  | .onBeforeThreadRunning => some { s with main := .setRunning }
  | .setRunning => some { s with running := true, main := .notify }
  | .notify => some { s with
      starter := if s.starter = .waiting then .locking else s.starter, main := .onThreadRunning }
  | .onThreadRunning => some { s with main := .clearRunning }
  | .clearRunning => some { s with running := false, main := .onAfterThreadRunning }
  | .onAfterThreadRunning => some { s with main := .leave }
  | .leave => some { s with messageLoop := false, main := .finished }

def testRunning (s : Thread) : Thread :=
  if s.running then { s with state := .started, starter := .returned }
  else { s with starter := .waiting }

/-- Steps at lock granularity. A wait may end without a notification, stopSoon
may come from any thread, and join from the one that called start. -/
inductive Label
  | start
  | test
  | wake
  | threadMain
  | stopSoon
  | join
  deriving DecidableEq

def step (s : Thread) : Label → Option Thread
  | .start =>
      if s.starter = .idle ∧ s.main = .absent then
        some { s with state := .starting, starter := .locking, main := .enter }
      else none
  | .test => if s.starter = .locking then some (testRunning s) else none
  | .wake => if s.starter = .waiting then some { s with starter := .locking } else none
  | .threadMain => threadMain s
  | .stopSoon =>
      if s.state = .stopping ∨ s.messageLoop = false then some s
      else some { s with state := .stopping }
  | .join =>
      if s.starter = .returned ∧ s.main = .finished then
        some { s with state := .stopped, starter := .idle, main := .absent }
      else none

end Ashe.Threads
