import Ashe.Crowd
import Ashe.Runs

namespace Ashe.Event

/-- What a thread does at the event. A wait is timed where it gets a number of milliseconds. -/
inductive Thread
  | idle
  | testing (timed : Bool)
  | asleep (timed : Bool)
  | expired
  | notifying
  | returned (timed result : Bool)
  deriving DecidableEq

structure State where
  isSet : Bool
  threads : List Thread
  deriving DecidableEq

namespace State

def goto (s : State) (i : Nat) (t : Thread) : State := { s with threads := s.threads.set i t }

def free (s : State) (i : Nat) : Bool :=
  match s.threads[i]? with
  | some .idle | some (.returned _ _) => true
  | _ => false

end State

def event (isSet : Bool) (threads : Nat) : State := ⟨isSet, List.replicate threads .idle⟩

def rouse : Thread → Thread
  | .asleep timed => .testing timed
  | t => t

inductive Label
  | wait (i : Nat) (timed : Bool)
  | set (i : Nat)
  | unset (i : Nat)
  | run (i : Nat)
  | spurious (i : Nat)
  | timeout (i : Nat)
  deriving DecidableEq

/-- A section under the lock is one step, and so is notify_all, which comes after the lock is
given back. A thread may also wake up for no reason, or because its time is over. -/
def step (s : State) : Label → Option State
  | .wait i timed => if s.free i then some (s.goto i (.testing timed)) else none
  | .set i => if s.free i then some { s.goto i .notifying with isSet := true } else none
  | .unset i => if s.free i then some { s.goto i .notifying with isSet := false } else none
  | .run i =>
      match s.threads[i]? with
      | some (.testing timed) =>
          some (s.goto i (if s.isSet then .returned timed true else .asleep timed))
      | some .expired => some (s.goto i (.returned true s.isSet))
      | some .notifying => some { s with threads := (s.threads.map rouse).set i .idle }
      | _ => none
  | .spurious i =>
      match s.threads[i]? with
      | some (.asleep timed) => some (s.goto i (.testing timed))
      | _ => none
  | .timeout i =>
      match s.threads[i]? with
      | some (.asleep true) => some (s.goto i .expired)
      | _ => none

end Ashe.Event
