import Ashe.LoopSteps

namespace Ashe.DelegateDriver

open Tasks MessageLoop LoopSteps

inductive Method
  | doWork
  | doDelayedWork
  | doIdleWork
  deriving DecidableEq

/-- A message loop under a pump that calls its delegate in any order, with the wake-up
time that the pump has recorded, the method it called last, and whether this is a doWork
that goes round again. -/
structure Driver where
  tasks : State
  wakeUp : TimePoint
  last : Option Method
  again : Bool

def initial (now wakeUp : TimePoint) : Driver := ⟨LoopSteps.initial now, wakeUp, none, false⟩

/-- The out parameter of doDelayedWork holds any time when the pump calls it. -/
inductive Label
  | tick (d : Nat)
  | post (quits : Bool) (delay : Int) (nestable : Bool)
  | finish
  | doWork
  | doDelayedWork (nextDelayedWorkTime : TimePoint)
  | doIdleWork

/-- The pump records what the call has written, or else what was there. -/
def called (s : Driver) (method : Method) (before : TimePoint) (c : Call) : Driver :=
  ⟨take s.tasks c, c.wakeUp.getD before, some method, c.outcome == .again⟩

/-- The pump calls its delegate with nestable tasks allowed. -/
def step (s : Driver) : Label → Option Driver
  | .tick d => (LoopSteps.step s.tasks (.tick d)).map fun tasks => { s with tasks := tasks }
  | .post quits delay nestable =>
      (LoopSteps.step s.tasks (.post quits delay nestable)).map fun tasks =>
        { s with tasks := tasks }
  | .finish => (LoopSteps.step s.tasks .finish).map fun tasks => { s with tasks := tasks }
  | .doWork =>
      if s.tasks.loop.nestableTasksAllowed then
        some (called s .doWork s.wakeUp (doWork s.tasks.loop))
      else none
  | .doDelayedWork nextDelayedWorkTime =>
      if s.tasks.loop.nestableTasksAllowed && !s.again then
        some (called s .doDelayedWork nextDelayedWorkTime (doDelayedWork s.tasks.loop s.tasks.now))
      else none
  | .doIdleWork =>
      if s.tasks.loop.nestableTasksAllowed && !s.again then
        some (called s .doIdleWork s.wakeUp (doIdleWork s.tasks.loop))
      else none

end Ashe.DelegateDriver
