import Ashe.Tasks

namespace Ashe.MessageLoop

open PriorityQueue Tasks

/-- The fields of MessageLoop that its queues and its delegate methods use.
Only incomingQueue is shared between threads, under incomingQueueLock. -/
structure Loop where
  recentTime : TimePoint
  delayedWorkQueue : List PendingTask
  workQueue : List PendingTask
  deferredNonNestableWorkQueue : List PendingTask
  nestableTasksAllowed : Bool
  incomingQueue : List PendingTask
  nextSequenceNum : BitVec 32

def emptyLoop : Loop := ⟨0, [], [], [], true, [], 0⟩

def nanosecondsPerMillisecond : Nat := 1000000

def calculateDelayedRuntime (now : TimePoint) (delay : Int) : TimePoint :=
  if 0 < delay then now + delay.toNat * nanosecondsPerMillisecond else 0

/-- The locked section of addToIncomingQueue. The flag says that the queue was
empty before, in which case the poster goes on to call scheduleWork. -/
def addToIncomingQueue (m : Loop) (now : TimePoint) (callback : Callback) (delay : Int)
    (nestable : Bool) : Loop × Bool :=
  ({ m with incomingQueue :=
      m.incomingQueue ++ [⟨callback, 0, calculateDelayedRuntime now delay, nestable⟩] },
    m.incomingQueue.isEmpty)

def reloadWorkQueue (m : Loop) : Loop :=
  if !m.workQueue.isEmpty then m
  else if m.incomingQueue.isEmpty then m
  else { m with workQueue := m.incomingQueue, incomingQueue := m.workQueue }

def addToDelayedWorkQueue (m : Loop) (t : PendingTask) : Loop :=
  { m with
    delayedWorkQueue := m.delayedWorkQueue ++ [{ t with sequenceNum := m.nextSequenceNum }]
    nextSequenceNum := m.nextSequenceNum + 1 }

/-- How far a delegate method gets before other threads or a callback can
interfere: it returns, it is inside runTask, or doWork goes round again. -/
inductive Outcome
  | returns (didWork : Bool)
  | runs (task : PendingTask)
  | again
  deriving DecidableEq

/-- A delegate method's effect up to that point. The wake-up time is what it
last wrote to the pump's record, through scheduleDelayedWork or through the
out parameter of doDelayedWork, if it wrote anything. -/
structure Call where
  loop : Loop
  wakeUp : Option TimePoint
  outcome : Outcome

/-- runTask up to the call of the callback. After the callback only
nestableTasksAllowed is set again, and every executor then returns true. -/
def runTask (m : Loop) (wakeUp : Option TimePoint) (t : PendingTask) : Call :=
  ⟨{ m with nestableTasksAllowed := false }, wakeUp, .runs t⟩

def finishTask (m : Loop) : Loop := { m with nestableTasksAllowed := true }

def deferOrRunPendingTask (m : Loop) (wakeUp : Option TimePoint) (t : PendingTask) : Call :=
  if t.nestable then runTask m wakeUp t
  else ⟨{ m with deferredNonNestableWorkQueue := m.deferredNonNestableWorkQueue ++ [t] }, wakeUp,
    .returns false⟩

/-- The do/while of doWork over the loaded tasks, oldest first. -/
def executeOldest (m : Loop) (wakeUp : Option TimePoint) : List PendingTask → Call
  | [] => ⟨{ m with workQueue := [] }, wakeUp, .again⟩
  | t :: rest =>
      if t.delayedRunTime ≠ 0 then
        let reschedule := m.delayedWorkQueue.isEmpty
        executeOldest (addToDelayedWorkQueue m t)
          (if reschedule then some t.delayedRunTime else wakeUp) rest
      else
        let call := deferOrRunPendingTask { m with workQueue := rest } wakeUp t
        match call.outcome with
        | .runs _ => call
        | _ => executeOldest call.loop call.wakeUp rest

/-- One round of doWork's outer loop, from the lock of reloadWorkQueue to the
next one. The test of nestableTasksAllowed stands before the loop; repeating
it in later rounds changes nothing, since a round that ran no task kept it. -/
def doWork (m : Loop) : Call :=
  if !m.nestableTasksAllowed then ⟨m, none, .returns false⟩
  else
    let m := reloadWorkQueue m
    if m.workQueue.isEmpty then ⟨m, none, .returns false⟩
    else executeOldest m none m.workQueue

def doDelayedWork (m : Loop) (now : TimePoint) : Call :=
  match m.nestableTasksAllowed, extract less m.delayedWorkQueue with
  | true, some (task, rest) =>
      let nextRunTime := task.delayedRunTime
      let recentTime := if nextRunTime > m.recentTime then now else m.recentTime
      if nextRunTime > recentTime then
        ⟨{ m with recentTime := recentTime }, some nextRunTime, .returns false⟩
      else
        deferOrRunPendingTask { m with recentTime := recentTime, delayedWorkQueue := rest }
          ((top? less rest).map PendingTask.delayedRunTime) task
  | _, _ => ⟨{ m with recentTime := 0 }, some 0, .returns false⟩

def doIdleWork (m : Loop) : Call :=
  match m.deferredNonNestableWorkQueue with
  | [] => ⟨m, none, .returns false⟩
  | task :: rest => runTask { m with deferredNonNestableWorkQueue := rest } none task

end Ashe.MessageLoop
