import Ashe.LoopSteps

namespace Ashe.LoopTeardown

open PriorityQueue Tasks MessageLoop

/-- Where the thread of the loop is: it runs tasks, is in the loop of ~MessageLoop, at the check
behind that loop, or past willDestroyCurrentMessageLoop. The two calls of deletePendingTasks in
a round are told apart by `second`, and `didWork` is what a call has found so far. -/
inductive Pc
  | alive
  | reload (round : Nat)
  | deleteWork (round : Nat) (second didWork : Bool)
  | deleteDeferred (round : Nat) (second didWork : Bool)
  | deleteDelayed (round : Nat) (second didWork : Bool)
  | checked (round : Nat) (didWork : Bool)
  | detached
  | gone
  deriving DecidableEq

/-- A loop and its task runner, with the tasks whose callbacks were destroyed without having
run. -/
structure State where
  core : LoopSteps.State
  pc : Pc
  dropped : List PendingTask

def initial (now : TimePoint) : State := ⟨LoopSteps.initial now, .alive, []⟩

def rounds : Nat := 100

namespace State

def goto (s : State) (pc : Pc) : State := { s with pc := pc }

def withLoop (s : State) (m : Loop) : State := { s with core := { s.core with loop := m } }

def drop (s : State) (t : PendingTask) : State := { s with dropped := s.dropped ++ [t] }

end State

def attached : Pc → Bool
  | .detached | .gone => false
  | _ => true

def deleteWork (s : State) (round : Nat) (second didWork : Bool) : State :=
  let m := s.core.loop
  match m.workQueue with
  | [] => s.goto (.deleteDeferred round second
      (didWork || !m.deferredNonNestableWorkQueue.isEmpty))
  | t :: rest =>
      let m := { m with workQueue := rest }
      if t.delayedRunTime ≠ 0 then s.withLoop (addToDelayedWorkQueue m t)
      else (s.withLoop m).drop t

def deleteDeferred (s : State) (round : Nat) (second didWork : Bool) : State :=
  let m := s.core.loop
  match m.deferredNonNestableWorkQueue with
  | [] => s.goto (.deleteDelayed round second (didWork || !m.delayedWorkQueue.isEmpty))
  | t :: rest => (s.withLoop { m with deferredNonNestableWorkQueue := rest }).drop t

def deleteDelayed (s : State) (round : Nat) (second didWork : Bool) : State :=
  let m := s.core.loop
  match extract less m.delayedWorkQueue with
  | some (t, rest) => (s.withLoop { m with delayedWorkQueue := rest }).drop t
  | none =>
      if !second then s.goto (.deleteWork round true (!m.workQueue.isEmpty))
      else if didWork ∧ round + 1 < rounds then s.goto (.reload (round + 1))
      else s.goto (.checked round didWork)

def destroyMembers (s : State) : State :=
  let m := s.core.loop
  { s.withLoop { m with
      incomingQueue := [], deferredNonNestableWorkQueue := [], workQueue := []
      delayedWorkQueue := [] } with
    pc := .gone
    dropped := s.dropped ++ m.incomingQueue ++ m.deferredNonNestableWorkQueue ++ m.workQueue ++
      m.delayedWorkQueue }

def destroy (s : State) : Option State :=
  match s.pc with
  | .alive => if s.core.active.isEmpty then some (s.goto (.reload 0)) else none
  | .reload round =>
      let m := reloadWorkQueue s.core.loop
      some ((s.withLoop m).goto (.deleteWork round false (!m.workQueue.isEmpty)))
  | .deleteWork round second didWork => some (deleteWork s round second didWork)
  | .deleteDeferred round second didWork => some (deleteDeferred s round second didWork)
  | .deleteDelayed round second didWork => some (deleteDelayed s round second didWork)
  | .checked _ _ => some (s.goto .detached)
  | .detached => some (destroyMembers s)
  | .gone => none

/-- A post to a task runner that has lost its loop: the callback is destroyed at once. -/
def refuse (s : State) (quits nestable : Bool) : State :=
  let t : PendingTask := ⟨⟨s.core.posted.length, quits⟩, 0, 0, nestable⟩
  { s with core := { s.core with posted := s.core.posted ++ [t] }, dropped := s.dropped ++ [t] }

inductive Label
  | life (l : LoopSteps.Label)
  | destroy

/-- Any thread may post at any time, and so may what the callbacks own when it is destroyed.
Tasks run only before the destructor. -/
def step (s : State) : Label → Option State
  | .destroy => destroy s
  | .life (.tick d) => some { s with core := { s.core with now := s.core.now + d } }
  | .life (.post quits delay nestable) =>
      if attached s.pc then some { s with core := LoopSteps.post s.core quits delay nestable }
      else some (refuse s quits nestable)
  | .life l =>
      if s.pc = .alive then (LoopSteps.step s.core l).map fun core => { s with core := core }
      else none

/-- What TaskRunner::deleteSoon posts. Null pointers are none. -/
structure DeleteHelper where
  deleter : Option Nat
  object : Option Nat
  deriving DecidableEq

/-- What it deletes comes last. -/
def DeleteHelper.doDelete (h : DeleteHelper) : DeleteHelper × List Nat :=
  match h.deleter, h.object with
  | some _, some object => (⟨none, none⟩, [object])
  | _, _ => (h, [])

/-- All that a helper deletes: as a task, if it is run, and by its destructor. -/
def DeleteHelper.deletes (h : DeleteHelper) (ran : Bool) : List Nat :=
  let (h, first) := if ran then h.doDelete else (h, [])
  first ++ h.doDelete.2

end Ashe.LoopTeardown
