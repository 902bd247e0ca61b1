import Ashe.LoopSteps

namespace Ashe.MessagePumpDefault

open Tasks MessageLoop LoopSteps

/-- The delegate call that run makes, with the did_work it has so far. -/
inductive Executor
  | doWork
  | doDelayedWork (didWork : Bool)
  | doIdleWork
  deriving DecidableEq

/-- Where one activation of run stands. A wait that was notified or woke up on
its own has to take haveWorkLock again before it goes on. -/
inductive Pc
  | call (e : Executor)
  | inTask (e : Executor)
  | chooseWait
  | lockWait
  | waiting
  | lockTimedWait
  | timedWaiting
  | timedWoken
  deriving DecidableEq

/-- A posting thread: it put a task into the empty queue and has scheduleWork
before it, or it has set have_work_ and has notify_one before it. -/
inductive Poster
  | idle
  | enqueued (ticket : Nat)
  | stored (ticket : Nat)
  deriving DecidableEq

/-- The loop with its pump. The stack holds the activations of run, innermost
first: every one but the innermost is inside a task that called run again.
Signalled are the tickets whose scheduleWork has set have_work_, scheduled
those whose scheduleWork has returned. -/
structure Pump where
  tasks : State
  keepRunning : Bool
  haveWork : Bool
  delayedWorkTime : TimePoint
  stack : List Pc
  posters : Nat → Poster
  signalled : List Nat
  scheduled : List Nat

/-- What a schedule chooses. A post made by a task is a post of the poster
that stands for the loop's own thread. -/
inductive Choice
  | tick (d : Nat)
  | post (p : Nat) (delay : Int) (nestable : Bool)
  | postQuit (p : Nat)
  | signal (p : Nat)
  | notify (p : Nat)
  | run
  | nestedRun
  | quit
  | finish
  | advance
  | wake
  | timeout
  deriving DecidableEq

def idlePump (now : TimePoint) : Pump :=
  ⟨initial now, true, false, 0, [], fun _ => .idle, [], []⟩

def postBy (s : Pump) (p : Nat) (quits : Bool) (delay : Int) (nestable : Bool) : Pump :=
  let callback := ⟨s.tasks.posted.length, quits⟩
  let empty := (addToIncomingQueue s.tasks.loop s.tasks.now callback delay nestable).2
  { s with
    tasks := post s.tasks quits delay nestable
    posters := Function.update s.posters p
      (if empty then .enqueued s.tasks.posted.length else .idle) }

def woken : List Pc → List Pc
  | .waiting :: rest => .lockWait :: rest
  | .timedWaiting :: rest => .timedWoken :: rest
  | stack => stack

def delegateCall (m : Loop) (now : TimePoint) : Executor → Call
  | .doWork => doWork m
  | .doDelayedWork _ => doDelayedWork m now
  | .doIdleWork => doIdleWork m

def following : Executor → Bool → Pc
  | .doWork, didWork => .call (.doDelayedWork didWork)
  | .doDelayedWork before, didWork => .call (if before || didWork then .doWork else .doIdleWork)
  | .doIdleWork, didWork => if didWork then .call .doWork else .chooseWait

def resume (s : Pump) (rest : List Pc) (pc : Pc) : Pump :=
  if s.keepRunning then { s with stack := pc :: rest }
  else { s with keepRunning := true, stack := rest }

def callStep (s : Pump) (e : Executor) (rest : List Pc) : Pump :=
  let c := delegateCall s.tasks.loop s.tasks.now e
  let s := { s with
    tasks := take s.tasks c
    delayedWorkTime := c.wakeUp.getD s.delayedWorkTime }
  match c.outcome with
  | .runs _ => { s with stack := .inTask e :: rest }
  | .again => { s with stack := .call e :: rest }
  | .returns didWork => resume s rest (following e didWork)

/-- The rest of the delay in milliseconds, truncated towards zero. -/
def delayLeft (s : Pump) : Int :=
  ((s.delayedWorkTime : Int) - s.tasks.now).tdiv nanosecondsPerMillisecond

def leaveWait (s : Pump) (rest : List Pc) : Pump :=
  { s with haveWork := false, stack := .call .doWork :: rest }

def advance (s : Pump) : Option Pump :=
  match s.stack with
  | .call e :: rest => some (callStep s e rest)
  | .chooseWait :: rest =>
      if s.delayedWorkTime = 0 then some { s with stack := .lockWait :: rest }
      else if 0 < delayLeft s then some { s with stack := .lockTimedWait :: rest }
      else some { s with delayedWorkTime := 0, stack := .call .doWork :: rest }
  | .lockWait :: rest =>
      if s.haveWork then some (leaveWait s rest) else some { s with stack := .waiting :: rest }
  | .lockTimedWait :: rest => some { s with stack := .timedWaiting :: rest }
  | .timedWoken :: rest =>
      if s.haveWork then some (leaveWait s rest)
      else if 0 < delayLeft s then some { s with stack := .timedWaiting :: rest }
      else some (leaveWait s rest)
  | _ => none

def runningTask (s : Pump) : Bool :=
  match s.stack, s.tasks.active with
  | .inTask _ :: _, t :: _ => !t.callback.quits
  | _, _ => false

def finishStep (s : Pump) : Option Pump :=
  match s.stack, s.tasks.active with
  | .inTask e :: rest, t :: _ => (finish s.tasks).map (fun tasks =>
      resume { s with tasks := tasks, keepRunning := s.keepRunning && !t.callback.quits } rest
        (following e true))
  | _, _ => none

def pumpStep (s : Pump) : Choice → Option Pump
  | .tick d => some { s with tasks := { s.tasks with now := s.tasks.now + d } }
  | .post p delay nestable =>
      if s.posters p = .idle then some (postBy s p false delay nestable) else none
  | .postQuit p => if s.posters p = .idle then some (postBy s p true 0 true) else none
  | .signal p => match s.posters p with
    | .enqueued k => some { s with
        haveWork := true, posters := Function.update s.posters p (.stored k)
        signalled := k :: s.signalled }
    | _ => none
  | .notify p => match s.posters p with
    | .stored k => some { s with
        stack := woken s.stack, posters := Function.update s.posters p .idle
        scheduled := k :: s.scheduled }
    | _ => none
  | .run => if s.stack = [] then some { s with stack := [.call .doWork] } else none
  | .nestedRun =>
      if runningTask s then some { s with stack := .call .doWork :: s.stack } else none
  | .quit => if runningTask s then some { s with keepRunning := false } else none
  | .finish => finishStep s
  | .advance => advance s
  | .wake => if woken s.stack = s.stack then none else some { s with stack := woken s.stack }
  | .timeout => match s.stack with
    | .timedWaiting :: rest => some (leaveWait s rest)
    | _ => none

def Waits (s : Pump) : Prop :=
  s.stack.head? = some .waiting ∨ s.stack.head? = some .timedWaiting

instance (s : Pump) : Decidable (Waits s) := inferInstanceAs (Decidable (_ ∨ _))

/-- Only the loop's own steps start a wait, plain or timed. -/
def StartsWait (l : Choice) (s' : Pump) : Prop := l = .advance ∧ Waits s'

instance (l : Choice) (s' : Pump) : Decidable (StartsWait l s') :=
  inferInstanceAs (Decidable (_ ∧ _))

end Ashe.MessagePumpDefault
