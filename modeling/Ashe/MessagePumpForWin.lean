import Ashe.LoopSteps

namespace Ashe.MessagePumpForWin

open Tasks MessageLoop LoopSteps

/-- The messages of the pump's thread: kMsgHaveWork for messageWindow_, WM_TIMER of its
timer, WM_QUIT, and all others. -/
inductive Message
  | haveWork
  | timer
  | quit
  | other
  deriving DecidableEq

/-- READY and HAVE_WORK. Nothing uses WORKING. -/
inductive WorkState
  | ready
  | haveWork
  deriving DecidableEq

/-- Where a call of scheduleWork is: before its exchange, before PostMessageW, or before
the exchange that takes the first one back. -/
inductive Schedule
  | exchanging
  | posting
  | unposting
  | returned
  deriving DecidableEq

inductive Replace
  | peeking
  | resetting (got : Option Message)
  | scheduling (call : Schedule) (msg : Message)
  deriving DecidableEq

inductive Executor
  | doWork
  | doDelayedWork
  | doIdleWork
  deriving DecidableEq

/-- Where doRunLoop is. Work is plausible as the argument says. -/
inductive Pc
  | next
  | replacing (r : Replace)
  | dispatching (msg : Message)
  | work (more : Bool)
  | delayed (more : Bool)
  | idle
  | inTask (e : Executor)
  | waiting
  deriving DecidableEq

/-- Where the window procedure of messageWindow_ is: in handleWorkMessage, outside of any
run or in one, or in handleTimerMessage. -/
inductive Handler
  | outside
  | replacing (r : Replace)
  | dispatching (msg : Message)
  | work
  | inWork
  | scheduling (call : Schedule)
  | delayed
  | inDelayed
  deriving DecidableEq

/-- The calls on the stack of the pump's thread: run with its should_quit and whether it
has a dispatcher, a message loop of Windows or of the application, the window procedure of
messageWindow_, and that of another window, to which PeekMessageW dispatches a message that
was sent. -/
inductive Frame
  | run (shouldQuit dispatcher : Bool) (pc : Pc)
  | native (dispatching : Bool)
  | handler (h : Handler)
  | sent
  deriving DecidableEq

/-- The message loop on its pump. The stack has the innermost call first. The calls are
those of scheduleWork by posting threads, each with the ticket of its task. -/
structure Pump where
  tasks : State
  workState : WorkState
  queue : List Message
  quitPosted : Bool
  timerSet : Bool
  delayedWorkTime : TimePoint
  stack : List Frame
  calls : List (Nat × Schedule)

def idlePump (now : TimePoint) : Pump :=
  ⟨initial now, .ready, [], false, false, 0, [], []⟩

/-- A step of scheduleWork. Posted says whether PostMessageW finds room in the queue. -/
def scheduleWork (s : Pump) (posted : Bool) : Schedule → Pump × Schedule
  | .exchanging =>
      ({ s with workState := .haveWork },
        if s.workState = .ready then .posting else .returned)
  | .posting =>
      if posted then ({ s with queue := s.queue ++ [.haveWork] }, .returned) else (s, .unposting)
  | .unposting => ({ s with workState := .ready }, .returned)
  | .returned => (s, .returned)

def inRun : List Frame → Bool
  | .run .. :: _ => true
  | _ :: rest => inRun rest
  | [] => false

def quitRun : List Frame → List Frame
  | .run _ dispatcher pc :: rest => .run true dispatcher pc :: rest
  | f :: rest => f :: quitRun rest
  | [] => []

def hasDispatcher : List Frame → Bool
  | .run _ dispatcher _ :: _ => dispatcher
  | _ :: rest => hasDispatcher rest
  | [] => false

def resume (s : Pump) (shouldQuit dispatcher : Bool) (rest : List Frame) (pc : Pc) : Pump :=
  if shouldQuit then { s with stack := rest }
  else { s with stack := .run shouldQuit dispatcher pc :: rest }

def afterDelayed (s : Pump) (shouldQuit dispatcher : Bool) (rest : List Frame) (more : Bool) :
    Pump :=
  resume { s with timerSet := s.timerSet && !(more && s.delayedWorkTime == 0) }
    shouldQuit dispatcher rest (if more then .next else .idle)

/-- handleTimerMessage up to the call of doDelayedWork. -/
def handleTimerMessage (s : Pump) : Pump :=
  { s with
    timerSet := false
    stack := if inRun s.stack then .handler .delayed :: s.stack else s.stack }

def afterTimer (s : Pump) (rest : List Frame) : Pump :=
  { s with timerSet := s.timerSet || s.delayedWorkTime != 0, stack := rest }

/-- handleWorkMessage up to its first step that others can see. -/
def handleWorkMessage (s : Pump) : Pump :=
  { s with
    stack := .handler (if inRun s.stack then .replacing .peeking else .outside) :: s.stack }

/-- A message is dispatched to the window procedure of its window, or given to the
dispatcher, which is code of the application. -/
def dispatch (s : Pump) (msg : Message) : Pump :=
  if msg = .timer ∧ !hasDispatcher s.stack then handleTimerMessage s else s

/-- processMessageHelper, called by processNextWindowsMessage, or on a replacement. -/
def processMessageHelper (s : Pump) (msg : Message) : Pump :=
  match s.stack with
  | .run shouldQuit dispatcher _ :: rest => match msg with
    | .quit => resume { s with quitPosted := true } true dispatcher rest (.work false)
    | .haveWork => { s with stack := .run shouldQuit dispatcher (.replacing .peeking) :: rest }
    | msg => dispatch { s with stack := .run shouldQuit dispatcher (.dispatching msg) :: rest } msg
  | .handler _ :: rest => match msg with
    | .quit => { s with quitPosted := true, stack := .handler .work :: quitRun rest }
    | .haveWork => { s with stack := .handler (.replacing .peeking) :: rest }
    | msg => dispatch { s with stack := .handler (.dispatching msg) :: rest } msg
  | _ => s

def Frame.replacing (r : Replace) : Frame → Frame
  | .run shouldQuit dispatcher _ => .run shouldQuit dispatcher (.replacing r)
  | .handler _ => .handler (.replacing r)
  | f => f

def unreplaced (s : Pump) : Pump :=
  match s.stack with
  | .run shouldQuit dispatcher _ :: rest => resume s shouldQuit dispatcher rest (.work false)
  | .handler _ :: rest => { s with stack := .handler .work :: rest }
  | _ => s

def processPumpReplacementMessage (s : Pump) (f : Frame) (rest : List Frame) (posted : Bool) :
    Replace → Option Pump
  | .peeking => none
  | .resetting none => some (unreplaced { s with workState := .ready })
  | .resetting (some msg) => some { s with
      workState := .ready, stack := f.replacing (.scheduling .exchanging msg) :: rest }
  | .scheduling call msg =>
      let (s, call) := scheduleWork s posted call
      if call = .returned then some (processMessageHelper s msg)
      else some { s with stack := f.replacing (.scheduling call msg) :: rest }

/-- The thread is in a call of PeekMessageW, that of waitForWork included. -/
def peeks : List Frame → Bool
  | .run _ _ .next :: _ | .run _ _ .waiting :: _ | .run _ _ (.replacing .peeking) :: _ => true
  | .handler (.replacing .peeking) :: _ | .native false :: _ => true
  | _ => false

/-- PeekMessageW with PM_REMOVE, behind the messages that were sent: posted messages in
order, then WM_QUIT, then WM_TIMER, which may not be due. A timer stays set until it is
killed. -/
def peekMessage (s : Pump) : Option Message → Option Pump
  | none => if s.queue = [] ∧ !s.quitPosted then some s else none
  | some .quit => if s.queue = [] ∧ s.quitPosted then some { s with quitPosted := false } else none
  | some .timer => if s.queue = [] ∧ !s.quitPosted ∧ s.timerSet then some s else none
  | some msg => match s.queue with
    | [] => none
    | first :: queue => if first = msg then some { s with queue := queue } else none

/-- What the code that called PeekMessageW does with what it got. Sent says whether there
were sent messages; a loop of Windows or of the application dispatches what it gets. -/
def peeked (s : Pump) (got : Option Message) (sent : Bool) : Option Pump :=
  match s.stack, got with
  | .run shouldQuit dispatcher .next :: rest, none =>
      some (resume s shouldQuit dispatcher rest (.work sent))
  | .run _ _ .next :: _, some msg => some (processMessageHelper s msg)
  | .run shouldQuit dispatcher (.replacing .peeking) :: rest, got =>
      some { s with stack := .run shouldQuit dispatcher (.replacing (.resetting got)) :: rest }
  | .handler (.replacing .peeking) :: rest, got =>
      some { s with stack := .handler (.replacing (.resetting got)) :: rest }
  | .native false :: _, some .haveWork => some (handleWorkMessage s)
  | .native false :: _, some .timer => some (handleTimerMessage s)
  | .native false :: rest, some .other => some { s with stack := .native true :: rest }
  | _, _ => none

/-- The delegate's doWork on the pump's thread. Where it calls scheduleDelayedWork the
timer is set. -/
def workCall (s : Pump) : Pump :=
  let c := doWork s.tasks.loop
  { s with
    tasks := take s.tasks c
    timerSet := s.timerSet || c.wakeUp.isSome
    delayedWorkTime := c.wakeUp.getD s.delayedWorkTime }

def delayedCall (s : Pump) : Pump :=
  let c := doDelayedWork s.tasks.loop s.tasks.now
  { s with
    tasks := take s.tasks c
    delayedWorkTime := c.wakeUp.getD s.delayedWorkTime }

def idleCall (s : Pump) : Pump := { s with tasks := take s.tasks (doIdleWork s.tasks.loop) }

def runStep (s : Pump) (shouldQuit dispatcher : Bool) (rest : List Frame) (posted : Bool) :
    Pc → Option Pump
  | .replacing r =>
      processPumpReplacementMessage s (.run shouldQuit dispatcher (.replacing r)) rest posted r
  | .work more => match (doWork s.tasks.loop).outcome with
    | .again => some (workCall s)
    | .runs _ => some { workCall s with
        stack := .run shouldQuit dispatcher (.inTask .doWork) :: rest }
    | .returns didWork =>
        some (resume (workCall s) shouldQuit dispatcher rest (.delayed (more || didWork)))
  | .delayed more => match (doDelayedWork s.tasks.loop s.tasks.now).outcome with
    | .again => none
    | .runs _ => some { delayedCall s with
        stack := .run shouldQuit dispatcher (.inTask .doDelayedWork) :: rest }
    | .returns didWork =>
        some (afterDelayed (delayedCall s) shouldQuit dispatcher rest (more || didWork))
  | .idle => match (doIdleWork s.tasks.loop).outcome with
    | .again => none
    | .runs _ => some { idleCall s with
        stack := .run shouldQuit dispatcher (.inTask .doIdleWork) :: rest }
    | .returns didWork =>
        some (resume (idleCall s) shouldQuit dispatcher rest (if didWork then .next else .waiting))
  | .next | .dispatching _ | .inTask _ | .waiting => none

def handlerStep (s : Pump) (rest : List Frame) (posted : Bool) : Handler → Option Pump
  | .outside => some { s with workState := .ready, stack := rest }
  | .replacing r => processPumpReplacementMessage s (.handler (.replacing r)) rest posted r
  | .work => match (doWork s.tasks.loop).outcome with
    | .again => some (workCall s)
    | .runs _ => some { workCall s with stack := .handler .inWork :: rest }
    | .returns didWork => some { workCall s with
        stack := if didWork then .handler (.scheduling .exchanging) :: rest else rest }
  | .scheduling call =>
      let (s, call) := scheduleWork s posted call
      some { s with
        stack := if call = .returned then rest else .handler (.scheduling call) :: rest }
  | .delayed => match (doDelayedWork s.tasks.loop s.tasks.now).outcome with
    | .again => none
    | .runs _ => some { delayedCall s with stack := .handler .inDelayed :: rest }
    | .returns _ => some (afterTimer (delayedCall s) rest)
  | .dispatching _ | .inWork | .inDelayed => none

def advance (s : Pump) (posted : Bool) : Option Pump :=
  match s.stack with
  | .run shouldQuit dispatcher pc :: rest => runStep s shouldQuit dispatcher rest posted pc
  | .handler h :: rest => handlerStep s rest posted h
  | _ => none

/-- Code of the application runs: outside of every loop, as a task, or as a window
procedure or the dispatcher. -/
def appRuns : List Frame → Bool
  | [] => true
  | .run _ _ (.dispatching _) :: _ | .run _ _ (.inTask _) :: _ => true
  | .native dispatching :: _ => dispatching
  | .sent :: _ => true
  | .handler (.dispatching _) :: _ | .handler .inWork :: _ | .handler .inDelayed :: _ => true
  | _ => false

def finishTask (s : Pump) : Option Pump :=
  match s.tasks.active with
  | [] => none
  | t :: _ => (finish s.tasks).map fun tasks =>
      { s with tasks := tasks, stack := if t.callback.quits then quitRun s.stack else s.stack }

/-- Code of the application returns. Keep is what a dispatcher returns. -/
def leave (s : Pump) (keep : Bool) : Option Pump :=
  match s.stack with
  | .run shouldQuit dispatcher (.dispatching _) :: rest =>
      some (resume s (shouldQuit || (dispatcher && !keep)) dispatcher rest (.work true))
  | .run _ _ (.inTask e) :: _ => (finishTask s).bind fun s => match s.stack with
    | .run shouldQuit dispatcher _ :: rest => match e with
      | .doWork => some (resume s shouldQuit dispatcher rest (.delayed true))
      | .doDelayedWork => some (afterDelayed s shouldQuit dispatcher rest true)
      | .doIdleWork => some (resume s shouldQuit dispatcher rest .next)
    | _ => none
  | .native true :: rest => some { s with stack := .native false :: rest }
  | .sent :: rest => some { s with stack := rest }
  | .handler (.dispatching _) :: rest => some { s with
      stack := .handler .work :: if hasDispatcher rest && !keep then quitRun rest else rest }
  | .handler .inWork :: _ => (finishTask s).bind fun s =>
      some { s with stack := .handler (.scheduling .exchanging) :: s.stack.tail }
  | .handler .inDelayed :: _ => (finishTask s).bind fun s => some (afterTimer s s.stack.tail)
  | _ => none

def post (s : Pump) (quits : Bool) (delay : Int) (nestable : Bool) : Pump :=
  let callback := ⟨s.tasks.posted.length, quits⟩
  let empty := (addToIncomingQueue s.tasks.loop s.tasks.now callback delay nestable).2
  { s with
    tasks := LoopSteps.post s.tasks quits delay nestable
    calls := if empty then s.calls ++ [(s.tasks.posted.length, .exchanging)] else s.calls }

/-- What a schedule chooses. A post made on the pump's thread is a post like any other. -/
inductive Label
  | tick (d : Nat)
  | post (quits : Bool) (delay : Int) (nestable : Bool)
  | schedule (i : Nat) (posted : Bool)
  | postOther
  | postQuit
  | run (dispatcher : Bool)
  | native
  | endNative
  | quit
  | sent
  | peek (got : Option Message) (sent : Bool)
  | deliver
  | advance (posted : Bool)
  | leave (keep : Bool)
  | wake (sent : Bool)
  deriving DecidableEq

/-- The dispatcher passes the message on to the window procedure. -/
def deliver (s : Pump) : Option Pump :=
  match s.stack with
  | .run _ true (.dispatching .timer) :: _ => some (handleTimerMessage s)
  | .handler (.dispatching .timer) :: rest =>
      if hasDispatcher rest then some (handleTimerMessage s) else none
  | _ => none

def step (s : Pump) : Label → Option Pump
  | .tick d => some { s with tasks := { s.tasks with now := s.tasks.now + d } }
  | .post quits delay nestable => some (post s quits delay nestable)
  | .schedule i posted => match s.calls[i]? with
    | none => none
    | some (ticket, call) =>
        let (s, call) := scheduleWork s posted call
        some { s with calls := s.calls.set i (ticket, call) }
  | .postOther => some { s with queue := s.queue ++ [.other] }
  | .postQuit => some { s with quitPosted := true }
  | .run dispatcher =>
      if appRuns s.stack then some { s with stack := .run false dispatcher .next :: s.stack }
      else none
  | .native => if appRuns s.stack then some { s with stack := .native false :: s.stack } else none
  | .endNative => match s.stack with
    | .native false :: rest => some { s with stack := rest }
    | _ => none
  | .quit => if appRuns s.stack ∧ inRun s.stack then some { s with stack := quitRun s.stack }
      else none
  | .sent => if peeks s.stack then some { s with stack := .sent :: s.stack } else none
  | .peek got sent => (peekMessage s got).bind fun s => peeked s got sent
  | .deliver => deliver s
  | .advance posted => advance s posted
  | .leave keep => leave s keep
  | .wake sent => match s.stack with
    | .run shouldQuit dispatcher .waiting :: rest =>
        if sent ∨ s.queue ≠ [] ∨ s.quitPosted ∨ s.timerSet then
          some { s with stack := .run shouldQuit dispatcher .next :: rest }
        else none
    | _ => none

end Ashe.MessagePumpForWin
