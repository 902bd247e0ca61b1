import Mathlib.Algebra.Group.Nat.Defs
import Mathlib.Data.List.Sort

namespace Ashe.TimerManager

/-- A handler is known by the number of add calls before the one that
registered it. Times count nanoseconds, as the clock does, and periods
microseconds. -/
structure TimerData where
  id : Nat
  start : Int
  period : Int
  handler : Nat
  valid : Bool
  deriving DecidableEq

structure TimeEvent where
  next : Int
  ref : Nat
  deriving DecidableEq

/-- Where the worker stands whenever the lock is free. Blocked, it waits for
the lock or on the condition variable, which it may leave at any time. -/
inductive Worker
  | absent
  | blocked
  | fired (te : TimeEvent)
  | inHandler (te : TimeEvent)
  | returned (te : TimeEvent)
  | exited
  deriving DecidableEq

/-- The private data with the clock and the worker. Added counts the calls of
add, and started lists the handlers in the order of their calls. -/
structure State where
  done : Bool
  events : List TimerData
  timeEvents : List TimeEvent
  freeIds : List Nat
  now : Int
  worker : Worker
  added : Nat
  started : List Nat
  deriving DecidableEq

def initial (now : Int) : State := ⟨false, [], [], [], now, .absent, 0, []⟩

def insertEvent (te : TimeEvent) (timeEvents : List TimeEvent) : List TimeEvent :=
  timeEvents.orderedInsert (fun l r => l.next < r.next) te

def add (s : State) (when : Int) (period : Int) : State × Nat :=
  match s.freeIds with
  | [] =>
      let id := s.events.length
      ({ s with
        events := s.events ++ [⟨id, when, period, s.added, true⟩]
        timeEvents := insertEvent ⟨when, id⟩ s.timeEvents
        added := s.added + 1 }, id)
  | id :: rest =>
      ({ s with
        freeIds := rest
        events := s.events.set id ⟨id, when, period, s.added, true⟩
        timeEvents := insertEvent ⟨when, id⟩ s.timeEvents
        added := s.added + 1 }, id)

def invalidate (events : List TimerData) (id : Nat) : List TimerData :=
  events.modify id (fun e => { e with valid := false })

def remove (s : State) (id : Nat) : State × Bool :=
  if s.events.isEmpty || s.events.length ≤ id then (s, false)
  else
    let s := { s with events := invalidate s.events id }
    match s.timeEvents.find? (fun te => te.ref == id) with
    | some te => ({ s with
        freeIds := te.ref :: s.freeIds
        timeEvents := s.timeEvents.eraseP (fun te => te.ref == id) }, true)
    | none => (s, true)

/-- The loop of run from its test of done_ until it gives the lock up. -/
def turn (s : State) : State :=
  if s.done then { s with worker := .exited }
  else match s.timeEvents with
    | [] => { s with worker := .blocked }
    | te :: rest =>
        if s.now ≥ te.next then { s with timeEvents := rest, worker := .fired te }
        else { s with worker := .blocked }

def wrap (n : Int) : Int := n.bmod (2 ^ 64)

/-- The sum next += period, for which the period is turned into nanoseconds. -/
def plusPeriod (next period : Int) : Int := wrap (next + wrap (1000 * period))

def settle (s : State) (te : TimeEvent) : Option State :=
  (s.events[te.ref]?).map (fun e =>
    if e.valid && 0 < e.period then
      { s with
        timeEvents := insertEvent { te with next := plusPeriod te.next e.period } s.timeEvents }
    else { s with events := invalidate s.events te.ref, freeIds := te.ref :: s.freeIds })

/-- The locked sections of any threads, handlers included, and the steps the
worker takes without the lock. Of destory this is the part before its join. The
worker calls a handler where it stands in events_; that an add moves it to other
memory meanwhile is not modelled. -/
inductive Label
  | tick (d : Nat)
  | init
  | destory
  | add (when : Int) (period : Int)
  | remove (id : Nat)
  | wake
  | startHandler
  | endHandler (throws : Bool)
  | relock

def step (s : State) : Label → Option State
  | .tick d => some { s with now := s.now + d }
  | .init => if s.worker = .absent then some { s with worker := .blocked } else none
  | .destory => some { s with done := true }
  | .add when period => some (add s when period).1
  | .remove id => some (remove s id).1
  | .wake => match s.worker with
    | .blocked => some (turn s)
    | _ => none
  | .startHandler => match s.worker with
    | .fired te => (s.events[te.ref]?).map (fun e =>
        { s with worker := .inHandler te, started := s.started ++ [e.handler] })
    | _ => none
  | .endHandler _ => match s.worker with
    | .inHandler te => some { s with worker := .returned te }
    | _ => none
  | .relock => match s.worker with
    | .returned te => (settle s te).map turn
    | _ => none

def refs (s : State) : List Nat := s.timeEvents.map TimeEvent.ref

/-- The id, at most one, that the worker has taken out of time_events_ in order
to call its handler, until it has the lock again after the call. -/
def held (s : State) : List Nat :=
  match s.worker with
  | .fired te | .inHandler te | .returned te => [te.ref]
  | _ => []

/-- The handlers, at most one, that a step starts. -/
def starts (s s' : State) : List Nat := s'.started.drop s.started.length

end Ashe.TimerManager
