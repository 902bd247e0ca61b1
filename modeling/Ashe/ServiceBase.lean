import Ashe.Runs

namespace Ashe.ServiceBase

inductive ServiceState
  | startPending
  | running
  | stopPending
  | stopped
  | pausePending
  | paused
  | continuePending
  deriving DecidableEq

structure Status where
  state : ServiceState
  exitCode : UInt32
  checkPoint : UInt32
  deriving DecidableEq

/-- How a callback of the derived class ends: it returns, throws a DWORD, or throws anything
else. -/
inductive Outcome
  | returns
  | throws (error : UInt32)
  | throwsOther
  deriving DecidableEq

inductive Control
  | stop
  | pause
  | resume
  | shutdown
  | interrogate
  deriving DecidableEq

/-- The thread of ServiceMain. Without a handle it returns, and no handler is there. -/
inductive Main
  | registering
  | unregistered
  | starting
  | inOnStart
  | finished
  deriving DecidableEq

/-- The thread that runs ServiceCtrlHandler. Stop remembers the state that it has found. -/
inductive Handler
  | idle
  | stopping (original : ServiceState)
  | inOnStop (original : ServiceState)
  | pausing
  | inOnPause
  | continuing
  | inOnContinue
  | inOnShutdown
  deriving DecidableEq

/-- What a call of SetServiceStatus does next. The static check point is read, written back
one higher, and what was read goes into the status. -/
inductive Phase
  | writeState
  | writeExitCode
  | readCheckPoint
  | increment (checkPoint : UInt32)
  | writeCheckPoint (checkPoint : UInt32)
  | report
  deriving DecidableEq

structure Call where
  state : ServiceState
  exitCode : UInt32
  phase : Phase
  deriving DecidableEq

structure Service where
  status : Status
  nextCheckPoint : UInt32
  main : Main
  mainCall : Option Call
  handler : Handler
  handlerCall : Option Call
  reports : List Status
  deriving DecidableEq

/-- The constructor, and the static of SetServiceStatus. -/
def serviceBase : Service := ⟨⟨.startPending, 0, 0⟩, 1, .registering, none, .idle, none, []⟩

def hasCheckPoint (state : ServiceState) : Bool := state ≠ .running && state ≠ .stopped

/-- One access of SetServiceStatus to the status or the static, which no lock guards. -/
def setServiceStatus (s : Service) (call : Call) : Service × Option Call :=
  match call.phase with
  | .writeState =>
      ({ s with status := { s.status with state := call.state } },
        some { call with phase := .writeExitCode })
  | .writeExitCode =>
      ({ s with status := { s.status with exitCode := call.exitCode } },
        some { call with phase := .readCheckPoint })
  | .readCheckPoint =>
      if hasCheckPoint call.state then (s, some { call with phase := .increment s.nextCheckPoint })
      else (s, some { call with phase := .writeCheckPoint 0 })
  | .increment checkPoint =>
      ({ s with nextCheckPoint := checkPoint + 1 },
        some { call with phase := .writeCheckPoint checkPoint })
  | .writeCheckPoint checkPoint =>
      ({ s with status := { s.status with checkPoint := checkPoint } },
        some { call with phase := .report })
  | .report => ({ s with reports := s.reports ++ [s.status] }, none)

def called (state : ServiceState) (exitCode : UInt32) : Option Call :=
  some ⟨state, exitCode, .writeState⟩

/-- The next step of ServiceMain outside SetServiceStatus. An outcome is that of OnStart, and the
handle of RegisterServiceCtrlHandlerW is null where registering fails. -/
def serviceMain (s : Service) (registered : Bool) (outcome : Outcome) : Option Service :=
  match s.main with
  | .registering => some { s with main := if registered then .starting else .unregistered }
  | .starting => some { s with mainCall := called .startPending 0, main := .inOnStart }
  | .inOnStart =>
      let mainCall := match outcome with
        | .returns => called .running 0
        | .throws error => called .stopped error
        | .throwsOther => called .stopped 0
      some { s with mainCall := mainCall, main := .finished }
  | .unregistered | .finished => none

def serviceCtrlHandler (s : Service) : Control → Service
  | .stop => { s with handler := .stopping s.status.state }
  | .pause => { s with handler := .pausing }
  | .resume => { s with handler := .continuing }
  | .shutdown => { s with handler := .inOnShutdown }
  | .interrogate => s

/-- The next step of ServiceCtrlHandler outside SetServiceStatus. An outcome is that of the
callback. -/
def handlerNext (s : Service) (outcome : Outcome) : Option Service :=
  match s.handler with
  | .idle => none
  | .stopping original => some { s with
      handlerCall := called .stopPending 0
      handler := .inOnStop original }
  | .inOnStop original =>
      let state := if outcome = .returns then .stopped else original
      some { s with handlerCall := called state 0, handler := .idle }
  | .pausing => some { s with handlerCall := called .pausePending 0, handler := .inOnPause }
  | .inOnPause =>
      let state := if outcome = .returns then .paused else .running
      some { s with handlerCall := called state 0, handler := .idle }
  | .continuing => some { s with
      handlerCall := called .continuePending 0
      handler := .inOnContinue }
  | .inOnContinue =>
      let state := if outcome = .returns then .running else .paused
      some { s with handlerCall := called state 0, handler := .idle }
  | .inOnShutdown =>
      if outcome = .returns then some { s with handlerCall := called .stopped 0, handler := .idle }
      else some { s with handler := .idle }

inductive Label
  | main (registered : Bool) (outcome : Outcome)
  | control (control : Control)
  | handler (outcome : Outcome)
  deriving DecidableEq

/-- The two threads take turns, each of them in the middle of SetServiceStatus too. The
dispatcher calls the handler again once it has returned. -/
def step (s : Service) : Label → Option Service
  | .main registered outcome => match s.mainCall with
    | none => serviceMain s registered outcome
    | some call =>
        let (s, rest) := setServiceStatus s call
        some { s with mainCall := rest }
  | .control control =>
      if s.handler = .idle ∧ s.handlerCall = none ∧ s.main ≠ .registering ∧
          s.main ≠ .unregistered then
        some (serviceCtrlHandler s control)
      else none
  | .handler outcome => match s.handlerCall with
    | none => handlerNext s outcome
    | some call =>
        let (s, rest) := setServiceStatus s call
        some { s with handlerCall := rest }

end Ashe.ServiceBase
