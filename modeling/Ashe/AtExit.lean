import Mathlib.Logic.Function.Basic

namespace Ashe.AtExit

/-- The pointer to the top manager and the stack of callbacks of each manager, its top
first. Managers and callbacks are numbered as they come. -/
structure State where
  top : Option Nat
  stack : Nat → List Nat
  managers : Nat
  callbacks : Nat

def State.initial : State := ⟨none, fun _ => [], 0, 0⟩

def construct (s : State) : State :=
  { s with
    top := some s.managers
    stack := Function.update s.stack s.managers []
    managers := s.managers + 1 }

def registerCallback (s : State) : State :=
  match s.top with
  | none => { s with callbacks := s.callbacks + 1 }
  | some m =>
      { s with
        stack := Function.update s.stack m (s.callbacks :: s.stack m)
        callbacks := s.callbacks + 1 }

def processLoop (ran : List Nat) : List Nat → List Nat
  | [] => ran
  | cb :: stack => processLoop (ran ++ [cb]) stack

/-- No callback calls back into the manager, whose mutex is held. -/
def processCallbacksNow (s : State) : List Nat × State :=
  match s.top with
  | none => ([], s)
  | some m => (processLoop [] (s.stack m), { s with stack := Function.update s.stack m [] })

def destruct (s : State) : List Nat × State :=
  match s.top with
  | none => ([], s)
  | some _ =>
      let (ran, s) := processCallbacksNow s
      (ran, { s with top := none })

/-- The calls in the lifetime of a manager: RegisterCallback, and whole lifetimes of
other managers with the calls made in them. -/
inductive Calls where
  | done
  | registerCallback (rest : Calls)
  | manager (body rest : Calls)

/-- What happens, with the manager that was constructed last of those alive. -/
inductive Event where
  | constructed (m : Nat)
  | registered (m c : Nat)
  | ran (c : Nat)
  | destroyed (m : Nat)
  deriving DecidableEq

def lifetime (run : Nat → State → List Event × State) (s : State) : List Event × State :=
  let m := s.managers
  let (events, s) := run m (construct s)
  let (ran, s) := destruct s
  (.constructed m :: (events ++ (ran.map .ran ++ [.destroyed m])), s)

def exec : Calls → Nat → State → List Event × State
  | .done, _, s => ([], s)
  | .registerCallback rest, m, s =>
      let (events, s') := exec rest m (registerCallback s)
      (.registered m s.callbacks :: events, s')
  | .manager body rest, m, s =>
      let (inner, s) := lifetime (exec body) s
      let (events, s) := exec rest m s
      (inner ++ events, s)

def session : List Calls → State → List Event × State
  | [], s => ([], s)
  | body :: bodies, s =>
      let (inner, s) := lifetime (exec body) s
      let (events, s) := session bodies s
      (inner ++ events, s)

def events (bodies : List Calls) : List Event := (session bodies .initial).1

end Ashe.AtExit
