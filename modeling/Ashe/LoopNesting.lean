import Ashe.PumpNesting
import Ashe.WinPumpTasks

namespace Ashe.LoopNesting

open LoopDrivers Runs

/-- On either pump, no task starts out of turn in a run exactly when doIdleWork meets no deferred
task in a run within another one, which a task or a window procedure has called. -/
theorem starts_in_turn_iff (now : Tasks.TimePoint) :
    (∀ ls, Along MessagePumpDefault.pumpStep
        (fun s _ s' => StartsInTurn (PumpNesting.view s) (PumpNesting.view s'))
        (MessagePumpDefault.idlePump now) ls ↔
      Along MessagePumpDefault.pumpStep
        (fun s l _ => IdleInTurn (PumpNesting.view s) (PumpNesting.call s l))
        (MessagePumpDefault.idlePump now) ls) ∧
    ∀ ls, Along MessagePumpForWin.step
        (fun s _ s' => StartsInTurn (WinPumpTasks.view s) (WinPumpTasks.view s'))
        (MessagePumpForWin.idlePump now) ls ↔
      Along MessagePumpForWin.step
        (fun s l _ => IdleInTurn (WinPumpTasks.view s) (WinPumpTasks.call s l))
        (MessagePumpForWin.idlePump now) ls :=
  ⟨PumpNesting.driver.turns_iff (s := MessagePumpDefault.idlePump now) trivial now rfl,
    WinPumpTasks.driver.turns_iff (s := MessagePumpForWin.idlePump now) trivial now rfl⟩

section Default

open MessagePumpDefault PumpNesting

/-- A non-nestable task is deferred while another task runs, which calls run. -/
def deferredInNested : List Choice :=
  [.post 0 0 false, .post 1 0 true, .run, .advance, .nestedRun, .advance, .advance, .advance]

theorem nested_idle_starts_out_of_turn : ¬ Along pumpStep
    (fun s _ s' => StartsInTurn (view s) (view s')) (idlePump 1) deferredInNested := by
  unfold StartsInTurn
  decide +kernel

end Default

section Windows

open MessagePumpForWin WinPumpTasks

/-- A non-nestable task is posted while a window procedure runs, which calls run. No task is
active where it starts. -/
def deferredInWindow : List Label :=
  [.postOther, .run false, .peek (some .other) false, .post false 0 false, .run false,
    .peek none false, .advance true, .advance true, .advance true, .advance true]

example : ((exec step (idlePump 1) deferredInWindow).map fun s =>
    (s.tasks.started.map Tasks.ticket, (view s).runDepth)) = some ([0], 2) := by decide +kernel

end Windows

end Ashe.LoopNesting
