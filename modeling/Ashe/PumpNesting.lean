import Ashe.LoopDrivers
import Ashe.PumpSteps

namespace Ashe.PumpNesting

open Tasks MessageLoop LoopSteps LoopDrivers MessagePumpDefault PumpSteps Runs

/-- An activation of run is a call of run, with the task on it that it has started. -/
def frames : List Pc → List Frame
  | [] => []
  | .inTask _ :: rest => .task :: .run :: frames rest
  | _ :: rest => .run :: frames rest

def view (s : Pump) : Driven := ⟨s.tasks, frames s.stack⟩

def call (s : Pump) : Choice → Option Label
  | .tick d => some (.tick d)
  | .post _ delay nestable => some (.post false delay nestable)
  | .postQuit _ => some (.post true 0 true)
  | .finish => some .finish
  | .advance => match s.stack with
    | .call .doWork :: _ => some .doWork
    | .call (.doDelayedWork _) :: _ => some .doDelayedWork
    | .call .doIdleWork :: _ => some .doIdleWork
    | _ => none
  | _ => none

theorem frames_run {pc : Pc} (hpc : ∀ e, pc ≠ .inTask e) (rest : List Pc) :
    frames (pc :: rest) = .run :: frames rest := by
  cases pc with
  | inTask e => exact absurd rfl (hpc e)
  | call | chooseWait | lockWait | waiting | lockTimedWait | timedWaiting | timedWoken => rfl

theorem runDepth_view (s : Pump) : (view s).runDepth = s.stack.length := by
  rw [view, Driven.runDepth]
  dsimp only
  induction s.stack with
  | nil => rfl
  | cons pc rest ih =>
      have hcount : (frames (pc :: rest)).count .run = (frames rest).count .run + 1 := by
        cases pc with
        | inTask e => rw [frames, List.count_cons_of_ne (by decide), List.count_cons_self]
        | call | chooseWait | lockWait | waiting | lockTimedWait | timedWaiting | timedWoken =>
            exact List.count_cons_self
      rw [hcount, ih, List.length_cons]

theorem frames_woken (stack : List Pc) : frames (woken stack) = frames stack := by
  rw [woken.eq_def]
  split <;> rfl

theorem following_ne (e e' : Executor) (didWork : Bool) : following e didWork ≠ .inTask e' := by
  cases e <;> cases didWork <;> simp [following]

theorem call_advance {s : Pump} {pc : Pc} {rest : List Pc} (hs : s.stack = pc :: rest)
    (hpc : ∀ e, pc ≠ .call e) : call s .advance = none := by
  rw [call, hs]
  split
  next heq => exact absurd (List.cons.inj heq).1 (hpc _)
  next heq => exact absurd (List.cons.inj heq).1 (hpc _)
  next heq => exact absurd (List.cons.inj heq).1 (hpc _)
  next => rfl

theorem rests_drives {s s' : Pump} {l : Choice} (hl : call s l = none)
    (htasks : s'.tasks = s.tasks) (hframes : frames s'.stack = frames s.stack) :
    Drives (view s) (call s l) (view s') := by
  rw [hl, view, view, htasks, hframes]
  exact .rests (.inl rfl)

theorem callStep_drives {s : Pump} {e : Executor} {rest : List Pc}
    (hs : s.stack = .call e :: rest) :
    Drives (view s) (call s .advance) (view (callStep s e rest)) := by
  obtain ⟨l, hl, hcall, hstep⟩ : ∃ l, call s .advance = some l ∧ Calls (view s).frames l ∧
      step s.tasks l = some (take s.tasks (delegateCall s.tasks.loop s.tasks.now e)) := by
    have hframes : (view s).frames = .run :: frames rest := by rw [view, hs]; rfl
    cases e with
    | doWork =>
        refine ⟨.doWork, by rw [call, hs], ?_, rfl⟩
        rw [Calls, hframes]
        exact List.mem_cons_self
    | doDelayedWork before =>
        refine ⟨.doDelayedWork, by rw [call, hs], ?_, rfl⟩
        rw [Calls, hframes]
        exact List.mem_cons_self
    | doIdleWork =>
        refine ⟨.doIdleWork, by rw [call, hs], ?_, rfl⟩
        rw [Calls, hframes]
        rfl
  rw [hl, view, view, callStep_tasks]
  have hc := callStep_stack s e rest
  have hstarts := starts_take s.tasks (delegateCall s.tasks.loop s.tasks.now e)
  rw [view, hs] at hcall
  rw [hs]
  generalize (callStep s e rest).stack = stack at hc
  cases hc with
  | runs ho =>
      rw [ho] at hstarts
      exact .starts hcall hstep (by simp [hstarts])
  | stops ho =>
      rw [ho] at hstarts
      exact .returns hcall hstep hstarts (.inr rfl)
  | again ho =>
      rw [ho] at hstarts
      exact .returns hcall hstep hstarts (.inl rfl)
  | @returns didWork ho =>
      rw [ho] at hstarts
      exact .returns hcall hstep hstarts
        (.inl (frames_run (fun e' => following_ne e e' didWork) rest))

theorem moves_drives {s s' : Pump} {l : Choice} (hm : Moves s l s') :
    Drives (view s) (call s l) (view s') := by
  cases hm with
  | tick d => exact .ticks d
  | post delay nestable => exact .posts false delay nestable
  | postQuit => exact .posts true 0 true
  | signal | quit => exact rests_drives rfl rfl rfl
  | notify | wake => exact rests_drives rfl rfl (frames_woken _)
  | run hs =>
      have henters : Drives (view s) none ⟨s.tasks, .run :: frames s.stack⟩ := .enters
      rw [hs] at henters
      exact henters
  | nestedRun hs =>
      have henters : Drives (view s) none ⟨s.tasks, .run :: frames s.stack⟩ := .enters
      rw [hs] at henters
      exact henters
  | @finish e rest t ts hs ht =>
      have hstep : step s.tasks .finish = some (finished s.tasks t ts) := by
        rw [step, LoopSteps.finish, ht]
        rfl
      have hframes : (view s).frames = .task :: .run :: frames rest := by rw [view, hs]; rfl
      have hnext := @Drives.ends _ _ _ (frames (resume { s with
        tasks := finished s.tasks t ts
        keepRunning := s.keepRunning && !t.callback.quits } rest (following e true)).stack)
        hframes hstep
      rw [call, view.eq_def (resume ..), resume_tasks]
      refine hnext ?_
      rcases finish_stack s e rest t ts with he | he
      · rw [he]
        exact .inl (frames_run (fun e' => following_ne e e' true) rest)
      · rw [he]
        exact .inr rfl
  | call hs => exact callStep_drives hs
  | choosePlain hs | chooseTimed hs | choosePast hs =>
      exact rests_drives (call_advance hs (by simp)) rfl (by rw [hs]; rfl)
  | timeout hs => exact rests_drives rfl rfl (by rw [hs]; rfl)
  | enterWait hs hw =>
      cases hw <;> exact rests_drives (call_advance hs (by simp)) rfl (by rw [hs]; rfl)
  | leave hs hpc =>
      rcases hpc with rfl | rfl <;>
        exact rests_drives (call_advance hs (by simp)) rfl (by rw [leaveWait, hs]; rfl)

/-- The pump of a loop that is not of the windows of its thread. -/
def driver : Driver Pump Choice where
  step := pumpStep
  view := view
  call := call
  Sound _ := True
  drives _ h := ⟨trivial, moves_drives (step_moves h)⟩

end Ashe.PumpNesting
