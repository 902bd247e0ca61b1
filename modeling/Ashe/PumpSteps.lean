import Ashe.MessagePumpDefault

namespace Ashe.PumpSteps

open Tasks MessageLoop LoopCalls LoopSteps MessagePumpDefault Runs

def finished (s : State) (t : PendingTask) (ts : List PendingTask) : State :=
  { s with loop := finishTask s.loop, active := ts, executed := s.executed ++ [t] }

/-- The pcs that lead into a wait, with what run has tested under the lock. -/
inductive EntersWait (s : Pump) : Pc → Pc → Prop
  | plain (hw : s.haveWork = false) : EntersWait s .lockWait .waiting
  | timed : EntersWait s .lockTimedWait .timedWaiting
  | again (hw : s.haveWork = false) (hd : 0 < delayLeft s) :
      EntersWait s .timedWoken .timedWaiting

/-- Everything a step of the loop, its pump and its posters can do. -/
inductive Moves (s : Pump) :
    Choice → Pump → Prop
  | tick (d : Nat) : Moves s (.tick d) { s with tasks := { s.tasks with now := s.tasks.now + d } }
  | post {p : Nat} (delay : Int) (nestable : Bool) (hp : s.posters p = .idle) :
      Moves s (.post p delay nestable) (postBy s p false delay nestable)
  | postQuit {p : Nat} (hp : s.posters p = .idle) : Moves s (.postQuit p) (postBy s p true 0 true)
  | signal {p k : Nat} (hp : s.posters p = .enqueued k) :
      Moves s (.signal p) { s with
        haveWork := true, posters := Function.update s.posters p (.stored k)
        signalled := k :: s.signalled }
  | notify {p k : Nat} (hp : s.posters p = .stored k) :
      Moves s (.notify p) { s with
        stack := woken s.stack, posters := Function.update s.posters p .idle
        scheduled := k :: s.scheduled }
  | run (hs : s.stack = []) : Moves s .run { s with stack := [.call .doWork] }
  | nestedRun {e : Executor} {rest : List Pc} (hs : s.stack = .inTask e :: rest) :
      Moves s .nestedRun { s with stack := .call .doWork :: .inTask e :: rest }
  | quit (hr : runningTask s = true) : Moves s .quit { s with keepRunning := false }
  | finish {e : Executor} {rest : List Pc} {t : PendingTask} {ts : List PendingTask}
      (hs : s.stack = .inTask e :: rest) (ht : s.tasks.active = t :: ts) :
      Moves s .finish (resume { s with
        tasks := finished s.tasks t ts
        keepRunning := s.keepRunning && !t.callback.quits } rest (following e true))
  | call {e : Executor} {rest : List Pc} (hs : s.stack = .call e :: rest) :
      Moves s .advance (callStep s e rest)
  | choosePlain {rest : List Pc} (hs : s.stack = .chooseWait :: rest)
      (hd : s.delayedWorkTime = 0) : Moves s .advance { s with stack := .lockWait :: rest }
  | chooseTimed {rest : List Pc} (hs : s.stack = .chooseWait :: rest)
      (hd : s.delayedWorkTime ≠ 0) : Moves s .advance { s with stack := .lockTimedWait :: rest }
  | choosePast {rest : List Pc} (hs : s.stack = .chooseWait :: rest) :
      Moves s .advance { s with delayedWorkTime := 0, stack := .call .doWork :: rest }
  | enterWait {pc pc' : Pc} {rest : List Pc} (hs : s.stack = pc :: rest)
      (hw : EntersWait s pc pc') : Moves s .advance { s with stack := pc' :: rest }
  | leave {pc : Pc} {rest : List Pc} (hs : s.stack = pc :: rest)
      (hpc : pc = .lockWait ∨ pc = .timedWoken) : Moves s .advance (leaveWait s rest)
  | wake : Moves s .wake { s with stack := woken s.stack }
  | timeout {rest : List Pc} (hs : s.stack = .timedWaiting :: rest) :
      Moves s .timeout (leaveWait s rest)

theorem runningTask_stack {s : Pump} (h : runningTask s = true) :
    ∃ e rest, s.stack = .inTask e :: rest := by
  rw [runningTask] at h
  split at h
  next e rest t ts hs ht => exact ⟨e, rest, hs⟩
  next => exact absurd h (by simp)

theorem finishStep_moves {s s' : Pump} (h : finishStep s = some s') :
    Moves s .finish s' := by
  rw [finishStep] at h
  split at h
  next e rest t ts hs ht =>
    rw [LoopSteps.finish, ht] at h
    obtain rfl := Option.some.inj h
    exact .finish hs ht
  next => exact absurd h (by simp)

theorem advance_moves {s s' : Pump} (h : advance s = some s') :
    Moves s .advance s' := by
  rw [advance] at h
  split at h
  next e rest hs => obtain rfl := Option.some.inj h; exact .call hs
  next rest hs =>
    split at h
    next hd => obtain rfl := Option.some.inj h; exact .choosePlain hs hd
    next hd =>
      split at h
      next => obtain rfl := Option.some.inj h; exact .chooseTimed hs hd
      next => obtain rfl := Option.some.inj h; exact .choosePast hs
  next rest hs =>
    split at h
    next hw => obtain rfl := Option.some.inj h; exact .leave hs (.inl rfl)
    next hw => obtain rfl := Option.some.inj h; exact .enterWait hs (.plain (by simpa using hw))
  next rest hs => obtain rfl := Option.some.inj h; exact .enterWait hs .timed
  next rest hs =>
    split at h
    next hw => obtain rfl := Option.some.inj h; exact .leave hs (.inr rfl)
    next hw =>
      split at h
      next hd =>
        obtain rfl := Option.some.inj h
        exact .enterWait hs (.again (by simpa using hw) hd)
      next => obtain rfl := Option.some.inj h; exact .leave hs (.inr rfl)
  next => exact absurd h (by simp)

theorem step_moves {s s' : Pump} {l : Choice}
    (h : pumpStep s l = some s') : Moves s l s' := by
  cases l with
  | tick d => obtain rfl := Option.some.inj h; exact .tick d
  | finish => exact finishStep_moves h
  | advance => exact advance_moves h
  | post p delay nestable =>
      simp only [pumpStep] at h
      split at h
      next hp => obtain rfl := Option.some.inj h; exact .post delay nestable hp
      next => exact absurd h (by simp)
  | postQuit p =>
      simp only [pumpStep] at h
      split at h
      next hp => obtain rfl := Option.some.inj h; exact .postQuit hp
      next => exact absurd h (by simp)
  | signal p =>
      simp only [pumpStep] at h
      split at h
      next k hp => obtain rfl := Option.some.inj h; exact .signal hp
      next => exact absurd h (by simp)
  | notify p =>
      simp only [pumpStep] at h
      split at h
      next k hp => obtain rfl := Option.some.inj h; exact .notify hp
      next => exact absurd h (by simp)
  | run =>
      simp only [pumpStep] at h
      split at h
      next hs => obtain rfl := Option.some.inj h; exact .run hs
      next => exact absurd h (by simp)
  | nestedRun =>
      simp only [pumpStep] at h
      split at h
      next hr =>
        obtain ⟨e, rest, hs⟩ := runningTask_stack hr
        obtain rfl := Option.some.inj h
        rw [hs]
        exact .nestedRun hs
      next => exact absurd h (by simp)
  | quit =>
      simp only [pumpStep] at h
      split at h
      next hr => obtain rfl := Option.some.inj h; exact .quit hr
      next => exact absurd h (by simp)
  | wake =>
      simp only [pumpStep] at h
      split at h
      next => exact absurd h (by simp)
      next => obtain rfl := Option.some.inj h; exact .wake
  | timeout =>
      simp only [pumpStep] at h
      split at h
      next rest hs => obtain rfl := Option.some.inj h; exact .timeout hs
      next => exact absurd h (by simp)

@[simp] theorem resume_tasks (s : Pump) (rest : List Pc) (pc : Pc) :
    (resume s rest pc).tasks = s.tasks := by
  rw [resume]; split <;> rfl

@[simp] theorem callStep_tasks (s : Pump) (e : Executor) (rest : List Pc) :
    (callStep s e rest).tasks = take s.tasks (delegateCall s.tasks.loop s.tasks.now e) := by
  rw [callStep]
  dsimp only
  split
  next => rfl
  next => rfl
  next => rw [resume_tasks]

theorem delegateCall_again {m : Loop} {now : TimePoint} {e : Executor}
    (ho : (delegateCall m now e).outcome = .again) : e = .doWork := by
  cases e with
  | doWork => rfl
  | doDelayedWork before =>
      have hw := doDelayedWork_works m now
      simp only [delegateCall] at ho
      generalize doDelayedWork m now = c at hw ho
      cases hw <;> cases ho
  | doIdleWork =>
      have hw := doIdleWork_works m
      simp only [delegateCall] at ho
      generalize doIdleWork m = c at hw ho
      cases hw <;> cases ho

inductive CallsTo (s : Pump) (e : Executor) (rest : List Pc) : List Pc → Prop
  | stops {didWork : Bool}
      (ho : (delegateCall s.tasks.loop s.tasks.now e).outcome = .returns didWork) :
      CallsTo s e rest rest
  | runs {t : PendingTask}
      (ho : (delegateCall s.tasks.loop s.tasks.now e).outcome = .runs t) :
      CallsTo s e rest (.inTask e :: rest)
  | again (ho : (delegateCall s.tasks.loop s.tasks.now e).outcome = .again) :
      CallsTo s e rest (.call e :: rest)
  | returns {didWork : Bool}
      (ho : (delegateCall s.tasks.loop s.tasks.now e).outcome = .returns didWork) :
      CallsTo s e rest (following e didWork :: rest)

theorem callStep_stack (s : Pump) (e : Executor) (rest : List Pc) :
    CallsTo s e rest (callStep s e rest).stack := by
  rw [callStep]
  dsimp only
  split
  next t ho => exact .runs ho
  next ho => exact .again ho
  next didWork ho =>
    rw [resume]
    split
    next => exact .returns ho
    next => exact .stops ho

theorem resume_stack (s : Pump) (rest : List Pc) (pc : Pc) :
    (resume s rest pc).stack = pc :: rest ∨ (resume s rest pc).stack = rest := by
  rw [resume]
  split
  next => exact .inl rfl
  next => exact .inr rfl

/-- After a task run goes on where the executor left it, or returns. -/
theorem finish_stack (s : Pump) (e : Executor) (rest : List Pc) (t : PendingTask)
    (ts : List PendingTask) : (resume { s with
      tasks := finished s.tasks t ts
      keepRunning := s.keepRunning && !t.callback.quits } rest (following e true)).stack =
        following e true :: rest ∨
    (resume { s with
      tasks := finished s.tasks t ts
      keepRunning := s.keepRunning && !t.callback.quits } rest (following e true)).stack = rest :=
  resume_stack _ rest (following e true)

/-- Below the innermost activation of run there are only tasks that called run. -/
def Outer (s : Pump) : Prop := ∀ pc ∈ s.stack.tail, ∃ e, pc = .inTask e

theorem woken_tail (stack : List Pc) : (woken stack).tail = stack.tail := by
  rw [woken.eq_def]; split <;> rfl

theorem Outer.rest {s : Pump} (h : Outer s) {pc : Pc} {rest : List Pc} (hs : s.stack = pc :: rest) :
    ∀ pc ∈ rest, ∃ e, pc = .inTask e := by
  intro p hp
  exact h p (by rw [hs]; exact hp)

theorem moves_outer {s s' : Pump} {l : Choice} (h : Outer s) (hm : Moves s l s') : Outer s' := by
  cases hm with
  | tick | post | postQuit | signal | quit => exact h
  | notify | wake => intro p hp; exact h p (by rwa [woken_tail] at hp)
  | run => intro p hp; simp at hp
  | nestedRun hs =>
      intro p hp
      rcases List.mem_cons.mp hp with rfl | hp
      · exact ⟨_, rfl⟩
      · exact h.rest hs p hp
  | @finish e rest t ts hs ht =>
      intro p hp
      rcases finish_stack s e rest t ts with he | he
      · rw [he] at hp; exact h.rest hs p hp
      · rw [he] at hp; exact h.rest hs p (List.mem_of_mem_tail hp)
  | @call e rest hs =>
      have hc := callStep_stack s e rest
      intro p hp
      generalize (callStep s e rest).stack = stack at hc hp
      cases hc with
      | stops => exact h.rest hs p (List.mem_of_mem_tail hp)
      | runs | again | returns => exact h.rest hs p hp
  | choosePlain hs | chooseTimed hs | choosePast hs | enterWait hs | leave hs | timeout hs =>
      intro p hp
      exact h.rest hs p hp

/-- A wait starts only where run blocks on event_, and blocking changes nothing else. -/
theorem waits_enters {s s' : Pump} (h : Outer s) (hm : Moves s .advance s') (hw : Waits s') :
    ∃ pc pc' rest, s.stack = pc :: rest ∧ EntersWait s pc pc' ∧
      s' = { s with stack := pc' :: rest } := by
  cases hm with
  | @call e rest hs =>
      have hc := callStep_stack s e rest
      rw [Waits] at hw
      generalize (callStep s e rest).stack = stack at hc hw
      cases hc with
      | stops =>
          refine absurd hw ?_
          rintro (hw | hw) <;> obtain ⟨e, he⟩ := h.rest hs _ (List.mem_of_head? hw) <;> cases he
      | runs | again => simp at hw
      | @returns didWork ho =>
          cases e <;> cases didWork <;> simp [following] at hw
  | choosePlain | chooseTimed | choosePast | leave => simp [Waits, leaveWait] at hw
  | enterWait hs he => exact ⟨_, _, _, hs, he, rfl⟩

end Ashe.PumpSteps
