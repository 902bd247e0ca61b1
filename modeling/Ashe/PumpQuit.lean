import Ashe.LoopHeld
import Ashe.PumpSleep

namespace Ashe.PumpQuit

open Tasks MessageLoop LoopCalls LoopSteps LoopHeld MessagePumpDefault PumpSteps PumpNesting
open PumpSleep Runs

theorem delegateCall_from (s : State) (e : Executor) :
    ∀ t ∈ held (take s (delegateCall s.loop s.now e)), From s t := by
  cases e with
  | doWork => exact take_doWork_from s
  | doDelayedWork => exact take_doDelayedWork_from s
  | doIdleWork => exact take_doIdleWork_from s

/-- The quit closure is only ever posted as a nestable task without delay. -/
def QuitsImmediate (s : State) : Prop := ∀ t ∈ held s, t.callback.quits = true → immediate t = true

theorem QuitsImmediate.of_from {s s' : State} (h : QuitsImmediate s)
    (hfrom : ∀ t ∈ held s', From s t) : QuitsImmediate s' := by
  intro t ht hq
  obtain ⟨u, hu, k, rfl⟩ := hfrom t ht
  exact h u hu hq

theorem post_quitsImmediate {s : State} (h : QuitsImmediate s) {quits : Bool} {delay : Int}
    {nestable : Bool} (hq : quits = true → delay = 0 ∧ nestable = true) :
    QuitsImmediate (post s quits delay nestable) := by
  intro t ht hqt
  have hmem : t ∈ held s ∨
      t = ⟨⟨s.posted.length, quits⟩, 0, calculateDelayedRuntime s.now delay, nestable⟩ := by
    simp only [held, pending, post, addToIncomingQueue, List.mem_append, List.mem_singleton] at ht ⊢
    tauto
  rcases hmem with hmem | rfl
  · exact h t hmem hqt
  · obtain ⟨rfl, rfl⟩ := hq hqt
    rfl

theorem moves_quitsImmediate {s s' : Pump} {l : Choice} (h : QuitsImmediate s.tasks)
    (hm : Moves s l s') : QuitsImmediate s'.tasks := by
  cases hm with
  | post => exact post_quitsImmediate h (by simp)
  | postQuit => exact post_quitsImmediate h (by simp)
  | finish hs ht =>
      rw [resume_tasks]
      intro t hmem
      refine h t ?_
      rw [mem_held] at hmem ⊢
      rw [ht]
      exact hmem.imp_right (Or.imp_right (Or.imp_right (List.mem_cons_of_mem _)))
  | call =>
      rw [callStep_tasks]
      exact h.of_from (delegateCall_from s.tasks _)
  | tick | signal | notify | run | nestedRun | quit | choosePlain | chooseTimed | choosePast
    | enterWait | leave | wake | timeout => exact h

theorem callStep_keeps {s : Pump} (h : s.keepRunning = true) (e : Executor) (rest : List Pc) :
    (callStep s e rest).keepRunning = true ∧ (callStep s e rest).stack ≠ [] := by
  rw [callStep]
  dsimp only
  split
  next => exact ⟨h, by simp⟩
  next => exact ⟨h, by simp⟩
  next => simp [resume, h]

/-- What holds while no task calls run or quit. -/
structure Undisturbed (s : Pump) : Prop where
  flat : Flat s
  keepRunning : s.keepRunning = true
  started : s.tasks.started = s.tasks.executed ++ s.tasks.active
  quits : QuitsImmediate s.tasks
  ordered : Ordered s.tasks

theorem take_started (s : State) (c : Call) (hs : s.started = s.executed ++ s.active)
    (ha : s.active = []) : (take s c).started = (take s c).executed ++ (take s c).active := by
  rw [take]
  cases c.outcome <;> simp [hs, ha]

theorem moves_started {s s' : Pump} {l : Choice} (h : Undisturbed s) (hm : Moves s l s') :
    s'.tasks.started = s'.tasks.executed ++ s'.tasks.active := by
  cases hm with
  | @finish e rest t ts hs ht =>
      rw [resume_tasks]
      simp only [finished, h.started, ht, List.append_assoc, List.singleton_append]
  | call hs =>
      rw [callStep_tasks]
      exact take_started _ _ h.started (h.flat.between hs (by simp)).2
  | tick | post | postQuit | signal | notify | run | nestedRun | quit | choosePlain | chooseTimed
    | choosePast | enterWait | leave | wake | timeout => exact h.started

theorem moves_keepRunning {s s' : Pump} {l : Choice} (h : s.keepRunning = true) (hl : l ≠ .quit)
    (hm : Moves s l s') : s'.keepRunning = true := by
  cases hm with
  | quit => exact absurd rfl hl
  | call => exact (callStep_keeps h _ _).1
  | finish =>
      rw [resume]
      split
      next hk => exact hk
      next => rfl
  | tick | post | postQuit | signal | notify | run | nestedRun | choosePlain | chooseTimed
    | choosePast | enterWait | leave | wake | timeout => exact h

theorem moves_undisturbed {s s' : Pump} {l : Choice} (h : Undisturbed s) (hn : l ≠ .nestedRun)
    (hl : l ≠ .quit) (hs : pumpStep s l = some s') : Undisturbed s' := by
  have hm := step_moves hs
  refine ⟨moves_flat h.flat hn hm, moves_keepRunning h.keepRunning hl hm, moves_started h hm,
    moves_quitsImmediate h.quits hm, (moves_drives hm).ordered h.ordered⟩

/-- When run returns, the quit task is the last one executed, the immediate
tasks posted before it have all been executed, and none posted after it has. -/
def QuitInTurn (s : State) : Prop :=
  ∃ quitTask before after, quitTask.callback.quits = true ∧
    s.posted.filter immediate = before ++ quitTask :: after ∧
    s.executed.filter immediate = before ++ [quitTask] ∧ s.started = s.executed

theorem woken_ne_nil {stack : List Pc} (h : woken stack = []) : stack = [] := by
  rw [← List.length_eq_zero_iff] at h ⊢
  rwa [woken_length] at h

theorem moves_returns {s s' : Pump} {l : Choice} (h : Undisturbed s) (h' : Undisturbed s')
    (hm : Moves s l s') (hs : s.stack ≠ []) (hs' : s'.stack = []) : QuitInTurn s'.tasks := by
  cases hm with
  | tick | post | postQuit | signal | quit => exact absurd hs' hs
  | notify | wake => exact absurd (woken_ne_nil hs') hs
  | run | nestedRun | choosePlain | chooseTimed | choosePast | enterWait | leave | timeout =>
      cases hs'
  | call => exact absurd hs' (callStep_keeps h.keepRunning _ _).2
  | @finish e rest t ts hst ht =>
      obtain ⟨-, rfl⟩ := h.flat.finish hst ht
      have hq : t.callback.quits = true := by
        by_contra hq
        rw [Bool.not_eq_true] at hq
        simp [resume, h.keepRunning, hq] at hs'
      have hi : immediate t = true := h.quits t (mem_held.mpr (by simp [ht])) hq
      have hfifo := h'.ordered.fifo
      rw [h'.started] at hfifo
      rw [resume_tasks] at hfifo ⊢
      refine ⟨t, s.tasks.executed.filter immediate,
        (pending (finishTask s.tasks.loop)).filter immediate, hq, ?_⟩
      simp only [finished, List.filter_append, List.filter_cons_of_pos hi, List.filter_nil,
        List.append_nil] at hfifo ⊢
      refine ⟨?_, trivial, ?_⟩
      · simpa only [List.append_assoc, List.singleton_append] using hfifo
      · rw [h.started, ht]

theorem idlePump_undisturbed (now : TimePoint) : Undisturbed (idlePump now) :=
  ⟨idlePump_flat now, rfl, rfl,
    by simp [QuitsImmediate, held, idlePump, initial, emptyLoop, pending], initial_ordered now⟩

/-- In every run the immediate tasks start in the order of their posts, and none
of them is lost or repeated. If no task calls run or quit, then each return of
run finds the quit task's turn in that order just over. -/
theorem immediate_tasks_start_in_order (now : TimePoint) (ls : List Choice) :
    Along pumpStep (fun _ _ s' => (s'.tasks.posted.map ticket).Nodup ∧
      s'.tasks.posted.filter immediate = s'.tasks.started.filter immediate ++
        (s'.tasks.loop.workQueue ++ s'.tasks.loop.incomingQueue).filter immediate)
      (idlePump now) ls ∧
    (.nestedRun ∉ ls → .quit ∉ ls →
      Along pumpStep (fun s _ s' => s.stack ≠ [] → s'.stack = [] → QuitInTurn s'.tasks)
        (idlePump now) ls) := by
  constructor
  · apply along_of_step (I := fun s => Ordered s.tasks) _ (initial_ordered now)
    intro s l s' ho hs
    have ho' : Ordered s'.tasks := (moves_drives (step_moves hs)).ordered ho
    exact ⟨ho', ho'.tickets ▸ List.nodup_range, ho'.fifo⟩
  · intro hn hq
    have hguard : Along pumpStep (fun _ l _ => l ≠ .nestedRun ∧ l ≠ .quit) (idlePump now) ls :=
      along_of_labels (Q := fun l => l ≠ Choice.nestedRun ∧ l ≠ Choice.quit)
        (fun l hl => ⟨fun he => hn (he ▸ hl), fun he => hq (he ▸ hl)⟩)
    refine along_of_invariant (I := Undisturbed) ?_ (idlePump_undisturbed now) hguard
    rintro s l s' h ⟨hl, hl'⟩ hs
    have h' := moves_undisturbed h hl hl' hs
    exact ⟨h', moves_returns h h' (step_moves hs)⟩

def quitBetween : List Choice :=
  [.post 0 0 true, .run, .advance, .postQuit 1, .post 2 0 true, .finish, .advance, .advance,
    .finish]

theorem immediate_tasks_start_in_order_quit :
    Along pumpStep (fun s _ s' => s.stack ≠ [] → s'.stack = [] → QuitInTurn s'.tasks)
      (idlePump 1) quitBetween ∧
    ((exec pumpStep (idlePump 1) quitBetween).map
      (fun s => (s.stack, s.tasks.executed.map ticket))) = some ([], [0, 1]) :=
  ⟨(immediate_tasks_start_in_order 1 quitBetween).2 (by decide) (by decide), by decide +kernel⟩

end Ashe.PumpQuit
