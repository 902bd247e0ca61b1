import Ashe.WinPumpSteps

namespace Ashe.WinPumpMoves

open MessagePumpForWin WinPumpSteps

/-- The pump moves its own calls, to where no run is past its doWork. -/
structure Moved (s s' : Pump) : Prop where
  calls : s'.calls = s.calls
  tasks : s'.tasks = s.tasks
  clean : Clean s → Clean s'
  outer : Outer s → Outer s'
  notPast : Outer s → ¬ HeadPast s'.stack

def held (call : Schedule) : Nat := (scheduleHolds call).toNat

/-- Every step, by what it does to HAVE_WORK and to those who answer for it. -/
inductive Moves (s : Pump) : Label → Pump → Prop
  | calm {l : Label} {s' : Pump} (h : Calm s s') : Moves s l s'
  /-- PeekMessageW dispatches a message that was sent, wherever it has been called. -/
  | sent : Moves s .sent { s with stack := .sent :: s.stack }
  | post (quits : Bool) (delay : Int) (nestable : Bool) :
      Moves s (.post quits delay nestable) (MessagePumpForWin.post s quits delay nestable)
  | schedule {i ticket : Nat} {call : Schedule} (posted : Bool)
      (hi : s.calls[i]? = some (ticket, call)) :
      Moves s (.schedule i posted) { (scheduleWork s posted call).1 with
        calls := (scheduleWork s posted call).1.calls.set i
          (ticket, (scheduleWork s posted call).2) }
  /-- A kMsgHaveWork message is taken out of the queue to be handled. -/
  | fetch {l : Label} {s' : Pump} (hm : Moved s s') (hq : s.queue = .haveWork :: s'.queue)
      (hw : s'.workState = s.workState) (hh : holding s'.stack = holding s.stack + 1) :
      Moves s l s'
  /-- Another one is found while one is handled. -/
  | doubled {l : Label} {s' : Pump} (hq : .haveWork ∈ s.queue) (hh : 0 < holding s.stack) :
      Moves s l s'
  /-- The handling of a message takes HAVE_WORK back. -/
  | reset {l : Label} {s' : Pump} (hm : Moved s s') (hq : s'.queue = s.queue)
      (hw : s'.workState = .ready) (hh : holding s.stack = holding s'.stack + 1) : Moves s l s'
  /-- scheduleWork goes on, called by the pump itself. -/
  | advance {s' : Pump} {others : Nat} (posted : Bool) (call : Schedule) (hm : Moved s s')
      (hq : s'.queue = (scheduleWork s posted call).1.queue)
      (hw : s'.workState = (scheduleWork s posted call).1.workState)
      (hheld : holding s.stack = others + held call)
      (hh : holding s'.stack = others + held (scheduleWork s posted call).2) :
      Moves s (.advance posted) s'

@[simp] theorem scheduleWork_calls (s : Pump) (posted : Bool) (call : Schedule) :
    (scheduleWork s posted call).1.calls = s.calls := by
  cases call with
  | posting => cases posted <;> rfl
  | exchanging | unposting | returned => rfl

@[simp] theorem scheduleWork_tasks (s : Pump) (posted : Bool) (call : Schedule) :
    (scheduleWork s posted call).1.tasks = s.tasks := by
  cases call with
  | posting => cases posted <;> rfl
  | exchanging | unposting | returned => rfl

@[simp] theorem scheduleWork_stack (s : Pump) (posted : Bool) (call : Schedule) :
    (scheduleWork s posted call).1.stack = s.stack := by
  cases call with
  | posting => cases posted <;> rfl
  | exchanging | unposting | returned => rfl

section Helper

variable {s : Pump} {f : Frame} {rest : List Frame}

structure Restacked (s : Pump) (rest : List Frame) (s' : Pump) : Prop where
  calls : s'.calls = s.calls
  queue : s'.queue = s.queue
  workState : s'.workState = s.workState
  tasks : s'.tasks = s.tasks
  holding : holding s'.stack = holding rest
  clean : (∀ f ∈ rest, cleanFrame f = true) → Clean s'
  outer : (∀ f ∈ rest, lowerFrame f = true) → Outer s'
  notPast : (∀ f ∈ rest, lowerFrame f = true) → ¬ HeadPast s'.stack

theorem restacked_top {s' : Pump} (hcalls : s'.calls = s.calls) (hqueue : s'.queue = s.queue)
    (hwork : s'.workState = s.workState) (htasks : s'.tasks = s.tasks)
    (hs : s'.stack = f :: rest) (hh : frameHolds f = false) (hp : pastFrame f = false)
    (hc : cleanFrame f = true) : Restacked s rest s' := by
  refine ⟨hcalls, hqueue, hwork, htasks, ?_, fun hclean => ?_, fun ho => ?_, fun _ => ?_⟩
  · simp [WinPumpSteps.holding, hs, hh]
  · rw [Clean, hs]
    exact List.forall_mem_cons.mpr ⟨hc, hclean⟩
  · rw [Outer, hs]
    exact ho
  · rw [hs]
    exact not_headPast hp

theorem restacked_two {s' : Pump} {g : Frame} (hcalls : s'.calls = s.calls)
    (hqueue : s'.queue = s.queue) (hwork : s'.workState = s.workState)
    (htasks : s'.tasks = s.tasks) (hs : s'.stack = g :: f :: rest) (hl : lowerFrame f = true)
    (hc : cleanFrame f = true) (hh : frameHolds g = false) (hp : pastFrame g = false)
    (hc' : cleanFrame g = true) : Restacked s rest s' := by
  have hhold : frameHolds f = false := by
    rw [lowerFrame] at hl
    cases hf : frameHolds f with
    | false => rfl
    | true => simp [hf] at hl
  refine ⟨hcalls, hqueue, hwork, htasks, ?_, fun hclean => ?_, fun ho => ?_, fun _ => ?_⟩
  · simp [WinPumpSteps.holding, hs, hh, hhold]
  · rw [Clean, hs]
    exact List.forall_mem_cons.mpr ⟨hc', List.forall_mem_cons.mpr ⟨hc, hclean⟩⟩
  · rw [Outer, hs]
    exact List.forall_mem_cons.mpr ⟨hl, ho⟩
  · rw [hs]
    exact not_headPast hp

/-- A message that is dispatched meets code of the application, or the handler. -/
theorem restacked_dispatch {s' : Pump} {msg : Message} (hcalls : s'.calls = s.calls)
    (hqueue : s'.queue = s.queue) (hwork : s'.workState = s.workState)
    (htasks : s'.tasks = s.tasks) (hs : s'.stack = f :: rest) (hl : lowerFrame f = true)
    (hp : pastFrame f = false) (hh : frameHolds f = false) (hc : cleanFrame f = true) :
    Restacked s rest (dispatch s' msg) := by
  rw [dispatch]
  split
  next =>
    rw [handleTimerMessage]
    cases inRun s'.stack with
    | true =>
        exact restacked_two (g := .handler .delayed) hcalls hqueue hwork htasks (by simp [hs]) hl hc
          rfl rfl rfl
    | false => exact restacked_top hcalls hqueue hwork htasks (by simp [hs]) hh hp hc
  next => exact restacked_top hcalls hqueue hwork htasks hs hh hp hc

theorem restacked_resume (s : Pump) (rest : List Frame) {s' : Pump} (hcalls : s'.calls = s.calls)
    (hqueue : s'.queue = s.queue) (hwork : s'.workState = s.workState)
    (htasks : s'.tasks = s.tasks) (shouldQuit dispatcher : Bool) {pc : Pc}
    (hpc : frameHolds (.run false dispatcher pc) = false)
    (hp : pastFrame (.run false dispatcher pc) = false)
    (hc : cleanFrame (.run false dispatcher pc) = true) :
    Restacked s rest (resume s' shouldQuit dispatcher rest pc) := by
  rw [resume]
  cases shouldQuit with
  | true =>
      exact ⟨hcalls, hqueue, hwork, htasks, rfl, id,
        fun ho g hg => ho g (List.mem_of_mem_tail hg), not_headPast_lower⟩
  | false => exact restacked_top hcalls hqueue hwork htasks rfl hpc hp hc

def helps : Frame → Bool
  | .native _ | .sent => false
  | _ => true

theorem restacked_helper {msg : Message} (hs : s.stack = f :: rest) (hf : helps f = true)
    (hmsg : msg ≠ .haveWork) : Restacked s rest (processMessageHelper s msg) := by
  rw [processMessageHelper, hs]
  cases f with
  | native | sent => cases hf
  | run shouldQuit dispatcher pc =>
      cases msg with
      | haveWork => exact absurd rfl hmsg
      | quit =>
          dsimp only
          apply restacked_resume <;> rfl
      | timer => exact restacked_dispatch rfl rfl rfl rfl rfl rfl rfl rfl rfl
      | other => exact restacked_dispatch rfl rfl rfl rfl rfl rfl rfl rfl rfl
  | handler h =>
      cases msg with
      | haveWork => exact absurd rfl hmsg
      | quit =>
          refine ⟨rfl, rfl, rfl, rfl, ?_, fun hclean => ?_, fun ho => ?_, fun _ => ?_⟩
          · have hquit := quitRun_holding rest
            simp only [WinPumpSteps.holding] at hquit ⊢
            rw [List.countP_cons_of_neg (by simp [frameHolds]), hquit]
          · rw [Clean]
            exact List.forall_mem_cons.mpr ⟨rfl, quitRun_clean hclean⟩
          · exact quitRun_lower ho
          · exact not_headPast rfl
      | timer => exact restacked_dispatch rfl rfl rfl rfl rfl rfl rfl rfl rfl
      | other => exact restacked_dispatch rfl rfl rfl rfl rfl rfl rfl rfl rfl

theorem restacked_unreplaced (hs : s.stack = f :: rest) (hf : helps f = true) :
    Restacked s rest (unreplaced s) := by
  rw [unreplaced, hs]
  cases f with
  | native | sent => cases hf
  | run shouldQuit dispatcher pc =>
      dsimp only
      apply restacked_resume <;> rfl
  | handler h => exact restacked_top rfl rfl rfl rfl rfl rfl rfl rfl

theorem Restacked.calm {s' : Pump} (h : Restacked s rest s') (hs : s.stack = f :: rest)
    (hh : frameHolds f = false) : Calm s s' := by
  refine ⟨h.calls, by rw [h.queue], h.workState, ?_, by rw [h.tasks], .inl (by rw [h.tasks]),
    fun hclean => ?_, fun ho => ?_, fun ho hpast => ?_⟩
  · rw [h.holding]
    simp [WinPumpSteps.holding, hs, hh]
  · rw [Clean, hs] at hclean
    exact h.clean (List.forall_mem_cons.mp hclean).2
  · rw [Outer, hs] at ho
    exact h.outer ho
  · rw [Outer, hs] at ho
    exact absurd hpast (h.notPast ho)

theorem Restacked.moved {s' : Pump} (h : Restacked s rest s') (hs : s.stack = f :: rest) :
    Moved s s' := by
  refine ⟨h.calls, h.tasks, fun hclean => ?_, fun ho => ?_, fun ho => ?_⟩
  · rw [Clean, hs] at hclean
    exact h.clean (List.forall_mem_cons.mp hclean).2
  · rw [Outer, hs] at ho
    exact h.outer ho
  · rw [Outer, hs] at ho
    exact h.notPast ho

/-- The call on top goes on to a place that is not past a doWork. -/
theorem moved_top {s' : Pump} {f' : Frame} (hcalls : s'.calls = s.calls)
    (htasks : s'.tasks = s.tasks) (hs : s.stack = f :: rest) (hs' : s'.stack = f' :: rest)
    (hp : pastFrame f' = false) (hc : cleanFrame f' = true) : Moved s s' := by
  refine ⟨hcalls, htasks, fun hclean => ?_, fun ho => ?_, fun _ => ?_⟩
  · rw [Clean, hs] at hclean
    rw [Clean, hs']
    exact List.forall_mem_cons.mpr ⟨hc, (List.forall_mem_cons.mp hclean).2⟩
  · rw [Outer, hs] at ho
    rw [Outer, hs']
    exact ho
  · rw [hs']
    exact not_headPast hp

theorem holding_cons (f : Frame) (rest : List Frame) :
    holding (f :: rest) = holding rest + (frameHolds f).toNat := by
  rw [WinPumpSteps.holding, List.countP_cons]
  cases frameHolds f <;> rfl

theorem replacing_frame (r : Replace) (hf : helps f = true) :
    frameHolds (f.replacing r) = replaceHolds r ∧ cleanFrame (f.replacing r) = cleanReplace r ∧
      pastFrame (f.replacing r) = false := by
  cases f with
  | native | sent => cases hf
  | run | handler => exact ⟨rfl, rfl, rfl⟩

end Helper

section Parts

variable {s s' : Pump} {f : Frame} {rest : List Frame}

theorem agree_afterTimer (h : Agree s s') (rest : List Frame) : Agree s (afterTimer s' rest) :=
  ⟨h.calls, h.queue, h.workState, h.posted, h.incoming⟩

theorem calm_handleTimerMessage (hlower : ∀ f, s.stack.head? = some f → lowerFrame f = true) :
    Calm s (handleTimerMessage s) := by
  rw [handleTimerMessage]
  cases inRun s.stack with
  | true => exact Agree.push ⟨rfl, rfl, rfl, rfl, .inl rfl⟩ rfl hlower rfl rfl rfl
  | false => exact Agree.still ⟨rfl, rfl, rfl, rfl, .inl rfl⟩ rfl rfl

theorem moves_replacement {r : Replace} {posted : Bool} (hclean : Clean s)
    (hs : s.stack = f :: rest) (hf : helps f = true) (hh : frameHolds f = replaceHolds r)
    (hc : cleanFrame f = cleanReplace r)
    (h : processPumpReplacementMessage s f rest posted r = some s') :
    Moves s (.advance posted) s' := by
  have hr : cleanReplace r = true := by
    rw [Clean, hs] at hclean
    rw [← hc]
    exact (List.forall_mem_cons.mp hclean).1
  cases r with
  | peeking => cases h
  | resetting got =>
      have hheld : holding s.stack = holding rest + 1 := by
        rw [hs, holding_cons, hh]
        rfl
      cases got with
      | none =>
          obtain rfl := Option.some.inj h
          have hrest : Restacked { s with workState := .ready } rest
              (unreplaced { s with workState := .ready }) := restacked_unreplaced hs hf
          have hmoved : Moved { s with workState := .ready }
              (unreplaced { s with workState := .ready }) := hrest.moved hs
          refine .reset ⟨hmoved.calls, hmoved.tasks, hmoved.clean, hmoved.outer, hmoved.notPast⟩
            hrest.queue hrest.workState ?_
          rw [hrest.holding, hheld]
      | some msg =>
          obtain rfl := Option.some.inj h
          obtain ⟨hhold, hcl, hp⟩ := replacing_frame (.scheduling .exchanging msg) hf
          have hmsg : cleanFrame (f.replacing (.scheduling .exchanging msg)) = true := by
            rw [hcl]
            cases msg with
            | haveWork => cases hr
            | timer | quit | other => rfl
          refine .reset (moved_top rfl rfl hs rfl hp hmsg) rfl rfl ?_
          rw [hheld, holding_cons, hhold]
          rfl
  | scheduling call msg =>
      have hmsg : msg ≠ .haveWork := by
        rintro rfl
        cases hr
      have hheld : holding s.stack = holding rest + held call := by
        rw [hs, holding_cons, hh]
        rfl
      rw [processPumpReplacementMessage] at h
      dsimp only at h
      split at h
      next hreturned =>
        obtain rfl := Option.some.inj h
        have hrest := restacked_helper (s := (scheduleWork s posted call).1)
          ((scheduleWork_stack ..).trans hs) hf hmsg
        have hmoved := hrest.moved ((scheduleWork_stack ..).trans hs)
        refine .advance posted call ⟨hmoved.calls.trans (scheduleWork_calls ..),
          hmoved.tasks.trans (scheduleWork_tasks ..), fun hclean => ?_, fun ho => ?_,
          fun ho => ?_⟩ hrest.queue hrest.workState hheld ?_
        · exact hmoved.clean (by rwa [Clean, scheduleWork_stack])
        · exact hmoved.outer (by rwa [Outer, scheduleWork_stack])
        · exact hmoved.notPast (by rwa [Outer, scheduleWork_stack])
        · rw [hrest.holding, hreturned]
          rfl
      next =>
        obtain rfl := Option.some.inj h
        obtain ⟨hhold, hcl, hp⟩ :=
          replacing_frame (.scheduling (scheduleWork s posted call).2 msg) hf
        refine .advance posted call (moved_top (scheduleWork_calls ..) (scheduleWork_tasks ..) hs
          rfl hp ?_) rfl rfl hheld ?_
        · rw [hcl]
          cases msg with
          | haveWork => exact absurd rfl hmsg
          | timer | quit | other => rfl
        · rw [holding_cons, hhold]
          rfl

theorem moves_runStep {shouldQuit dispatcher : Bool} {pc : Pc} {posted : Bool} (hclean : Clean s)
    (hs : s.stack = .run shouldQuit dispatcher pc :: rest)
    (h : runStep s shouldQuit dispatcher rest posted pc = some s') :
    Moves s (.advance posted) s' := by
  cases pc with
  | next | dispatching | inTask | waiting => cases h
  | replacing r => exact moves_replacement hclean hs rfl rfl rfl h
  | work more =>
      rw [runStep] at h
      split at h
      next =>
        obtain rfl := Option.some.inj h
        exact .calm ((agree_workCall s).top hs hs rfl rfl id)
      next =>
        obtain rfl := Option.some.inj h
        have hagree := agree_workCall s
        exact .calm ((hagree.stack _).top hs rfl rfl rfl (fun _ => rfl))
      next didWork hout =>
        obtain rfl := Option.some.inj h
        obtain ⟨rfl, hnone⟩ := doWork_returns hout
        refine .calm ((agree_workCall s).resumePast hs rfl rfl rfl fun ha => .inr ?_)
        rw [workCall, LoopSteps.take_loop] at ha ⊢
        exact hnone ha
  | delayed more =>
      rw [runStep] at h
      split at h
      next => cases h
      next =>
        obtain rfl := Option.some.inj h
        have hagree := agree_delayedCall s
        exact .calm ((hagree.stack _).top hs rfl rfl rfl (fun _ => rfl))
      next didWork hout =>
        obtain rfl := Option.some.inj h
        obtain ⟨rfl, hkept⟩ := doDelayedWork_returns hout
        have hagree := agree_delayedCall s
        refine .calm ?_
        rw [afterDelayed, Bool.or_false]
        cases more with
        | true =>
            rw [if_pos rfl]
            refine (hagree.timer _).resume hs rfl ?_ ?_ ?_ <;> rfl
        | false =>
            rw [if_neg Bool.false_ne_true]
            refine (hagree.timer _).resumePast hs rfl ?_ ?_ fun ha => .inl ⟨rfl, ?_⟩
            · rfl
            · rfl
            · rw [← hkept]
              simpa only [delayedCall, LoopSteps.take_loop] using ha
  | idle =>
      rw [runStep] at h
      split at h
      next => cases h
      next =>
        obtain rfl := Option.some.inj h
        have hagree := agree_idleCall s
        exact .calm ((hagree.stack _).top hs rfl rfl rfl (fun _ => rfl))
      next didWork hout =>
        obtain rfl := Option.some.inj h
        obtain ⟨rfl, hkept⟩ := doIdleWork_returns hout
        refine .calm ((agree_idleCall s).resumePast hs rfl rfl rfl fun ha => .inl ⟨rfl, ?_⟩)
        rw [← hkept]
        simpa only [idleCall, LoopSteps.take_loop] using ha

theorem moves_handlerStep {h : Handler} {posted : Bool} (hclean : Clean s)
    (hs : s.stack = .handler h :: rest) (hstep : handlerStep s rest posted h = some s') :
    Moves s (.advance posted) s' := by
  cases h with
  | dispatching | inWork | inDelayed => cases hstep
  | replacing r => exact moves_replacement hclean hs rfl rfl rfl hstep
  | outside =>
      obtain rfl := Option.some.inj hstep
      refine .reset ⟨rfl, rfl, fun hclean => ?_, fun ho => ?_, fun ho => ?_⟩ rfl rfl ?_
      · rw [Clean, hs] at hclean
        exact (List.forall_mem_cons.mp hclean).2
      · rw [Outer, hs] at ho
        exact fun g hg => ho g (List.mem_of_mem_tail hg)
      · rw [Outer, hs] at ho
        exact not_headPast_lower ho
      · rw [hs, holding_cons]
        rfl
  | work =>
      rw [handlerStep] at hstep
      have hagree := agree_workCall s
      split at hstep
      next =>
        obtain rfl := Option.some.inj hstep
        exact .calm (hagree.top hs hs rfl rfl id)
      next =>
        obtain rfl := Option.some.inj hstep
        exact .calm ((hagree.stack _).top hs rfl rfl rfl (fun _ => rfl))
      next didWork hout =>
        obtain rfl := Option.some.inj hstep
        obtain ⟨rfl, -⟩ := doWork_returns hout
        exact .calm ((hagree.stack _).pop hs rfl rfl)
  | scheduling call =>
      have hheld : holding s.stack = holding rest + held call := by
        rw [hs, holding_cons]
        rfl
      have hnext : { (scheduleWork s posted call).1 with
          stack := if (scheduleWork s posted call).2 = .returned then rest
            else .handler (.scheduling (scheduleWork s posted call).2) :: rest } = s' :=
        Option.some.inj hstep
      subst hnext
      by_cases hreturned : (scheduleWork s posted call).2 = .returned
      · simp only [hreturned, if_true]
        refine .advance posted call ⟨scheduleWork_calls .., scheduleWork_tasks .., fun hclean => ?_,
          fun ho => ?_, fun ho => ?_⟩ rfl rfl hheld ?_
        · rw [Clean, hs] at hclean
          exact (List.forall_mem_cons.mp hclean).2
        · rw [Outer, hs] at ho
          exact fun g hg => ho g (List.mem_of_mem_tail hg)
        · rw [Outer, hs] at ho
          exact not_headPast_lower ho
        · rw [hreturned]
          rfl
      · simp only [hreturned, if_false]
        exact .advance posted call (moved_top (scheduleWork_calls ..) (scheduleWork_tasks ..) hs
          rfl rfl rfl) rfl rfl hheld (holding_cons _ _)
  | delayed =>
      rw [handlerStep] at hstep
      have hagree := agree_delayedCall s
      split at hstep
      next => cases hstep
      next =>
        obtain rfl := Option.some.inj hstep
        exact .calm ((hagree.stack _).top hs rfl rfl rfl (fun _ => rfl))
      next =>
        obtain rfl := Option.some.inj hstep
        exact .calm ((agree_afterTimer hagree _).pop hs rfl rfl)

theorem finishTask_agree (h : finishTask s = some s') : Agree s s' ∧
    (s'.stack = s.stack ∨ s'.stack = quitRun s.stack) := by
  rw [finishTask] at h
  split at h
  next => cases h
  next t ts hact =>
    obtain ⟨tasks, htasks, rfl⟩ := Option.map_eq_some_iff.mp h
    obtain ⟨t, rest, -, rfl⟩ := LoopSteps.finish_some htasks
    refine ⟨⟨rfl, rfl, rfl, rfl, .inl rfl⟩, ?_⟩
    dsimp only
    split
    next => exact .inr rfl
    next => exact .inl rfl

theorem finishTask_run {shouldQuit dispatcher : Bool} {pc : Pc}
    (h : s'.stack = s.stack ∨ s'.stack = quitRun s.stack)
    (hs : s.stack = .run shouldQuit dispatcher pc :: rest) :
    ∃ quit, s'.stack = .run quit dispatcher pc :: rest := by
  rcases h with h | h
  · exact ⟨shouldQuit, h.trans hs⟩
  · rw [hs] at h
    exact ⟨true, h⟩

theorem finishTask_handler {c : Handler} (h : s'.stack = s.stack ∨ s'.stack = quitRun s.stack)
    (hs : s.stack = .handler c :: rest) :
    s'.stack.tail = rest ∨ s'.stack.tail = quitRun rest := by
  rcases h with h | h <;> rw [h, hs]
  · exact .inl rfl
  · exact .inr rfl

theorem calm_leaveTask {e : Executor} {s₁ : Pump} (hfin : finishTask s = some s₁)
    (h : (match s₁.stack with
      | .run shouldQuit dispatcher _ :: rest => match e with
        | .doWork => some (resume s₁ shouldQuit dispatcher rest (.delayed true))
        | .doDelayedWork => some (afterDelayed s₁ shouldQuit dispatcher rest true)
        | .doIdleWork => some (resume s₁ shouldQuit dispatcher rest .next)
      | _ => none) = some s') {shouldQuit dispatcher : Bool}
    (hs : s.stack = .run shouldQuit dispatcher (.inTask e) :: rest) : Calm s s' := by
  obtain ⟨hagree, hquit⟩ := finishTask_agree hfin
  obtain ⟨quit, hstack⟩ := finishTask_run hquit hs
  rw [hstack] at h
  cases e with
  | doWork | doIdleWork =>
      obtain rfl := Option.some.inj h
      exact hagree.resume hs rfl rfl rfl rfl
  | doDelayedWork =>
      obtain rfl := Option.some.inj h
      rw [afterDelayed, if_pos rfl]
      exact (hagree.timer _).resume hs rfl rfl rfl rfl

theorem calm_leave {keep : Bool} (h : leave s keep = some s') : Calm s s' := by
  rw [leave] at h
  split at h
  next shouldQuit dispatcher msg rest hs =>
    obtain rfl := Option.some.inj h
    exact (Agree.refl s).resume hs rfl rfl rfl rfl
  next shouldQuit dispatcher e rest hs =>
    obtain ⟨s₁, hfin, h⟩ := Option.bind_eq_some_iff.mp h
    exact calm_leaveTask hfin h hs
  next rest hs =>
    obtain rfl := Option.some.inj h
    exact ((Agree.refl s).stack _).top hs rfl rfl rfl id
  next rest hs =>
    obtain rfl := Option.some.inj h
    exact ((Agree.refl s).stack _).pop hs rfl rfl
  next msg rest hs =>
    obtain rfl := Option.some.inj h
    cases hasDispatcher rest && !keep with
    | true => exact ((Agree.refl s).stack _).topQuit hs rfl rfl rfl rfl
    | false => exact ((Agree.refl s).stack _).top hs rfl rfl rfl (fun _ => rfl)
  next rest hs =>
    obtain ⟨s₁, hfin, h⟩ := Option.bind_eq_some_iff.mp h
    obtain ⟨hagree, hquit⟩ := finishTask_agree hfin
    obtain rfl := Option.some.inj h
    rcases finishTask_handler hquit hs with htail | htail <;> rw [htail]
    · exact (hagree.stack _).top hs rfl rfl rfl (fun _ => rfl)
    · exact (hagree.stack _).topQuit hs rfl rfl rfl rfl
  next rest hs =>
    obtain ⟨s₁, hfin, h⟩ := Option.bind_eq_some_iff.mp h
    obtain ⟨hagree, hquit⟩ := finishTask_agree hfin
    obtain rfl := Option.some.inj h
    rcases finishTask_handler hquit hs with htail | htail <;> rw [htail]
    · exact (agree_afterTimer hagree _).pop hs rfl rfl
    · exact (agree_afterTimer hagree _).popQuit hs rfl rfl
  next => cases h

theorem peekMessage_spec {got : Option Message} (h : peekMessage s got = some s') :
    s'.stack = s.stack ∧ s'.tasks = s.tasks ∧ s'.workState = s.workState ∧ s'.calls = s.calls ∧
      if got = some .haveWork then s.queue = .haveWork :: s'.queue
      else s'.queue.count .haveWork = s.queue.count .haveWork := by
  rw [peekMessage.eq_def] at h
  split at h
  next =>
    split at h
    next =>
      obtain rfl := Option.some.inj h
      exact ⟨rfl, rfl, rfl, rfl, rfl⟩
    next => cases h
  next =>
    split at h
    next =>
      obtain rfl := Option.some.inj h
      exact ⟨rfl, rfl, rfl, rfl, rfl⟩
    next => cases h
  next =>
    split at h
    next =>
      obtain rfl := Option.some.inj h
      exact ⟨rfl, rfl, rfl, rfl, rfl⟩
    next => cases h
  next msg _ _ =>
    split at h
    next => cases h
    next first queue hq =>
      split at h
      next hfirst =>
        obtain rfl := Option.some.inj h
        refine ⟨rfl, rfl, rfl, rfl, ?_⟩
        subst hfirst
        split
        next hwork => rw [hq, Option.some.inj hwork]
        next hother =>
          rw [hq, List.count_cons_of_ne]
          rintro rfl
          exact hother rfl
      next => cases h

theorem calm_congr {s₁ : Pump} (h : Calm s₁ s') (hstack : s₁.stack = s.stack)
    (htasks : s₁.tasks = s.tasks) (hwork : s₁.workState = s.workState)
    (hcalls : s₁.calls = s.calls)
    (hqueue : s₁.queue.count .haveWork = s.queue.count .haveWork) : Calm s s' := by
  refine ⟨h.calls.trans hcalls, h.queue.trans hqueue, h.workState.trans hwork, ?_, ?_, ?_, ?_, ?_,
    ?_⟩
  · rw [h.holding, hstack]
  · rw [h.posted, htasks]
  · rw [← htasks]
    exact h.incoming
  · rw [Clean, ← hstack]
    exact h.clean
  · rw [Outer, ← hstack]
    exact h.outer
  · rw [Outer, ← hstack, ← htasks]
    exact h.past

theorem clean_resetting {got : Option Message} (hgot : got ≠ some .haveWork) :
    cleanReplace (.resetting got) = true := by
  cases got with
  | none => rfl
  | some msg => cases msg with
    | haveWork => exact absurd rfl hgot
    | timer | quit | other => rfl

theorem calm_peeked {got : Option Message} {sent : Bool} (hgot : got ≠ some .haveWork)
    (h : peeked s got sent = some s') : Calm s s' := by
  rw [peeked.eq_def] at h
  split at h
  next hs =>
    obtain rfl := Option.some.inj h
    exact (Agree.refl s).resume hs rfl rfl rfl rfl
  next hs =>
    obtain rfl := Option.some.inj h
    refine (restacked_helper hs rfl ?_).calm hs rfl
    rintro rfl
    exact hgot rfl
  next hs =>
    obtain rfl := Option.some.inj h
    exact ((Agree.refl s).stack _).top hs rfl rfl rfl fun _ => clean_resetting hgot
  next hs =>
    obtain rfl := Option.some.inj h
    exact ((Agree.refl s).stack _).top hs rfl rfl rfl fun _ => clean_resetting hgot
  next => exact absurd rfl hgot
  next hs =>
    obtain rfl := Option.some.inj h
    refine calm_handleTimerMessage fun f hf => ?_
    rw [hs] at hf
    obtain rfl := Option.some.inj hf
    rfl
  next hs =>
    obtain rfl := Option.some.inj h
    exact ((Agree.refl s).stack _).top hs rfl rfl rfl (fun _ => rfl)
  next => cases h

/-- A kMsgHaveWork message is found by a loop, or while one is handled. -/
theorem moves_peeked {l : Label} {s₁ : Pump} {sent : Bool} (hstack : s₁.stack = s.stack)
    (htasks : s₁.tasks = s.tasks) (hwork : s₁.workState = s.workState)
    (hcalls : s₁.calls = s.calls) (hqueue : s.queue = .haveWork :: s₁.queue)
    (h : peeked s₁ (some .haveWork) sent = some s') : Moves s l s' := by
  rw [peeked.eq_def] at h
  split at h
  next heq => cases heq
  next shouldQuit dispatcher rest msg hs heq =>
    cases heq
    obtain rfl := Option.some.inj h
    rw [hstack] at hs
    rw [processMessageHelper, hstack, hs]
    refine .fetch (moved_top hcalls htasks hs rfl rfl rfl) hqueue hwork ?_
    rw [hs, holding_cons, holding_cons]
    rfl
  next hs =>
    rw [hstack] at hs
    refine .doubled (by simp [hqueue]) ?_
    rw [hs, holding_cons]
    exact Nat.succ_pos _
  next hs =>
    rw [hstack] at hs
    refine .doubled (by simp [hqueue]) ?_
    rw [hs, holding_cons]
    exact Nat.succ_pos _
  next rest hs heq =>
    obtain rfl := Option.some.inj h
    rw [hstack] at hs
    have hlower : ∀ f, s.stack.head? = some f → lowerFrame f = true := by
      intro f hf
      rw [hs] at hf
      obtain rfl := Option.some.inj hf
      rfl
    rw [handleWorkMessage, hstack]
    refine .fetch ⟨hcalls, htasks, fun hclean => ?_, fun ho => ?_, fun _ => ?_⟩ hqueue hwork ?_
    · refine List.forall_mem_cons.mpr ⟨?_, hclean⟩
      cases inRun s.stack <;> rfl
    · exact forall_stack ho hlower
    · exact not_headPast (by rfl)
    · rw [holding_cons]
      cases inRun s.stack <;> rfl
  next heq => cases heq
  next heq => cases heq
  next => cases h

theorem calm_deliver (h : deliver s = some s') : Calm s s' := by
  have hhandled : (∀ f, s.stack.head? = some f → lowerFrame f = true) ∧
      s' = handleTimerMessage s := by
    rw [deliver] at h
    split at h
    next hs =>
      obtain rfl := Option.some.inj h
      refine ⟨fun f hf => ?_, rfl⟩
      rw [hs] at hf
      obtain rfl := Option.some.inj hf
      rfl
    next hs =>
      split at h
      next =>
        obtain rfl := Option.some.inj h
        refine ⟨fun f hf => ?_, rfl⟩
        rw [hs] at hf
        obtain rfl := Option.some.inj hf
        rfl
      next => cases h
    next => cases h
  rw [hhandled.2]
  exact calm_handleTimerMessage hhandled.1

theorem lower_appRuns (h : appRuns s.stack = true) :
    ∀ f, s.stack.head? = some f → lowerFrame f = true := by
  intro f hf
  obtain ⟨rest, hs⟩ := List.head?_eq_some_iff.mp hf
  rw [hs] at h
  exact lowerFrame_appRuns h

theorem calm_quit (h : appRuns s.stack = true) : Calm s { s with stack := quitRun s.stack } := by
  have hlower := lower_appRuns h
  refine ⟨rfl, rfl, rfl, quitRun_holding _, rfl, .inl rfl, quitRun_clean, fun ho => ?_,
    fun ho hpast => ?_⟩
  · exact fun f hf => quitRun_lower (forall_stack ho hlower) f (List.mem_of_mem_tail hf)
  · exact absurd hpast (not_headPast_lower (quitRun_lower (forall_stack ho hlower)))

end Parts

/-- All that a step can do, from a state in which no replacement is a kMsgHaveWork. -/
theorem step_moves {s s' : Pump} {l : Label} (hclean : Clean s) (h : step s l = some s') :
    Moves s l s' := by
  cases l with
  | tick d =>
      obtain rfl := Option.some.inj h
      exact .calm (Agree.still ⟨rfl, rfl, rfl, rfl, .inl rfl⟩ rfl rfl)
  | post quits delay nestable =>
      obtain rfl := Option.some.inj h
      exact .post quits delay nestable
  | schedule i posted =>
      rw [step] at h
      split at h
      next => cases h
      next ticket call hi =>
        obtain rfl := Option.some.inj h
        exact .schedule posted hi
  | postOther =>
      obtain rfl := Option.some.inj h
      refine .calm (Agree.still ⟨rfl, ?_, rfl, rfl, .inl rfl⟩ rfl rfl)
      simp [List.count_append]
  | postQuit =>
      obtain rfl := Option.some.inj h
      exact .calm (Agree.still ⟨rfl, rfl, rfl, rfl, .inl rfl⟩ rfl rfl)
  | run dispatcher =>
      rw [step] at h
      split at h
      next happ =>
        obtain rfl := Option.some.inj h
        exact .calm (((Agree.refl s).stack _).push rfl (lower_appRuns happ) rfl rfl rfl)
      next => cases h
  | native =>
      rw [step] at h
      split at h
      next happ =>
        obtain rfl := Option.some.inj h
        exact .calm (((Agree.refl s).stack _).push rfl (lower_appRuns happ) rfl rfl rfl)
      next => cases h
  | endNative =>
      rw [step] at h
      split at h
      next hs =>
        obtain rfl := Option.some.inj h
        exact .calm (((Agree.refl s).stack _).pop hs rfl rfl)
      next => cases h
  | quit =>
      rw [step] at h
      split at h
      next happ =>
        obtain rfl := Option.some.inj h
        exact .calm (calm_quit happ.1)
      next => cases h
  | sent =>
      rw [step] at h
      split at h
      next =>
        obtain rfl := Option.some.inj h
        exact .sent
      next => cases h
  | peek got sent =>
      obtain ⟨s₁, hpeek, hpeeked⟩ := Option.bind_eq_some_iff.mp h
      obtain ⟨hstack, htasks, hwork, hcalls, hqueue⟩ := peekMessage_spec hpeek
      split at hqueue
      next hgot =>
        subst hgot
        exact moves_peeked hstack htasks hwork hcalls hqueue hpeeked
      next hgot =>
        exact .calm (calm_congr (calm_peeked hgot hpeeked) hstack htasks hwork hcalls hqueue)
  | deliver => exact .calm (calm_deliver h)
  | advance posted =>
      rw [step, advance] at h
      split at h
      next hs => exact moves_runStep hclean hs h
      next hs => exact moves_handlerStep hclean hs h
      next => cases h
  | leave keep => exact .calm (calm_leave h)
  | wake sent =>
      rw [step] at h
      split at h
      next hs =>
        split at h
        next =>
          obtain rfl := Option.some.inj h
          exact .calm (((Agree.refl s).stack _).top hs rfl rfl rfl id)
        next => cases h
      next => cases h

end Ashe.WinPumpMoves
