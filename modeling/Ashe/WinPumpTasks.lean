import Ashe.LoopDrivers
import Ashe.WinPumpMoves

namespace Ashe.WinPumpTasks

open LoopDrivers hiding Frame
open LoopSteps hiding Label step
open MessagePumpForWin hiding post
open WinPumpMoves Runs

/-- A task has been started by a run, or by the window procedure of messageWindow_. -/
def frames : List Frame → List LoopDrivers.Frame
  | [] => []
  | .run _ _ (.inTask _) :: rest => .task :: .run :: frames rest
  | .run _ _ _ :: rest => .run :: frames rest
  | .handler .inWork :: rest | .handler .inDelayed :: rest => .task :: frames rest
  | _ :: rest => frames rest

def view (s : Pump) : Driven := ⟨s.tasks, frames s.stack⟩

def call (s : Pump) : Label → Option LoopSteps.Label
  | .tick d => some (.tick d)
  | .post quits delay nestable => some (.post quits delay nestable)
  | .advance _ => match s.stack with
    | .run _ _ (.work _) :: _ | .handler .work :: _ => some .doWork
    | .run _ _ (.delayed _) :: _ | .handler .delayed :: _ => some .doDelayedWork
    | .run _ _ .idle :: _ => some .doIdleWork
    | _ => none
  | .leave _ => match s.stack with
    | .run _ _ (.inTask _) :: _ | .handler .inWork :: _ | .handler .inDelayed :: _ => some .finish
    | _ => none
  | _ => none

/-- The window procedure goes on behind its test of state_ only in a run. -/
def Within : List Frame → Prop
  | [] => True
  | .handler h :: rest => (h = .outside ∨ .run ∈ frames rest) ∧ Within rest
  | _ :: rest => Within rest

theorem Within.inRun {c : Handler} {rest : List Frame} (hw : Within (.handler c :: rest))
    (hne : c ≠ .outside) : .run ∈ frames rest :=
  hw.1.resolve_left hne

theorem inRun_frames {stack : List Frame} (h : inRun stack = true) : .run ∈ frames stack := by
  induction stack with
  | nil => cases h
  | cons f rest ih =>
      cases f with
      | run shouldQuit dispatcher pc => cases pc <;> simp [frames]
      | native | sent => exact ih h
      | handler c =>
          have hrest := ih h
          cases c <;> first | exact hrest | exact List.mem_cons_of_mem _ hrest

theorem frames_quitRun (stack : List Frame) : frames (quitRun stack) = frames stack := by
  induction stack with
  | nil => rfl
  | cons f rest ih =>
      cases f with
      | run shouldQuit dispatcher pc => cases pc <;> rfl
      | native | sent => exact ih
      | handler c => cases c <;> first | exact ih | exact congrArg (List.cons _) ih

theorem within_quitRun {stack : List Frame} (h : Within stack) : Within (quitRun stack) := by
  induction stack with
  | nil => exact h
  | cons f rest ih =>
      cases f with
      | run shouldQuit dispatcher pc => exact h
      | native | sent => exact ih h
      | handler c =>
          refine ⟨?_, ih h.2⟩
          rw [frames_quitRun]
          exact h.1

/-- The pump moves its own calls: its loop stays as it is, and a run may return. -/
structure Goes (s : Pump) (fs : List LoopDrivers.Frame) (s' : Pump) : Prop where
  tasks : s'.tasks = s.tasks
  frames : Returned fs (frames s'.stack)
  within : Within s'.stack

section Helper

variable {s s' : Pump} {f : Frame} {rest : List Frame}

theorem Goes.drives (h : Goes s (WinPumpTasks.frames s.stack) s') :
    Within s'.stack ∧ Drives (view s) none (view s') := by
  refine ⟨h.within, ?_⟩
  rw [view.eq_def s', h.tasks]
  exact .rests h.frames

theorem frames_run {pc : Pc} (hpc : ∀ e, pc ≠ .inTask e) (shouldQuit dispatcher : Bool)
    (rest : List Frame) : frames (.run shouldQuit dispatcher pc :: rest) = .run :: frames rest := by
  cases pc with
  | inTask e => exact absurd rfl (hpc e)
  | next | replacing | dispatching | work | delayed | idle | waiting => rfl

theorem goes_resume (s : Pump) (hw : Within rest) (shouldQuit dispatcher : Bool) (pc : Pc)
    (hpc : ∀ e, pc ≠ .inTask e) :
    Goes s (.run :: frames rest) (resume s shouldQuit dispatcher rest pc) := by
  rw [resume]
  cases shouldQuit with
  | true => exact ⟨rfl, .inr rfl, hw⟩
  | false => exact ⟨rfl, .inl (frames_run hpc ..), hw⟩

theorem goes_afterDelayed (s : Pump) (hw : Within rest) (shouldQuit dispatcher more : Bool) :
    Goes s (.run :: frames rest) (afterDelayed s shouldQuit dispatcher rest more) := by
  rw [afterDelayed]
  obtain ⟨htasks, hframes, hwithin⟩ := goes_resume
    { s with timerSet := s.timerSet && !(more && s.delayedWorkTime == 0) } hw shouldQuit dispatcher
    (if more then .next else .idle) (by cases more <;> simp)
  exact ⟨htasks, hframes, hwithin⟩

theorem goes_handleTimerMessage (hw : Within s.stack) :
    Goes s (frames s.stack) (handleTimerMessage s) := by
  rw [handleTimerMessage]
  cases hrun : inRun s.stack with
  | true => exact ⟨rfl, .inl rfl, .inr (inRun_frames hrun), hw⟩
  | false => exact ⟨rfl, .inl rfl, hw⟩

theorem goes_dispatch (hw : Within s.stack) (msg : Message) :
    Goes s (frames s.stack) (dispatch s msg) := by
  rw [dispatch]
  split
  next => exact goes_handleTimerMessage hw
  next => exact ⟨rfl, .inl rfl, hw⟩

def helping : Frame → Bool
  | .run _ _ .next | .run _ _ (.replacing _) | .handler (.replacing _) => true
  | _ => false

theorem goes_helper (hs : s.stack = f :: rest) (hw : Within s.stack) (hf : helping f = true)
    (msg : Message) : Goes s (frames s.stack) (processMessageHelper s msg) := by
  rw [hs] at hw
  rw [processMessageHelper.eq_def, hs]
  cases f with
  | native | sent => cases hf
  | run shouldQuit dispatcher pc =>
      have hpc : ∀ e, pc ≠ .inTask e := by
        rintro e rfl
        cases hf
      rw [frames_run hpc]
      cases msg with
      | quit =>
          obtain ⟨htasks, hframes, hwithin⟩ := goes_resume { s with quitPosted := true }
            (show Within rest from hw) true dispatcher (.work false) (by simp)
          exact ⟨htasks, hframes, hwithin⟩
      | haveWork => exact ⟨rfl, .inl rfl, hw⟩
      | timer | other =>
          obtain ⟨htasks, hframes, hwithin⟩ := goes_dispatch (s := { s with
            stack := .run shouldQuit dispatcher (.dispatching _) :: rest }) hw _
          exact ⟨htasks, hframes, hwithin⟩
  | handler c =>
      obtain ⟨r, rfl⟩ : ∃ r, c = .replacing r := by
        cases c with
        | replacing r => exact ⟨r, rfl⟩
        | outside | dispatching | work | inWork | scheduling | delayed | inDelayed => cases hf
      have hrun : .run ∈ frames rest := hw.inRun (by simp)
      cases msg with
      | quit =>
          refine ⟨rfl, .inl (frames_quitRun rest), .inr ?_, within_quitRun hw.2⟩
          rw [frames_quitRun]
          exact hrun
      | haveWork => exact ⟨rfl, .inl rfl, .inr hrun, hw.2⟩
      | timer | other =>
          obtain ⟨htasks, hframes, hwithin⟩ := goes_dispatch (s := { s with
            stack := .handler (.dispatching _) :: rest }) ⟨.inr hrun, hw.2⟩ _
          exact ⟨htasks, hframes, hwithin⟩

theorem goes_unreplaced (hs : s.stack = f :: rest) (hw : Within s.stack) (hf : helping f = true) :
    Goes s (frames s.stack) (unreplaced s) := by
  rw [hs] at hw
  rw [unreplaced.eq_def, hs]
  cases f with
  | native | sent => cases hf
  | run shouldQuit dispatcher pc =>
      have hpc : ∀ e, pc ≠ .inTask e := by
        rintro e rfl
        cases hf
      rw [frames_run hpc]
      exact goes_resume s (show Within rest from hw) shouldQuit dispatcher (.work false) (by simp)
  | handler c =>
      cases c with
      | replacing r => exact ⟨rfl, .inl rfl, .inr (hw.inRun (by simp)), hw.2⟩
      | outside | dispatching | work | inWork | scheduling | delayed | inDelayed => cases hf

theorem replacing_goes (hs : s.stack = f :: rest) (hw : Within s.stack) (hf : helping f = true)
    (r : Replace) : frames (f.replacing r :: rest) = frames s.stack ∧
      Within (f.replacing r :: rest) := by
  rw [hs] at hw ⊢
  cases f with
  | native | sent => cases hf
  | run shouldQuit dispatcher pc =>
      cases pc with
      | next | replacing => exact ⟨rfl, hw⟩
      | dispatching | work | delayed | idle | inTask | waiting => cases hf
  | handler c =>
      cases c with
      | replacing => exact ⟨rfl, .inr (hw.inRun (by simp)), hw.2⟩
      | outside | dispatching | work | inWork | scheduling | delayed | inDelayed => cases hf

theorem goes_replacement {posted : Bool} {r : Replace} (hs : s.stack = f :: rest)
    (hw : Within s.stack) (hf : helping f = true)
    (h : processPumpReplacementMessage s f rest posted r = some s') :
    Goes s (frames s.stack) s' := by
  cases r with
  | peeking => cases h
  | resetting got =>
      cases got with
      | none =>
          obtain rfl := Option.some.inj h
          obtain ⟨htasks, hframes, hwithin⟩ :=
            goes_unreplaced (s := { s with workState := .ready }) hs hw hf
          exact ⟨htasks, hframes, hwithin⟩
      | some msg =>
          obtain rfl := Option.some.inj h
          obtain ⟨hframes, hwithin⟩ := replacing_goes hs hw hf (.scheduling .exchanging msg)
          exact ⟨rfl, .inl hframes, hwithin⟩
  | scheduling call msg =>
      rw [processPumpReplacementMessage] at h
      dsimp only at h
      split at h
      next =>
        obtain rfl := Option.some.inj h
        have hstack := scheduleWork_stack s posted call
        obtain ⟨htasks, hframes, hwithin⟩ := goes_helper (s := (scheduleWork s posted call).1)
          (hstack.trans hs) (hstack ▸ hw) hf msg
        rw [hstack] at hframes
        exact ⟨htasks.trans (scheduleWork_tasks ..), hframes, hwithin⟩
      next =>
        obtain rfl := Option.some.inj h
        obtain ⟨hframes, hwithin⟩ :=
          replacing_goes hs hw hf (.scheduling (scheduleWork s posted call).2 msg)
        exact ⟨scheduleWork_tasks .., .inl hframes, hwithin⟩

end Helper

section Calls

variable {s s' : Pump} {rest : List Frame} {posted : Bool}

theorem call_drives {l : LoopSteps.Label} {c : MessageLoop.Call} (hcall : Calls (frames s.stack) l)
    (hstep : LoopSteps.step s.tasks l = some (take s.tasks c)) (htasks : s'.tasks = take s.tasks c)
    (hframes : (∃ t, c.outcome = .runs t ∧ frames s'.stack = .task :: frames s.stack) ∨
      (∀ t, c.outcome ≠ .runs t) ∧ Returned (frames s.stack) (frames s'.stack)) :
    Drives (view s) (some l) (view s') := by
  have hstarts := starts_take s.tasks c
  rw [view.eq_def s', htasks]
  rcases hframes with ⟨t, ht, hframes⟩ | ⟨hno, hframes⟩
  · rw [ht] at hstarts
    rw [hframes]
    exact .starts hcall hstep fun hnil => absurd (hstarts.symm.trans hnil) (by simp)
  · refine .returns hcall hstep (hstarts.trans ?_) hframes
    cases hout : c.outcome with
    | runs t => exact absurd hout (hno t)
    | again | returns => rfl

theorem runStep_drives {shouldQuit dispatcher : Bool} {pc : Pc} (hw : Within s.stack)
    (hs : s.stack = .run shouldQuit dispatcher pc :: rest)
    (h : runStep s shouldQuit dispatcher rest posted pc = some s') :
    Within s'.stack ∧ Drives (view s) (call s (.advance posted)) (view s') := by
  have hrest : Within rest := by
    rw [hs] at hw
    exact hw
  cases pc with
  | next | dispatching | inTask | waiting => cases h
  | replacing r =>
      rw [call, hs]
      exact (goes_replacement hs hw rfl h).drives
  | work more =>
      have hcall : Calls (frames s.stack) .doWork := by
        rw [hs]
        exact List.mem_cons_self
      rw [call, hs]
      rw [runStep] at h
      split at h
      next hout =>
        obtain rfl := Option.some.inj h
        exact ⟨hw, call_drives hcall rfl rfl (.inr ⟨by simp [hout], .inl rfl⟩)⟩
      next t hout =>
        obtain rfl := Option.some.inj h
        exact ⟨hrest, call_drives hcall rfl rfl (.inl ⟨t, hout, by rw [hs]; rfl⟩)⟩
      next didWork hout =>
        obtain rfl := Option.some.inj h
        obtain ⟨htasks, hframes, hwithin⟩ := goes_resume (workCall s) hrest shouldQuit dispatcher
          (.delayed (more || didWork)) (by simp)
        exact ⟨hwithin, call_drives hcall rfl htasks
          (.inr ⟨by simp [hout], by rw [hs]; exact hframes⟩)⟩
  | delayed more =>
      have hcall : Calls (frames s.stack) .doDelayedWork := by
        rw [hs]
        exact List.mem_cons_self
      rw [call, hs]
      rw [runStep] at h
      split at h
      next => cases h
      next t hout =>
        obtain rfl := Option.some.inj h
        exact ⟨hrest, call_drives hcall rfl rfl (.inl ⟨t, hout, by rw [hs]; rfl⟩)⟩
      next didWork hout =>
        obtain rfl := Option.some.inj h
        obtain ⟨htasks, hframes, hwithin⟩ := goes_afterDelayed (delayedCall s) hrest shouldQuit
          dispatcher (more || didWork)
        exact ⟨hwithin, call_drives hcall rfl htasks
          (.inr ⟨by simp [hout], by rw [hs]; exact hframes⟩)⟩
  | idle =>
      have hcall : Calls (frames s.stack) .doIdleWork := by
        rw [hs]
        rfl
      rw [call, hs]
      rw [runStep] at h
      split at h
      next => cases h
      next t hout =>
        obtain rfl := Option.some.inj h
        exact ⟨hrest, call_drives hcall rfl rfl (.inl ⟨t, hout, by rw [hs]; rfl⟩)⟩
      next didWork hout =>
        obtain rfl := Option.some.inj h
        obtain ⟨htasks, hframes, hwithin⟩ := goes_resume (idleCall s) hrest shouldQuit dispatcher
          (if didWork then .next else .waiting) (by cases didWork <;> simp)
        exact ⟨hwithin, call_drives hcall rfl htasks
          (.inr ⟨by simp [hout], by rw [hs]; exact hframes⟩)⟩

theorem handlerStep_drives {c : Handler} (hw : Within s.stack) (hs : s.stack = .handler c :: rest)
    (h : handlerStep s rest posted c = some s') :
    Within s'.stack ∧ Drives (view s) (call s (.advance posted)) (view s') := by
  have hrest : Within rest := by
    rw [hs] at hw
    exact hw.2
  have hrun (hne : c ≠ .outside) : .run ∈ frames rest := by
    rw [hs] at hw
    exact hw.inRun hne
  cases c with
  | dispatching | inWork | inDelayed => cases h
  | outside =>
      obtain rfl := Option.some.inj h
      rw [call, hs]
      exact Goes.drives ⟨rfl, .inl (by rw [hs]; rfl), hrest⟩
  | replacing r =>
      rw [call, hs]
      exact (goes_replacement hs hw rfl h).drives
  | work =>
      have hrun := hrun (by simp)
      have hcall : Calls (frames s.stack) .doWork := by
        rw [hs]
        exact hrun
      rw [call, hs]
      rw [handlerStep] at h
      split at h
      next hout =>
        obtain rfl := Option.some.inj h
        exact ⟨hw, call_drives hcall rfl rfl (.inr ⟨by simp [hout], .inl rfl⟩)⟩
      next t hout =>
        obtain rfl := Option.some.inj h
        exact ⟨⟨.inr hrun, hrest⟩,
          call_drives hcall rfl rfl (.inl ⟨t, hout, by rw [hs]; rfl⟩)⟩
      next didWork hout =>
        obtain rfl := Option.some.inj h
        refine ⟨?_, call_drives hcall rfl rfl (.inr ⟨by simp [hout], .inl ?_⟩)⟩
        · cases didWork with
          | true => exact ⟨.inr hrun, hrest⟩
          | false => exact hrest
        · rw [hs]
          cases didWork <;> rfl
  | scheduling call =>
      have hnext : { (scheduleWork s posted call).1 with
          stack := if (scheduleWork s posted call).2 = .returned then rest
            else .handler (.scheduling (scheduleWork s posted call).2) :: rest } = s' :=
        Option.some.inj h
      subst hnext
      rw [WinPumpTasks.call, hs]
      refine Goes.drives ⟨scheduleWork_tasks .., .inl ?_, ?_⟩
      · rw [hs]
        dsimp only
        split <;> rfl
      · dsimp only
        split
        next => exact hrest
        next => exact ⟨.inr (hrun (by simp)), hrest⟩
  | delayed =>
      have hrun := hrun (by simp)
      have hcall : Calls (frames s.stack) .doDelayedWork := by
        rw [hs]
        exact hrun
      rw [call, hs]
      rw [handlerStep] at h
      split at h
      next => cases h
      next t hout =>
        obtain rfl := Option.some.inj h
        exact ⟨⟨.inr hrun, hrest⟩,
          call_drives hcall rfl rfl (.inl ⟨t, hout, by rw [hs]; rfl⟩)⟩
      next hout =>
        obtain rfl := Option.some.inj h
        exact ⟨hrest, call_drives hcall rfl rfl
          (.inr ⟨by simp [hout], .inl (by rw [hs]; rfl)⟩)⟩

theorem finishTask_finish (h : finishTask s = some s') :
    LoopSteps.step s.tasks .finish = some s'.tasks := by
  rw [finishTask] at h
  split at h
  next => cases h
  next =>
    obtain ⟨tasks, htasks, rfl⟩ := Option.map_eq_some_iff.mp h
    exact htasks

theorem ends_handler (s' : Pump) {c : Handler} {s₁ : Pump} (hw : Within s.stack)
    (hs : s.stack = .handler c :: rest) (hframes : frames s.stack = .task :: frames rest)
    (hfin : finishTask s = some s₁) (htasks : s'.tasks = s₁.tasks)
    (hstack : frames s'.stack = frames s₁.stack.tail) :
    Within s₁.stack.tail ∧ frames s₁.stack.tail = frames rest ∧
      Drives (view s) (some .finish) (view s') := by
  rw [hs] at hw
  have hkept : Within s₁.stack.tail ∧ frames s₁.stack.tail = frames rest := by
    rcases finishTask_handler (finishTask_agree hfin).2 hs with htail | htail
    · rw [htail]
      exact ⟨hw.2, rfl⟩
    · rw [htail]
      exact ⟨within_quitRun hw.2, frames_quitRun rest⟩
  refine ⟨hkept.1, hkept.2, ?_⟩
  rw [view.eq_def s', htasks, hstack, hkept.2]
  exact .ends hframes (finishTask_finish hfin) (.inl rfl)

theorem leave_drives {keep : Bool} (hw : Within s.stack) (h : leave s keep = some s') :
    Within s'.stack ∧ Drives (view s) (call s (.leave keep)) (view s') := by
  rw [leave] at h
  split at h
  next shouldQuit dispatcher msg rest hs =>
    obtain rfl := Option.some.inj h
    rw [call, hs]
    rw [hs] at hw
    refine Goes.drives ?_
    rw [hs]
    exact goes_resume s (show Within rest from hw) _ dispatcher (.work true) (by simp)
  next shouldQuit dispatcher e rest hs =>
    obtain ⟨s₁, hfin, h⟩ := Option.bind_eq_some_iff.mp h
    obtain ⟨quit, hstack⟩ := finishTask_run (finishTask_agree hfin).2 hs
    have hrest : Within rest := by
      rw [hs] at hw
      exact hw
    have hgoes : Goes s₁ (.run :: frames rest) s' := by
      rw [hstack] at h
      cases e with
      | doWork | doIdleWork =>
          obtain rfl := Option.some.inj h
          exact goes_resume s₁ hrest quit dispatcher _ (by simp)
      | doDelayedWork =>
          obtain rfl := Option.some.inj h
          exact goes_afterDelayed s₁ hrest quit dispatcher true
    have hframes : (view s).frames = .task :: .run :: frames rest := by
      rw [view, hs]
      rfl
    rw [call, hs]
    refine ⟨hgoes.within, ?_⟩
    rw [view.eq_def s', hgoes.tasks]
    exact .ends hframes (finishTask_finish hfin) hgoes.frames
  next rest hs =>
    obtain rfl := Option.some.inj h
    rw [call, hs]
    rw [hs] at hw
    exact Goes.drives ⟨rfl, .inl (by rw [hs]; rfl), hw⟩
  next rest hs =>
    obtain rfl := Option.some.inj h
    rw [call, hs]
    rw [hs] at hw
    exact Goes.drives ⟨rfl, .inl (by rw [hs]; rfl), hw⟩
  next msg rest hs =>
    obtain rfl := Option.some.inj h
    rw [call, hs]
    rw [hs] at hw
    have hrun : .run ∈ frames rest := hw.inRun (by simp)
    cases hasDispatcher rest && !keep with
    | true =>
        refine Goes.drives ⟨rfl, .inl ?_, .inr ?_, within_quitRun hw.2⟩
        · rw [hs]
          exact frames_quitRun rest
        · exact frames_quitRun rest ▸ hrun
    | false => exact Goes.drives ⟨rfl, .inl (by rw [hs]; rfl), .inr hrun, hw.2⟩
  next rest hs =>
    obtain ⟨s₁, hfin, h⟩ := Option.bind_eq_some_iff.mp h
    obtain rfl := Option.some.inj h
    rw [call, hs]
    obtain ⟨htail, hframes, hdrives⟩ := ends_handler { s₁ with
      stack := .handler (.scheduling .exchanging) :: s₁.stack.tail } hw hs (by rw [hs]; rfl) hfin
      rfl rfl
    refine ⟨⟨.inr ?_, htail⟩, hdrives⟩
    rw [hs] at hw
    rw [hframes]
    exact hw.inRun (by simp)
  next rest hs =>
    obtain ⟨s₁, hfin, h⟩ := Option.bind_eq_some_iff.mp h
    obtain rfl := Option.some.inj h
    rw [call, hs]
    obtain ⟨htail, -, hdrives⟩ := ends_handler (afterTimer s₁ s₁.stack.tail) hw hs
      (by rw [hs]; rfl) hfin rfl rfl
    exact ⟨htail, hdrives⟩
  next => cases h

theorem goes_peeked {got : Option Message} {sent : Bool} (hw : Within s.stack)
    (h : peeked s got sent = some s') : Goes s (frames s.stack) s' := by
  have hall := hw
  rw [peeked.eq_def] at h
  split at h
  next shouldQuit dispatcher rest hs =>
    obtain rfl := Option.some.inj h
    rw [hs] at hw ⊢
    exact goes_resume s (show Within rest from hw) shouldQuit dispatcher (.work sent) (by simp)
  next hs =>
    obtain rfl := Option.some.inj h
    exact goes_helper hs hw rfl _
  next hs =>
    obtain rfl := Option.some.inj h
    rw [hs] at hw ⊢
    exact ⟨rfl, .inl rfl, hw⟩
  next hs =>
    obtain rfl := Option.some.inj h
    rw [hs] at hw ⊢
    exact ⟨rfl, .inl rfl, .inr (hw.inRun (by simp)), hw.2⟩
  next =>
    obtain rfl := Option.some.inj h
    rw [handleWorkMessage]
    cases hrun : inRun s.stack with
    | true => exact ⟨rfl, .inl rfl, .inr (inRun_frames hrun), hall⟩
    | false => exact ⟨rfl, .inl rfl, .inl rfl, hall⟩
  next =>
    obtain rfl := Option.some.inj h
    exact goes_handleTimerMessage hall
  next hs =>
    obtain rfl := Option.some.inj h
    rw [hs] at hw ⊢
    exact ⟨rfl, .inl rfl, hw⟩
  next => cases h

end Calls

theorem step_drives {s s' : Pump} {l : Label} (hw : Within s.stack) (h : step s l = some s') :
    Within s'.stack ∧ Drives (view s) (call s l) (view s') := by
  cases l with
  | tick d =>
      obtain rfl := Option.some.inj h
      exact ⟨hw, .ticks d⟩
  | post quits delay nestable =>
      obtain rfl := Option.some.inj h
      exact ⟨hw, .posts quits delay nestable⟩
  | postOther | postQuit =>
      obtain rfl := Option.some.inj h
      exact Goes.drives ⟨rfl, .inl rfl, hw⟩
  | schedule i posted =>
      rw [step] at h
      split at h
      next => cases h
      next ticket call hi =>
        obtain rfl := Option.some.inj h
        have hstack := scheduleWork_stack s posted call
        exact Goes.drives ⟨scheduleWork_tasks .., .inl (congrArg frames hstack),
          (congrArg Within hstack).mpr hw⟩
  | run dispatcher =>
      rw [step] at h
      split at h
      next =>
        obtain rfl := Option.some.inj h
        exact ⟨hw, .enters⟩
      next => cases h
  | native | sent =>
      rw [step] at h
      split at h
      next =>
        obtain rfl := Option.some.inj h
        exact Goes.drives ⟨rfl, .inl rfl, hw⟩
      next => cases h
  | endNative =>
      rw [step] at h
      split at h
      next rest hs =>
        obtain rfl := Option.some.inj h
        rw [hs] at hw
        exact Goes.drives ⟨rfl, .inl (by rw [hs]; rfl), hw⟩
      next => cases h
  | quit =>
      rw [step] at h
      split at h
      next =>
        obtain rfl := Option.some.inj h
        exact Goes.drives ⟨rfl, .inl (frames_quitRun _), within_quitRun hw⟩
      next => cases h
  | peek got sent =>
      obtain ⟨s₁, hpeek, hpeeked⟩ := Option.bind_eq_some_iff.mp h
      obtain ⟨hstack, htasks, -⟩ := peekMessage_spec hpeek
      obtain ⟨htasks', hframes, hwithin⟩ := goes_peeked (hstack ▸ hw) hpeeked
      rw [hstack] at hframes
      exact Goes.drives ⟨htasks'.trans htasks, hframes, hwithin⟩
  | deliver =>
      rw [step, deliver] at h
      split at h
      next =>
        obtain rfl := Option.some.inj h
        exact (goes_handleTimerMessage hw).drives
      next =>
        split at h
        next =>
          obtain rfl := Option.some.inj h
          exact (goes_handleTimerMessage hw).drives
        next => cases h
      next => cases h
  | advance posted =>
      rw [step, advance] at h
      split at h
      next hs => exact runStep_drives hw hs h
      next hs => exact handlerStep_drives hw hs h
      next => cases h
  | leave keep => exact leave_drives hw h
  | wake sent =>
      rw [step] at h
      split at h
      next hs =>
        split at h
        next =>
          obtain rfl := Option.some.inj h
          rw [hs] at hw
          exact Goes.drives ⟨rfl, .inl (by rw [hs]; rfl), hw⟩
        next => cases h
      next => cases h

/-- The pump of a loop that works off the messages of the windows of its thread. -/
def driver : Driver Pump Label where
  step := step
  view := view
  call := call
  Sound s := Within s.stack
  drives := step_drives

/-- The pump does to its message loop what some driver of the loop could do, whatever
loops of Windows, dispatchers and window procedures run in between: the immediate tasks
start in the order of their posts, and none is dropped or started twice. -/
theorem pump_drives_loop (now : Tasks.TimePoint) {s : Pump} (h : Reachable step (idlePump now) s) :
    Reachable LoopSteps.step (LoopSteps.initial now) s.tasks ∧ LoopSteps.Ordered s.tasks := by
  have hloop := (driver.reachable (s := idlePump now) trivial h).2
  exact ⟨hloop, LoopSteps.reachable_ordered hloop⟩

def modalTask : List Label :=
  [.postOther, .run false, .peek (some .other) false, .native, .post false 0 true,
    .schedule 0 true, .schedule 0 true, .peek (some .haveWork) false, .peek none false,
    .advance true, .advance true, .leave true]

theorem pump_drives_loop_modal :
    ((exec step (idlePump 1) modalTask).map fun s => s.tasks.executed.map Tasks.ticket) =
      some [0] ∧
    ∀ s, exec step (idlePump 1) modalTask = some s →
      Reachable LoopSteps.step (LoopSteps.initial 1) s.tasks ∧ LoopSteps.Ordered s.tasks :=
  ⟨by decide +kernel, fun _ h => pump_drives_loop 1 ⟨_, h⟩⟩

end Ashe.WinPumpTasks
