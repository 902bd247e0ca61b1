import Ashe.Crowd
import Ashe.MessagePumpForWin

namespace Ashe.WinPumpSteps

open Tasks MessageLoop LoopCalls LoopSteps MessagePumpForWin

/-- The caller has set HAVE_WORK and neither posted the message nor taken the flag back. -/
def scheduleHolds : Schedule → Bool
  | .posting | .unposting => true
  | .exchanging | .returned => false

/-- A kMsgHaveWork message is out of the queue and HAVE_WORK not yet taken back. -/
def replaceHolds : Replace → Bool
  | .peeking | .resetting _ => true
  | .scheduling call _ => scheduleHolds call

def frameHolds : Frame → Bool
  | .run _ _ (.replacing r) | .handler (.replacing r) => replaceHolds r
  | .handler (.scheduling call) => scheduleHolds call
  | .handler .outside => true
  | _ => false

def holding (stack : List Frame) : Nat := stack.countP frameHolds

/-- The run is between a doWork that found nothing and the next doWork. -/
def pastFrame : Frame → Bool
  | .run _ _ (.delayed false) | .run _ _ .idle | .run _ _ .waiting => true
  | _ => false

def HeadPast (stack : List Frame) : Prop := ∃ f, stack.head? = some f ∧ pastFrame f = true

/-- The call is where it can be below others: neither past a doWork nor answering for
HAVE_WORK. -/
def lowerFrame (f : Frame) : Bool := !pastFrame f && !frameHolds f

def Outer (s : Pump) : Prop := ∀ f ∈ s.stack.tail, lowerFrame f = true

def cleanReplace : Replace → Bool
  | .resetting (some .haveWork) | .scheduling _ .haveWork => false
  | _ => true

def cleanFrame : Frame → Bool
  | .run _ _ (.replacing r) | .handler (.replacing r) => cleanReplace r
  | _ => true

def Clean (s : Pump) : Prop := ∀ f ∈ s.stack, cleanFrame f = true

/-- A step that touches neither HAVE_WORK nor who answers for it, and gets past doWork only
with no task left. -/
structure Calm (s s' : Pump) : Prop where
  calls : s'.calls = s.calls
  queue : s'.queue.count .haveWork = s.queue.count .haveWork
  workState : s'.workState = s.workState
  holding : holding s'.stack = holding s.stack
  posted : s'.tasks.posted = s.tasks.posted
  incoming : s'.tasks.loop.incomingQueue = s.tasks.loop.incomingQueue ∨
    s'.tasks.loop.incomingQueue = []
  clean : Clean s → Clean s'
  outer : Outer s → Outer s'
  past : Outer s → HeadPast s'.stack → s'.tasks.loop.nestableTasksAllowed = true →
    (HeadPast s.stack ∧ s.tasks.loop.nestableTasksAllowed = true) ∨
      s'.tasks.loop.incomingQueue = []

structure Agree (s s' : Pump) : Prop where
  calls : s'.calls = s.calls
  queue : s'.queue.count .haveWork = s.queue.count .haveWork
  workState : s'.workState = s.workState
  posted : s'.tasks.posted = s.tasks.posted
  incoming : s'.tasks.loop.incomingQueue = s.tasks.loop.incomingQueue ∨
    s'.tasks.loop.incomingQueue = []

theorem headPast_cons {f : Frame} {rest : List Frame} :
    HeadPast (f :: rest) ↔ pastFrame f = true := by
  simp [HeadPast]

theorem not_headPast {f : Frame} {rest : List Frame} (h : pastFrame f = false) :
    ¬ HeadPast (f :: rest) := by
  simp [headPast_cons, h]

theorem not_headPast_lower {stack : List Frame} (h : ∀ f ∈ stack, lowerFrame f = true) :
    ¬ HeadPast stack := by
  rintro ⟨f, hf, hp⟩
  have hlower := h f (List.mem_of_mem_head? hf)
  simp [lowerFrame, hp] at hlower

theorem holding_lower {stack : List Frame} (h : ∀ f ∈ stack, lowerFrame f = true) :
    holding stack = 0 := by
  refine List.countP_eq_zero.mpr fun f hf hhold => ?_
  have hlower := h f hf
  simp [lowerFrame, hhold] at hlower

/-- Code of the application neither is past a doWork nor answers for HAVE_WORK. -/
theorem lowerFrame_appRuns {f : Frame} {rest : List Frame} (h : appRuns (f :: rest) = true) :
    lowerFrame f = true := by
  unfold appRuns at h
  split at h
  next heq => cases heq
  next heq => cases heq; rfl
  next heq => cases heq; rfl
  next heq => cases heq; rfl
  next heq => cases heq; rfl
  next heq => cases heq; rfl
  next heq => cases heq; rfl
  next heq => cases heq; rfl
  next => cases h

theorem quitRun_map {β : Type} (g : Frame → β)
    (hg : ∀ shouldQuit dispatcher pc,
      g (.run true dispatcher pc) = g (.run shouldQuit dispatcher pc)) (stack : List Frame) :
    (quitRun stack).map g = stack.map g := by
  induction stack with
  | nil => rfl
  | cons f rest ih =>
      cases f with
      | run shouldQuit dispatcher pc => rw [quitRun, List.map_cons, List.map_cons, hg shouldQuit]
      | native dispatching => rw [quitRun, List.map_cons, List.map_cons, ih]; nofun
      | handler h => rw [quitRun, List.map_cons, List.map_cons, ih]; nofun
      | sent => rw [quitRun, List.map_cons, List.map_cons, ih]; nofun

theorem quitRun_holding (stack : List Frame) : holding (quitRun stack) = holding stack := by
  have hmap := quitRun_map frameHolds (fun _ _ pc => by cases pc <;> rfl) stack
  have hcount : ∀ stack, holding stack = (stack.map frameHolds).countP id := fun stack => by
    rw [holding, List.countP_map, Function.id_comp]
  rw [hcount, hcount, hmap]

theorem quitRun_all {p : Frame → Bool} {b : Bool}
    (hp : ∀ shouldQuit dispatcher pc,
      p (.run true dispatcher pc) = p (.run shouldQuit dispatcher pc)) {stack : List Frame}
    (h : ∀ f ∈ stack, p f = b) : ∀ f ∈ quitRun stack, p f = b := by
  have hmap : ∀ c ∈ (quitRun stack).map p, c = b := by
    rw [quitRun_map p hp]
    simpa using h
  simpa using hmap

theorem quitRun_lower {stack : List Frame} (h : ∀ f ∈ stack, lowerFrame f = true) :
    ∀ f ∈ quitRun stack, lowerFrame f = true :=
  quitRun_all (fun _ _ pc => by cases pc with
    | delayed more => cases more <;> rfl
    | next | replacing | dispatching | work | idle | inTask | waiting => rfl) h

theorem quitRun_clean {stack : List Frame} (h : ∀ f ∈ stack, cleanFrame f = true) :
    ∀ f ∈ quitRun stack, cleanFrame f = true :=
  quitRun_all (fun _ _ pc => by cases pc <;> rfl) h

theorem forall_stack {s : Pump} (ho : Outer s)
    (hlower : ∀ f, s.stack.head? = some f → lowerFrame f = true) :
    ∀ f ∈ s.stack, lowerFrame f = true := by
  rw [Outer] at ho
  cases hstack : s.stack with
  | nil => nofun
  | cons f rest =>
      rw [hstack] at ho hlower
      exact List.forall_mem_cons.mpr ⟨hlower f rfl, ho⟩

section Calm

variable {s s' : Pump} {f f' : Frame} {rest : List Frame}

theorem Agree.refl (s : Pump) : Agree s s := ⟨rfl, rfl, rfl, rfl, .inl rfl⟩

theorem Agree.timer (h : Agree s s') (timerSet : Bool) :
    Agree s { s' with timerSet := timerSet } :=
  ⟨h.calls, h.queue, h.workState, h.posted, h.incoming⟩

theorem Agree.stack (h : Agree s s') (stack : List Frame) : Agree s { s' with stack := stack } :=
  ⟨h.calls, h.queue, h.workState, h.posted, h.incoming⟩

theorem Agree.top (h : Agree s s') (hs : s.stack = f :: rest) (hs' : s'.stack = f' :: rest)
    (hh : frameHolds f' = frameHolds f) (hp : pastFrame f' = false)
    (hc : cleanFrame f = true → cleanFrame f' = true) : Calm s s' := by
  refine ⟨h.calls, h.queue, h.workState, ?_, h.posted, h.incoming, fun hclean => ?_,
    fun ho => ?_, fun _ hpast => ?_⟩
  · simp [holding, hs, hs', List.countP_cons, hh]
  · rw [Clean, hs] at hclean
    rw [Clean, hs']
    obtain ⟨hf, hrest⟩ := List.forall_mem_cons.mp hclean
    exact List.forall_mem_cons.mpr ⟨hc hf, hrest⟩
  · rw [Outer, hs']
    rw [Outer, hs] at ho
    exact ho
  · rw [hs'] at hpast
    exact absurd hpast (not_headPast hp)

/-- The call on top goes on, and should_quit of the run below it may get set. -/
theorem Agree.topQuit (h : Agree s s') (hs : s.stack = f :: rest)
    (hs' : s'.stack = f' :: quitRun rest) (hh : frameHolds f' = frameHolds f)
    (hp : pastFrame f' = false) (hc : cleanFrame f' = true) : Calm s s' := by
  refine ⟨h.calls, h.queue, h.workState, ?_, h.posted, h.incoming, fun hclean => ?_,
    fun ho => ?_, fun _ hpast => ?_⟩
  · have hrest := quitRun_holding rest
    simp only [holding] at hrest
    simp [holding, hs, hs', List.countP_cons, hh, hrest]
  · rw [Clean, hs] at hclean
    rw [Clean, hs']
    exact List.forall_mem_cons.mpr ⟨hc, quitRun_clean (List.forall_mem_cons.mp hclean).2⟩
  · rw [Outer, hs']
    rw [Outer, hs] at ho
    exact quitRun_lower ho
  · rw [hs'] at hpast
    exact absurd hpast (not_headPast hp)

theorem Agree.pop (h : Agree s s') (hs : s.stack = f :: rest) (hs' : s'.stack = rest)
    (hh : frameHolds f = false) : Calm s s' := by
  refine ⟨h.calls, h.queue, h.workState, ?_, h.posted, h.incoming, fun hclean => ?_,
    fun ho => ?_, fun ho hpast => ?_⟩
  · simp [holding, hs, hs', hh]
  · rw [Clean, hs] at hclean
    rw [Clean, hs']
    exact (List.forall_mem_cons.mp hclean).2
  · rw [Outer, hs']
    rw [Outer, hs] at ho
    exact fun g hg => ho g (List.mem_of_mem_tail hg)
  · rw [Outer, hs] at ho
    rw [hs'] at hpast
    exact absurd hpast (not_headPast_lower ho)

theorem Agree.popQuit (h : Agree s s') (hs : s.stack = f :: rest) (hs' : s'.stack = quitRun rest)
    (hh : frameHolds f = false) : Calm s s' := by
  refine ⟨h.calls, h.queue, h.workState, ?_, h.posted, h.incoming, fun hclean => ?_,
    fun ho => ?_, fun ho hpast => ?_⟩
  · rw [hs', quitRun_holding]
    simp [holding, hs, hh]
  · rw [Clean, hs] at hclean
    rw [Clean, hs']
    exact quitRun_clean (List.forall_mem_cons.mp hclean).2
  · rw [Outer, hs']
    rw [Outer, hs] at ho
    exact fun g hg => quitRun_lower ho g (List.mem_of_mem_tail hg)
  · rw [Outer, hs] at ho
    rw [hs'] at hpast
    exact absurd hpast (not_headPast_lower (quitRun_lower ho))

/-- Code of the application, or of a window procedure, calls on. -/
theorem Agree.push (h : Agree s s') (hs' : s'.stack = f' :: s.stack)
    (hlower : ∀ f, s.stack.head? = some f → lowerFrame f = true)
    (hh : frameHolds f' = false) (hp : pastFrame f' = false) (hc : cleanFrame f' = true) :
    Calm s s' := by
  refine ⟨h.calls, h.queue, h.workState, ?_, h.posted, h.incoming, fun hclean => ?_,
    fun ho => ?_, fun _ hpast => ?_⟩
  · simp [holding, hs', hh]
  · rw [Clean, hs']
    exact List.forall_mem_cons.mpr ⟨hc, hclean⟩
  · rw [Outer, hs', List.tail_cons]
    exact forall_stack ho hlower
  · rw [hs'] at hpast
    exact absurd hpast (not_headPast hp)

theorem Agree.still (h : Agree s s') (hs' : s'.stack = s.stack)
    (hallowed : s'.tasks.loop.nestableTasksAllowed = s.tasks.loop.nestableTasksAllowed) :
    Calm s s' := by
  refine ⟨h.calls, h.queue, h.workState, by rw [hs'], h.posted, h.incoming, fun hclean => ?_,
    fun ho => ?_, fun _ hpast ha => ?_⟩
  · rw [Clean, hs']
    exact hclean
  · rw [Outer, hs']
    exact ho
  · exact .inl ⟨hs' ▸ hpast, hallowed ▸ ha⟩

/-- The test of should_quit, on the way to a place that is not past doWork. -/
theorem Agree.resume (h : Agree s s') (hs : s.stack = f :: rest) (hh : frameHolds f = false)
    {shouldQuit dispatcher : Bool} {pc : Pc} (hpc : frameHolds (.run false dispatcher pc) = false)
    (hp : pastFrame (.run false dispatcher pc) = false)
    (hc : cleanFrame (.run false dispatcher pc) = true) :
    Calm s (MessagePumpForWin.resume s' shouldQuit dispatcher rest pc) := by
  rw [MessagePumpForWin.resume]
  cases shouldQuit with
  | true => exact Agree.pop ⟨h.calls, h.queue, h.workState, h.posted, h.incoming⟩ hs rfl hh
  | false =>
      exact Agree.top ⟨h.calls, h.queue, h.workState, h.posted, h.incoming⟩ hs rfl
        (hpc.trans hh.symm) hp (fun _ => hc)

/-- The test of should_quit, on the way past a doWork that found nothing, or further. -/
theorem Agree.resumePast (h : Agree s s') (hs : s.stack = f :: rest) (hh : frameHolds f = false)
    {shouldQuit dispatcher : Bool} {pc : Pc} (hpc : frameHolds (.run false dispatcher pc) = false)
    (hc : cleanFrame (.run false dispatcher pc) = true)
    (hpast : s'.tasks.loop.nestableTasksAllowed = true →
      (pastFrame f = true ∧ s.tasks.loop.nestableTasksAllowed = true) ∨
        s'.tasks.loop.incomingQueue = []) :
    Calm s (MessagePumpForWin.resume s' shouldQuit dispatcher rest pc) := by
  rw [MessagePumpForWin.resume]
  cases shouldQuit with
  | true => exact Agree.pop ⟨h.calls, h.queue, h.workState, h.posted, h.incoming⟩ hs rfl hh
  | false =>
      refine ⟨h.calls, h.queue, h.workState, ?_, h.posted, h.incoming, fun hclean => ?_,
        fun ho => ?_, fun _ _ ha => ?_⟩
      · simp [holding, hs, hh, hpc]
      · rw [Clean, hs] at hclean
        exact List.forall_mem_cons.mpr ⟨hc, (List.forall_mem_cons.mp hclean).2⟩
      · rw [Outer, hs] at ho
        exact ho
      · rcases hpast ha with ⟨hp, ha⟩ | hin
        · exact .inl ⟨hs ▸ headPast_cons.mpr hp, ha⟩
        · exact .inr hin

end Calm

theorem doWork_incoming (m : Loop) :
    (doWork m).loop.incomingQueue = m.incomingQueue ∨ (doWork m).loop.incomingQueue = [] := by
  have hreload : (reloadWorkQueue m).incomingQueue = m.incomingQueue ∨
      (reloadWorkQueue m).incomingQueue = [] := by
    rw [reloadWorkQueue]
    split
    next => exact .inl rfl
    next hw =>
      split
      next => exact .inl rfl
      next => exact .inr (by simpa using hw)
  rw [doWork]
  split
  next => exact .inl rfl
  next hn =>
    dsimp only
    split
    next => exact hreload
    next =>
      have hallowed : (reloadWorkQueue m).nestableTasksAllowed = true := by
        simpa [reloadWorkQueue_allowed] using hn
      rcases executeOldest_spec (reloadWorkQueue m).workQueue (reloadWorkQueue m) none hallowed with
        ⟨m', w, he, -, -, hi, -⟩ | ⟨m', w, done, t, he, -, -, hi, -, -⟩ <;>
      · rw [he, hi]
        exact hreload

/-- A doWork that comes back has found nothing where tasks are allowed. -/
theorem doWork_returns {m : Loop} {didWork : Bool} (h : (doWork m).outcome = .returns didWork) :
    didWork = false ∧
      ((doWork m).loop.nestableTasksAllowed = true → (doWork m).loop.incomingQueue = []) := by
  have hw := doWork_works m
  generalize doWork m = c at hw h
  cases hw with
  | refused hn => cases h; exact ⟨rfl, fun ha => absurd (hn.symm.trans ha) (by simp)⟩
  | drained _ _ hi => cases h; exact ⟨rfl, fun _ => hi⟩
  | again => cases h
  | runs => cases h

theorem doDelayedWork_incoming (m : Loop) (now : TimePoint) :
    (doDelayedWork m now).loop.incomingQueue = m.incomingQueue := by
  have hw := doDelayedWork_works m now
  generalize doDelayedWork m now = c at hw
  cases hw <;> rfl

theorem doDelayedWork_returns {m : Loop} {now : TimePoint} {didWork : Bool}
    (h : (doDelayedWork m now).outcome = .returns didWork) : didWork = false ∧
      (doDelayedWork m now).loop.nestableTasksAllowed = m.nestableTasksAllowed := by
  have hw := doDelayedWork_works m now
  generalize doDelayedWork m now = c at hw h
  cases hw with
  | refused | early | defers => cases h; exact ⟨rfl, rfl⟩
  | runs => cases h

theorem doIdleWork_incoming (m : Loop) :
    (doIdleWork m).loop.incomingQueue = m.incomingQueue := by
  have hw := doIdleWork_works m
  generalize doIdleWork m = c at hw
  cases hw <;> rfl

theorem doIdleWork_returns {m : Loop} {didWork : Bool}
    (h : (doIdleWork m).outcome = .returns didWork) : didWork = false ∧
      (doIdleWork m).loop.nestableTasksAllowed = m.nestableTasksAllowed := by
  have hw := doIdleWork_works m
  generalize doIdleWork m = c at hw h
  cases hw with
  | idle => cases h; exact ⟨rfl, rfl⟩
  | runs => cases h

theorem agree_workCall (s : Pump) : Agree s (workCall s) :=
  ⟨rfl, rfl, rfl, take_posted .., by
    rw [workCall, take_loop]
    exact doWork_incoming _⟩

theorem agree_delayedCall (s : Pump) : Agree s (delayedCall s) :=
  ⟨rfl, rfl, rfl, take_posted .., by
    rw [delayedCall, take_loop, doDelayedWork_incoming]
    exact .inl rfl⟩

theorem agree_idleCall (s : Pump) : Agree s (idleCall s) :=
  ⟨rfl, rfl, rfl, take_posted .., by
    rw [idleCall, take_loop, doIdleWork_incoming]
    exact .inl rfl⟩

end Ashe.WinPumpSteps
