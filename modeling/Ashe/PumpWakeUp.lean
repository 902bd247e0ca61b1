import Ashe.PumpSteps

namespace Ashe.PumpWakeUp

open Tasks MessageLoop LoopCalls LoopSteps MessagePumpDefault PumpSteps Runs

/-- The pump sleeps over nothing: the flag is down, and no task whose
scheduleWork has returned is still in the incoming queue. -/
def SleepsIdle (s : Pump) : Prop :=
  s.haveWork = false ∧ ∀ t ∈ s.tasks.loop.incomingQueue, ticket t ∉ s.scheduled

instance (s : Pump) : Decidable (SleepsIdle s) := inferInstanceAs (Decidable (_ ∧ _))

/-- The test that the plain wait makes and the timed wait leaves out. -/
def TimedWaitTested (s : Pump) (l : Choice) : Prop :=
  l = .advance → s.stack.head? = some .lockTimedWait → s.haveWork = false

def aboutToWait (s : Pump) : Bool :=
  match s.stack with
  | .lockWait :: _ => !s.haveWork
  | .lockTimedWait :: _ => true
  | .timedWoken :: _ => !s.haveWork && 0 < delayLeft s
  | _ => false

/-- A run that a task called, whose doWork is refused, waits only while nothing
has been posted. -/
def WaitsLoading (s : Pump) (l : Choice) : Prop :=
  l = .advance → aboutToWait s = true → s.tasks.loop.nestableTasksAllowed = false →
    s.tasks.loop.incomingQueue = []

/-- The pcs between a doWork that found nothing and the next doWork. -/
def past : Pc → Bool
  | .call .doWork | .call (.doDelayedWork true) | .inTask _ => false
  | _ => true

def HeadPast (stack : List Pc) : Prop := ∃ pc, stack.head? = some pc ∧ past pc = true

structure Posters (s : Pump) : Prop where
  posting : ∀ p k, s.posters p = .enqueued k ∨ s.posters p = .stored k → k < s.tasks.posted.length
  stored : ∀ p k, s.posters p = .stored k → k ∈ s.signalled
  scheduled : ∀ k ∈ s.scheduled, k ∈ s.signalled
  signalled : ∀ k ∈ s.signalled, k < s.tasks.posted.length

/-- Once doWork found nothing, a task in the incoming queue can only have been
signalled since, and then the flag is still up. -/
def Awake (s : Pump) : Prop :=
  HeadPast s.stack → s.tasks.loop.nestableTasksAllowed = true →
    ∀ t ∈ s.tasks.loop.incomingQueue, ticket t ∈ s.signalled → s.haveWork = true

theorem resume_posters (s : Pump) (rest : List Pc) (pc : Pc) :
    (resume s rest pc).posters = s.posters ∧ (resume s rest pc).signalled = s.signalled ∧
      (resume s rest pc).scheduled = s.scheduled ∧ (resume s rest pc).haveWork = s.haveWork := by
  rw [resume]; split <;> exact ⟨rfl, rfl, rfl, rfl⟩

theorem callStep_posters (s : Pump) (e : Executor) (rest : List Pc) :
    (callStep s e rest).posters = s.posters ∧ (callStep s e rest).signalled = s.signalled ∧
      (callStep s e rest).scheduled = s.scheduled ∧ (callStep s e rest).haveWork = s.haveWork := by
  rw [callStep]
  dsimp only
  split
  next => exact ⟨rfl, rfl, rfl, rfl⟩
  next => exact ⟨rfl, rfl, rfl, rfl⟩
  next => exact resume_posters _ _ _

theorem Posters.congr {s s' : Pump} (h : Posters s) (hp : s'.posters = s.posters)
    (hg : s'.signalled = s.signalled) (hc : s'.scheduled = s.scheduled)
    (ht : s'.tasks.posted = s.tasks.posted) : Posters s' := by
  refine ⟨?_, ?_, ?_, ?_⟩
  · rw [hp, ht]; exact h.posting
  · rw [hp, hg]; exact h.stored
  · rw [hc, hg]; exact h.scheduled
  · rw [hg, ht]; exact h.signalled

theorem postBy_posters {s : Pump} (h : Posters s) (p : Nat) (quits : Bool) (delay : Int)
    (nestable : Bool) : Posters (postBy s p quits delay nestable) := by
  have hl : (postBy s p quits delay nestable).tasks.posted.length = s.tasks.posted.length + 1 := by
    simp [postBy, post]
  constructor
  · intro q k hq
    rw [hl]
    by_cases he : q = p
    · subst q
      simp only [postBy, Function.update_self] at hq
      split at hq <;> simp at hq
      omega
    · simp only [postBy, Function.update_of_ne he] at hq
      exact Nat.lt_succ_of_lt (h.posting q k hq)
  · intro q k hq
    by_cases he : q = p
    · subst q
      simp only [postBy, Function.update_self] at hq
      split at hq <;> simp at hq
    · simp only [postBy, Function.update_of_ne he] at hq
      exact h.stored q k hq
  · exact h.scheduled
  · intro k hk
    rw [hl]
    exact Nat.lt_succ_of_lt (h.signalled k hk)

theorem moves_posters {s s' : Pump} {l : Choice} (h : Posters s) (hm : Moves s l s') :
    Posters s' := by
  cases hm with
  | post delay nestable hp => exact postBy_posters h _ _ _ _
  | postQuit hp => exact postBy_posters h _ _ _ _
  | @signal p k hp =>
      constructor
      · intro q j hq
        by_cases he : q = p
        · subst q
          simp only [Function.update_self, reduceCtorEq, Poster.stored.injEq, false_or] at hq
          exact hq ▸ h.posting p k (.inl hp)
        · simp only [Function.update_of_ne he] at hq
          exact h.posting q j hq
      · intro q j hq
        by_cases he : q = p
        · subst q
          simp only [Function.update_self, Poster.stored.injEq] at hq
          simp [hq]
        · simp only [Function.update_of_ne he] at hq
          exact List.mem_cons_of_mem _ (h.stored q j hq)
      · exact fun j hj => List.mem_cons_of_mem _ (h.scheduled j hj)
      · intro j hj
        rcases List.mem_cons.mp hj with rfl | hj
        · exact h.posting p j (.inl hp)
        · exact h.signalled j hj
  | @notify p k hp =>
      constructor
      · intro q j hq
        by_cases he : q = p
        · subst q
          simp at hq
        · simp only [Function.update_of_ne he] at hq
          exact h.posting q j hq
      · intro q j hq
        by_cases he : q = p
        · subst q
          simp at hq
        · simp only [Function.update_of_ne he] at hq
          exact h.stored q j hq
      · intro j hj
        rcases List.mem_cons.mp hj with rfl | hj
        · exact h.stored p j hp
        · exact h.scheduled j hj
      · exact h.signalled
  | @finish e rest t ts hs ht =>
      obtain ⟨hp, hg, hc, _⟩ := resume_posters { s with
        tasks := finished s.tasks t ts
        keepRunning := s.keepRunning && !t.callback.quits } rest (following e true)
      exact h.congr hp hg hc (by rw [resume_tasks]; rfl)
  | @call e rest hs =>
      obtain ⟨hp, hg, hc, _⟩ := callStep_posters s e rest
      exact h.congr hp hg hc (by rw [callStep_tasks, take_posted])
  | tick | run | nestedRun | quit | choosePlain | chooseTimed | choosePast | enterWait | leave
    | wake | timeout => exact ⟨h.posting, h.stored, h.scheduled, h.signalled⟩

theorem not_headPast_tasks {rest : List Pc} (h : ∀ pc ∈ rest, ∃ e, pc = .inTask e) :
    ¬ HeadPast rest := by
  rintro ⟨pc, hh, hp⟩
  obtain ⟨e, rfl⟩ := h pc (List.mem_of_head? hh)
  exact Bool.noConfusion hp

theorem headPast_cons {pc : Pc} {rest : List Pc} : HeadPast (pc :: rest) ↔ past pc = true := by
  simp [HeadPast]

theorem headPast_woken {stack : List Pc} : HeadPast (woken stack) → HeadPast stack := by
  intro h
  rw [woken.eq_def] at h
  split at h
  next => exact headPast_cons.mpr rfl
  next => exact headPast_cons.mpr rfl
  next => exact h

/-- A delegate call that comes back without work and leads towards a wait. -/
theorem callStep_awake {s : Pump} {e : Executor} {rest : List Pc} (h : Awake s) (ho : Outer s)
    (hs : s.stack = .call e :: rest) : Awake (callStep s e rest) := by
  intro hp hn t ht hk
  rw [(callStep_posters s e rest).2.2.2]
  rw [(callStep_posters s e rest).2.1] at hk
  rw [callStep_tasks, take_loop] at hn ht
  have hc := callStep_stack s e rest
  generalize (callStep s e rest).stack = stack at hc hp
  cases hc with
  | stops => exact absurd hp (not_headPast_tasks (ho.rest hs))
  | runs => exact absurd (headPast_cons.mp hp) (by simp [past])
  | again hout =>
      rw [delegateCall_again hout] at hp
      exact absurd (headPast_cons.mp hp) (by simp [past])
  | @returns didWork hout =>
      cases e with
      | doWork =>
          have hw := doWork_works s.tasks.loop
          simp only [delegateCall] at hout hn ht
          generalize doWork s.tasks.loop = c at hw hout hn ht
          cases hw with
          | refused hf => exact absurd (hf.symm.trans hn) (by simp)
          | drained hn' hw hi => rw [hi] at ht; exact absurd ht (by simp)
          | again | runs => cases hout
      | doDelayedWork before =>
          have hb : before = false := by
            cases before with
            | false => rfl
            | true => exact absurd (headPast_cons.mp hp) (by simp [following, past])
          have hold : HeadPast s.stack := by rw [hs, hb]; exact headPast_cons.mpr rfl
          have hw := doDelayedWork_works s.tasks.loop s.tasks.now
          simp only [delegateCall] at hout hn ht
          generalize doDelayedWork s.tasks.loop s.tasks.now = c at hw hout hn ht
          cases hw with
          | refused | early | defers => exact h hold hn t ht hk
          | runs => cases hout
      | doIdleWork =>
          have hold : HeadPast s.stack := by rw [hs]; exact headPast_cons.mpr rfl
          have hw := doIdleWork_works s.tasks.loop
          simp only [delegateCall] at hout hn ht
          generalize doIdleWork s.tasks.loop = c at hw hout hn ht
          cases hw with
          | idle => exact h hold hn t ht hk
          | runs => cases hout

theorem postBy_awake {s : Pump} (h : Awake s) (hp : Posters s) (p : Nat) (quits : Bool)
    (delay : Int) (nestable : Bool) : Awake (postBy s p quits delay nestable) := by
  intro hh hn t ht hk
  rcases List.mem_append.mp ht with ht | ht
  · exact h hh hn t ht hk
  · rw [List.mem_singleton.mp ht] at hk
    exact absurd (hp.signalled _ hk) (Nat.lt_irrefl _)

theorem moves_awake {s s' : Pump} {l : Choice} (h : Awake s) (hp : Posters s) (ho : Outer s)
    (hm : Moves s l s') : Awake s' := by
  cases hm with
  | tick | quit => exact h
  | post => exact postBy_awake h hp _ _ _ _
  | postQuit => exact postBy_awake h hp _ _ _ _
  | signal => exact fun _ _ _ _ _ => rfl
  | notify | wake => exact fun hh => h (headPast_woken hh)
  | run | nestedRun | choosePast | leave | timeout =>
      exact fun hh => absurd (headPast_cons.mp hh) (by simp [past])
  | @finish e rest t ts hs ht =>
      intro hh
      rcases finish_stack s e rest t ts with he | he
      · rw [he] at hh
        cases e <;> exact absurd (headPast_cons.mp hh) (by simp [past, following])
      · rw [he] at hh
        exact absurd hh (not_headPast_tasks (ho.rest hs))
  | call hs => exact callStep_awake h ho hs
  | choosePlain hs | chooseTimed hs =>
      exact fun _ => h (by rw [hs]; exact headPast_cons.mpr rfl)
  | enterWait hs hw =>
      have hold : HeadPast s.stack := by
        rw [hs]
        cases hw <;> exact headPast_cons.mpr rfl
      exact fun _ => h hold

theorem enters_aboutToWait {s : Pump} {pc pc' : Pc} {rest : List Pc} (hs : s.stack = pc :: rest)
    (he : EntersWait s pc pc') : aboutToWait s = true := by
  rw [aboutToWait, hs]
  cases he with
  | plain hf => simp [hf]
  | timed => rfl
  | again hf hd => simp [hf, hd]

theorem enters_sleepsIdle {s s' : Pump} (ha : Awake s) (hp : Posters s) (ho : Outer s)
    (hm : Moves s .advance s') (hw : Waits s') (ht : TimedWaitTested s .advance)
    (hl : WaitsLoading s .advance) : SleepsIdle s' := by
  obtain ⟨pc, pc', rest, hs, he, rfl⟩ := waits_enters ho hm hw
  have hpast : HeadPast s.stack := by
    rw [hs]
    cases he <;> exact headPast_cons.mpr rfl
  have hf : s.haveWork = false := by
    cases he with
    | plain hf => exact hf
    | again hf => exact hf
    | timed => exact ht rfl (by rw [hs]; rfl)
  refine ⟨hf, fun t hin hk => ?_⟩
  cases hn : s.tasks.loop.nestableTasksAllowed with
  | true =>
      have hup := ha hpast hn t hin (hp.scheduled _ hk)
      exact absurd (hf.symm.trans hup) (by simp)
  | false =>
      have hin' : t ∈ s.tasks.loop.incomingQueue := hin
      rw [hl rfl (enters_aboutToWait hs he) hn] at hin'
      exact absurd hin' (by simp)

/-- The pump never goes to sleep over signalled work in a run that enters the
timed wait only with have_work_ down, and never waits over a posted task inside
a task, where doWork is refused. Without the first it does. -/
theorem sleeps_idle_when_tested (now : TimePoint) (ls : List Choice) :
    (Along pumpStep (fun s l _ => TimedWaitTested s l ∧ WaitsLoading s l) (idlePump now) ls →
      Along pumpStep (fun _ l s' => StartsWait l s' → SleepsIdle s') (idlePump now) ls) ∧
    (Along pumpStep (fun _ l s' => StartsWait l s' → SleepsIdle s') (idlePump now) ls →
      Along pumpStep (fun s l _ => TimedWaitTested s l) (idlePump now) ls) := by
  constructor
  · intro hguard
    refine along_of_invariant (I := fun s => Awake s ∧ Posters s ∧ Outer s) ?_ ?_ hguard
    · rintro s l s' ⟨ha, hp, ho⟩ ⟨ht, hl⟩ hs
      have hm := step_moves hs
      refine ⟨⟨moves_awake ha hp ho hm, moves_posters hp hm, moves_outer ho hm⟩, ?_⟩
      intro hw
      obtain ⟨rfl, hwait⟩ := hw
      exact enters_sleepsIdle ha hp ho hm hwait ht hl
    · refine ⟨?_, ?_, ?_⟩
      · simp [Awake, idlePump, initial, emptyLoop]
      · constructor <;> simp [idlePump]
      · simp [Outer, idlePump]
  · intro hprop
    apply along_of_invariant (I := fun _ => True) _ trivial hprop
    intro s l s' _ hsleep hs
    refine ⟨trivial, ?_⟩
    rintro rfl hhead
    have hm := step_moves hs
    obtain ⟨rest, hst⟩ : ∃ rest, s.stack = .lockTimedWait :: rest :=
      List.head?_eq_some_iff.mp hhead
    have he : s' = { s with stack := .timedWaiting :: rest } := by
      simp only [pumpStep, advance, hst, Option.some.injEq] at hs
      exact hs.symm
    subst he
    exact (hsleep ⟨rfl, .inr rfl⟩).1

def testedWaits : List Choice :=
  [.run, .advance, .advance, .advance, .advance, .advance, .post 0 5 true, .signal 0, .notify 0,
    .advance, .advance, .advance, .advance, .advance, .advance, .advance]

theorem sleeps_idle_when_tested_waits :
    Along pumpStep (fun _ l s' => StartsWait l s' → SleepsIdle s') (idlePump 1) testedWaits ∧
    ((exec pumpStep (idlePump 1) testedWaits).map Pump.stack) = some [.timedWaiting] :=
  ⟨(sleeps_idle_when_tested 1 testedWaits).1
    (by unfold TimedWaitTested WaitsLoading; decide +kernel), by decide +kernel⟩

/-- With a delayed task waiting, a post lands between doDelayedWork and the
lock of the timed wait. -/
def lostWakeUp : List Choice :=
  [.post 0 5 true, .run, .advance, .advance, .advance, .post 1 0 true, .signal 1, .notify 1,
    .advance, .advance, .advance]

theorem sleeps_over_signalled_work :
    ¬ Along pumpStep (fun _ l s' => StartsWait l s' → SleepsIdle s') (idlePump 1) lostWakeUp := by
  decide +kernel

end Ashe.PumpWakeUp
