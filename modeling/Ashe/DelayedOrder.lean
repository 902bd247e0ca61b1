import Ashe.DelayedLog

namespace Ashe.DelayedOrder

open PriorityQueue Tasks MessageLoop LoopCalls LoopSteps DelayedLog Runs

/-- What holds when every post is nestable: nothing is ever deferred, and the
cached time is never ahead of the clock. -/
structure Direct (s : State) : Prop where
  deferredNil : s.loop.deferredNonNestableWorkQueue = []
  nestable : ∀ t ∈ pending s.loop ++ s.loop.delayedWorkQueue, t.nestable = true
  recent : s.loop.recentTime ≤ s.now

def NestablePost : Label → Prop
  | .post _ _ nestable => nestable = true
  | _ => True

theorem filed_direct {s : State} (h : Direct s) {m' : Loop} {done : List PendingTask}
    (gone : List PendingTask) (hf : Filed s.loop m' done)
    (hp : pending s.loop = done ++ (gone ++ pending m')) : m'.deferredNonNestableWorkQueue = [] ∧
      (∀ t ∈ pending m' ++ m'.delayedWorkQueue, t.nestable = true) ∧ m'.recentTime ≤ s.now := by
  have hdone : ∀ t ∈ done, t.nestable = true := fun t ht =>
    h.nestable t (by simp [hp, ht])
  refine ⟨?_, ?_, hf.recentTime ▸ h.recent⟩
  · rw [hf.deferredQueue, h.deferredNil, List.nil_append, List.filter_eq_nil_iff]
    intro t ht
    have hi := hf.passed t ht
    simp only [immediate, hdone t ht, Bool.true_and, beq_eq_false_iff_ne] at hi
    simpa [delayed] using hi
  · intro t ht
    rw [List.mem_append, hf.delayedQueue, List.mem_append] at ht
    rcases ht with ht | ht | ht
    · exact h.nestable t (by simp [hp, ht])
    · exact h.nestable t (by simp [ht])
    · obtain ⟨u, hu, k, rfl⟩ := mem_numberFrom ht
      exact hdone u (List.mem_filter.mp hu).1

theorem step_direct {s s' : State} {l : Label} (h : Direct s) (hl : NestablePost l)
    (hs : step s l = some s') : Direct s' := by
  cases l with
  | tick d =>
      obtain rfl := Option.some.inj hs
      exact ⟨h.deferredNil, h.nestable, h.recent.trans (Nat.le_add_right _ _)⟩
  | post quits delay nestable =>
      obtain rfl := Option.some.inj hs
      refine ⟨h.deferredNil, ?_, h.recent⟩
      intro t ht
      simp only [post, addToIncomingQueue, pending, List.mem_append, List.mem_singleton] at ht
      rcases ht with (ht | ht | rfl) | ht
      · exact h.nestable t (by simp [pending, ht])
      · exact h.nestable t (by simp [pending, ht])
      · exact hl
      · exact h.nestable t (by simp [ht])
  | doWork =>
      obtain rfl := Option.some.inj hs
      have hw := doWork_works s.loop
      generalize doWork s.loop = c at hw
      cases hw with
      | refused | drained => exact ⟨h.deferredNil, h.nestable, h.recent⟩
      | again hn hn' hp hf =>
          obtain ⟨hd, ht, hr⟩ := filed_direct h [] hf hp
          exact ⟨hd, ht, hr⟩
      | @runs m' wakeUp done t hn hn' hp hi hf =>
          obtain ⟨hd, ht, hr⟩ := filed_direct h [t] hf hp
          exact ⟨hd, ht, hr⟩
  | doDelayedWork =>
      obtain rfl := Option.some.inj hs
      have hw := doDelayedWork_works s.loop s.now
      generalize doDelayedWork s.loop s.now = c at hw
      cases hw with
      | refused => exact ⟨h.deferredNil, h.nestable, Nat.zero_le _⟩
      | early => exact ⟨h.deferredNil, h.nestable, Nat.le_refl _⟩
      | runs hn hx ht hr hst =>
          refine ⟨h.deferredNil, ?_, ?_⟩
          · intro u hu
            rcases List.mem_append.mp hu with hu | hu
            · exact h.nestable u (List.mem_append_left _ hu)
            · exact h.nestable u (List.mem_append_right _ ((extract_sublist hx).subset hu))
          · rcases hr with rfl | rfl
            · exact Nat.le_refl _
            · exact h.recent
      | @defers t rest recent wakeUp hn hx ht hr hst =>
          have hm : t ∈ s.loop.delayedWorkQueue := (extract_perm hx).symm.subset List.mem_cons_self
          rw [h.nestable t (List.mem_append_right _ hm)] at hst
          exact Bool.noConfusion hst
  | doIdleWork =>
      obtain rfl := Option.some.inj hs
      have hw := doIdleWork_works s.loop
      generalize doIdleWork s.loop = c at hw
      cases hw with
      | idle => exact ⟨h.deferredNil, h.nestable, h.recent⟩
      | runs he => rw [h.deferredNil] at he; exact absurd he (by simp)
  | finish =>
      obtain ⟨t, rest, -, rfl⟩ := finish_some hs
      exact ⟨h.deferredNil, h.nestable, h.recent⟩

theorem initial_direct (now : TimePoint) : Direct (initial now) := by
  constructor <;> simp [initial, emptyLoop, pending]

def Near (s : State) : Prop :=
  ∀ a ∈ s.loop.delayedWorkQueue, ∀ b ∈ s.loop.delayedWorkQueue,
    s.entered.idxOf b < s.entered.idxOf a + 2 ^ 31

def runsAt (time : TimePoint) (t : PendingTask) : Bool := t.delayedRunTime == time

/-- For every time the tasks of that time start in the order of the log, and
the queue still holds the rest of them in that order. -/
def InEntryOrder (s : State) : Prop :=
  ∀ time, time ≠ 0 → s.entered.filter (runsAt time) =
    s.started.filter (runsAt time) ++ s.loop.delayedWorkQueue.filter (runsAt time)

theorem windowed_of_near {s : State} (h : Numbered s) (hn : Near s) :
    Windowed s.entered.idxOf s.loop.delayedWorkQueue := by
  refine ⟨?_, hn⟩
  intro t ht
  have hi : s.entered.idxOf t < s.entered.length := List.idxOf_lt_length_of_mem (h.queue.subset ht)
  rw [← h.numbered _ hi, List.getElem_idxOf hi]

theorem idxOf_pairwise {l : List PendingTask} (h : l.Nodup) :
    l.Pairwise (fun a b => l.idxOf a < l.idxOf b) := by
  rw [List.pairwise_iff_getElem]
  intro i j hi hj hij
  rw [h.idxOf_getElem, h.idxOf_getElem]
  exact hij

/-- Popping the queue takes the first task of its time, in the order of the log. -/
theorem extract_filter {s : State} (h : Numbered s) (hn : Near s) {t : PendingTask}
    {rest : List PendingTask} (hx : extract less s.loop.delayedWorkQueue = some (t, rest))
    (time : TimePoint) : s.loop.delayedWorkQueue.filter (runsAt time) =
      [t].filter (runsAt time) ++ rest.filter (runsAt time) := by
  have hw := windowed_of_near h hn
  have hle := extract_key_le (less_inverts_rank hw) hx
  have hp := (idxOf_pairwise h.entered_nodup).sublist h.queue
  obtain ⟨before, after, hq, rfl⟩ := extract_split hx
  rw [hq] at hp ⊢
  have hb : ∀ u ∈ before, u.delayedRunTime ≠ t.delayedRunTime := by
    intro u hu he
    have hlt : s.entered.idxOf u < s.entered.idxOf t :=
      (List.pairwise_append.mp hp).2.2 u hu t List.mem_cons_self
    have hr := hle u (List.mem_append_left _ hu)
    rw [rank, rank, he, Prod.Lex.toLex_le_toLex] at hr
    rcases hr with hr | hr
    · exact Nat.lt_irrefl _ hr
    · exact absurd hr.2 (Nat.not_le_of_lt hlt)
  by_cases ht : t.delayedRunTime = time
  · have hnil : before.filter (runsAt time) = [] := by
      rw [List.filter_eq_nil_iff]
      intro u hu
      simpa [runsAt, ← ht] using hb u hu
    rw [List.filter_append, List.filter_append, hnil, List.nil_append, List.nil_append,
      ← List.filter_append]
    rfl
  · have hf : runsAt time t = false := by simpa [runsAt] using ht
    simp [List.filter_append, hf]

theorem immediate_time {t : PendingTask} (h : immediate t = true) : t.delayedRunTime = 0 := by
  simp only [immediate, Bool.and_eq_true, beq_iff_eq] at h
  exact h.2

theorem filed_inEntryOrder {s : State} (h : InEntryOrder s) {c : Call} {done : List PendingTask}
    (hf : Filed s.loop c.loop done)
    (hs : ∀ time, time ≠ 0 →
      (take s c).started.filter (runsAt time) = s.started.filter (runsAt time)) :
    InEntryOrder (take s c) := by
  intro time ht
  rw [take_entered, take_loop, hs time ht, hf.delayedQueue, List.drop_left, List.filter_append,
    List.filter_append, h time ht, List.append_assoc]

theorem unfiled_inEntryOrder {s : State} (h : InEntryOrder s) {c : Call}
    (hq : c.loop.delayedWorkQueue = s.loop.delayedWorkQueue)
    (hs : (take s c).started = s.started) : InEntryOrder (take s c) := by
  intro time ht
  rw [take_entered, take_loop, hs, hq, List.drop_length, List.append_nil, h time ht]

theorem step_inEntryOrder {s s' : State} {l : Label} (hnum : Numbered s) (hdir : Direct s)
    (hnear : Near s) (h : InEntryOrder s) (hs : step s l = some s') : InEntryOrder s' := by
  cases l with
  | tick d => obtain rfl := Option.some.inj hs; exact h
  | post quits delay nestable => obtain rfl := Option.some.inj hs; exact h
  | doWork =>
      obtain rfl := Option.some.inj hs
      have hw := doWork_works s.loop
      generalize doWork s.loop = c at hw
      cases hw with
      | refused | drained => exact unfiled_inEntryOrder h rfl rfl
      | again hn hn' hp hf => exact filed_inEntryOrder h hf (fun _ _ => rfl)
      | @runs m' wakeUp done t hn hn' hp hi hf =>
          refine filed_inEntryOrder h hf (fun time ht => ?_)
          have hr : runsAt time t = false := by
            simpa [runsAt, immediate_time hi] using ht.symm
          simp [take, List.filter_append, hr]
  | doDelayedWork =>
      obtain rfl := Option.some.inj hs
      have hw := doDelayedWork_works s.loop s.now
      generalize doDelayedWork s.loop s.now = c at hw
      cases hw with
      | refused | early => exact unfiled_inEntryOrder h rfl rfl
      | runs hn hx ht hr hst =>
          intro time htime
          have hd := List.drop_eq_nil_of_le (extract_sublist hx).length_le
          rw [take_entered, hd, List.append_nil, h time htime, extract_filter hnum hnear hx]
          simp [take, List.filter_append]
      | @defers t rest recent wakeUp hn hx ht hr hst =>
          have hm : t ∈ s.loop.delayedWorkQueue := (extract_perm hx).symm.subset List.mem_cons_self
          rw [hdir.nestable t (List.mem_append_right _ hm)] at hst
          exact Bool.noConfusion hst
  | doIdleWork =>
      obtain rfl := Option.some.inj hs
      have hw := doIdleWork_works s.loop
      generalize doIdleWork s.loop = c at hw
      cases hw with
      | idle => exact unfiled_inEntryOrder h rfl rfl
      | runs he => rw [hdir.deferredNil] at he; exact absurd he (by simp)
  | finish =>
      obtain ⟨t, rest, -, rfl⟩ := finish_some hs
      exact h

def StartsOnTime (s s' : State) : Prop :=
  ∀ t ∈ starts s s', t.delayedRunTime ≠ 0 →
    t.delayedRunTime ≤ s.now ∧ ∀ u ∈ s'.loop.delayedWorkQueue, t.delayedRunTime ≤ u.delayedRunTime

theorem startsOnTime_self {s s' : State} (h : s'.started = s.started) : StartsOnTime s s' := by
  intro t ht
  rw [starts_self h] at ht
  exact absurd ht (by simp)

theorem step_startsOnTime {s s' : State} {l : Label} (hdir : Direct s)
    (hs : step s l = some s') : StartsOnTime s s' := by
  cases l with
  | tick d => obtain rfl := Option.some.inj hs; exact startsOnTime_self rfl
  | post quits delay nestable => obtain rfl := Option.some.inj hs; exact startsOnTime_self rfl
  | doWork =>
      obtain rfl := Option.some.inj hs
      intro t hst hne
      rw [starts_take] at hst
      have hw := doWork_works s.loop
      generalize doWork s.loop = c at hw hst
      cases hw with
      | refused | drained | again => exact absurd hst (by simp)
      | runs hn hn' hp hi hf =>
          rw [List.mem_singleton.mp hst] at hne
          exact absurd (immediate_time hi) hne
  | doDelayedWork =>
      obtain rfl := Option.some.inj hs
      intro t hst hne
      rw [starts_take] at hst
      have hw := doDelayedWork_works s.loop s.now
      generalize doDelayedWork s.loop s.now = c at hw hst
      cases hw with
      | refused | early | defers => exact absurd hst (by simp)
      | runs hn hx ht hr hs' =>
          rw [List.mem_singleton.mp hst]
          refine ⟨?_, extract_key_le (less_run_time _) hx⟩
          rcases hr with rfl | rfl
          · exact ht
          · exact ht.trans hdir.recent
  | doIdleWork =>
      obtain rfl := Option.some.inj hs
      intro t hst hne
      rw [starts_take] at hst
      have hw := doIdleWork_works s.loop
      generalize doIdleWork s.loop = c at hw hst
      cases hw with
      | idle => exact absurd hst (by simp)
      | runs he => rw [hdir.deferredNil] at he; exact absurd he (by simp)
  | finish =>
      obtain ⟨t, rest, -, rfl⟩ := finish_some hs
      exact startsOnTime_self rfl

structure StrictTotalOn (q : List PendingTask) : Prop where
  irrefl : ∀ a ∈ q, less a a = false
  trans : ∀ a ∈ q, ∀ b ∈ q, ∀ c ∈ q, less a b = true → less b c = true → less a c = true
  total : ∀ a ∈ q, ∀ b ∈ q, a ≠ b → less a b = true ∨ less b a = true

theorem strictTotalOn_of_near {s : State} (h : Numbered s) (hn : Near s) :
    StrictTotalOn s.loop.delayedWorkQueue := by
  have hw := windowed_of_near h hn
  constructor
  · intro a ha
    rw [Bool.eq_false_iff, Ne, less_iff_rank hw ha ha]
    exact lt_irrefl _
  · intro a ha b hb c hc hab hbc
    rw [less_iff_rank hw ha hc]
    exact ((less_iff_rank hw hb hc).mp hbc).trans ((less_iff_rank hw ha hb).mp hab)
  · intro a ha b hb hne
    rw [less_iff_rank hw ha hb, less_iff_rank hw hb ha]
    have hr : rank s.entered.idxOf b ≠ rank s.entered.idxOf a := by
      intro he
      have hi : s.entered.idxOf b = s.entered.idxOf a := congrArg (fun r => (ofLex r).2) he
      exact hne ((List.idxOf_inj (h.queue.subset ha)).mp hi.symm)
    exact lt_or_gt_of_ne hr

/-- Delayed tasks of one loop whose posts are all nestable, whatever drives
it. As long as tasks that wait together were inserted fewer than 2^31
insertions apart, the wrapped comparison is a strict total order on them and
tasks with equal times start in the order of their insertions. -/
theorem delayed_tasks_start_in_order (now : TimePoint) (ls : List Label)
    (hls : ∀ l ∈ ls, NestablePost l) :
    Along step (fun s _ s' => StartsOnTime s s') (initial now) ls ∧
    (Along step (fun _ _ s' => Near s') (initial now) ls →
      Along step (fun _ _ s' => StrictTotalOn s'.loop.delayedWorkQueue ∧ ∀ time, time ≠ 0 →
        s'.started.filter (runsAt time) <+: s'.entered.filter (runsAt time)) (initial now) ls) := by
  have hguard : Along step (fun _ l _ => NestablePost l) (initial now) ls := along_of_labels hls
  constructor
  · refine along_of_invariant (I := Direct) ?_ (initial_direct now) hguard
    intro s l t hdir hl hs
    exact ⟨step_direct hdir hl hs, step_startsOnTime hdir hs⟩
  · intro hnear
    refine along_of_invariant
      (I := fun s => Numbered s ∧ Direct s ∧ Near s ∧ InEntryOrder s) ?_
      ⟨initial_numbered now, initial_direct now, by simp [Near, initial, emptyLoop],
        fun _ _ => rfl⟩ (hguard.and hnear)
    rintro s l t ⟨hnum, hdir, hn, hio⟩ ⟨hl, hn'⟩ hs
    have hnum' := step_numbered hnum hs
    have hio' := step_inEntryOrder hnum hdir hn hio hs
    exact ⟨⟨hnum', step_direct hdir hl hs, hn', hio'⟩, strictTotalOn_of_near hnum' hn',
      fun time ht => ⟨_, (hio' time ht).symm⟩⟩

def threeDelayed : List Label :=
  [.post false 2 true, .post false 1 true, .post false 1 true, .doWork, .tick 1000000,
    .doDelayedWork, .finish, .doDelayedWork]

theorem delayed_tasks_start_in_order_three :
    Along step (fun s _ s' => StartsOnTime s s') (initial 7) threeDelayed ∧
    Along step (fun _ _ s' => StrictTotalOn s'.loop.delayedWorkQueue ∧ ∀ time, time ≠ 0 →
        s'.started.filter (runsAt time) <+: s'.entered.filter (runsAt time)) (initial 7)
      threeDelayed ∧
    ((exec step (initial 7) threeDelayed).map (fun s => s.started.map ticket)) = some [1, 2] := by
  have h := delayed_tasks_start_in_order 7 threeDelayed (by simp [threeDelayed, NestablePost])
  exact ⟨h.1, h.2 (by unfold Near; decide +kernel), by decide +kernel⟩

end Ashe.DelayedOrder
