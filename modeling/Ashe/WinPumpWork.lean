import Ashe.WinPumpMoves

namespace Ashe.WinPumpWork

open Tasks MessagePumpForWin WinPumpSteps WinPumpMoves Runs

def flag (s : Pump) : Nat := if s.workState = .haveWork then 1 else 0

/-- The kMsgHaveWork messages in the queue, with those who are about to post one and those
who have taken one out and still have to take HAVE_WORK back. -/
def pendingWork (s : Pump) : Nat :=
  s.calls.countP (fun c => scheduleHolds c.2) + s.queue.count .haveWork + holding s.stack

structure Single (s : Pump) : Prop where
  single : pendingWork s = flag s
  clean : Clean s

/-- The two DCHECKs of processPumpReplacementMessage. -/
def Checked (s : Pump) : Prop :=
  ∀ f ∈ s.stack, ∀ got,
    (∃ shouldQuit dispatcher, f = .run shouldQuit dispatcher (.replacing (.resetting got))) ∨
      f = .handler (.replacing (.resetting got)) →
    got ≠ some .haveWork ∧ s.workState = .haveWork

theorem flag_le (s : Pump) : flag s ≤ 1 := by
  rw [flag]
  split <;> decide

/-- A step of scheduleWork moves HAVE_WORK from the flag to the caller, and from there to
the queue or back. -/
theorem scheduleWork_pending {s : Pump} (posted : Bool) {call : Schedule}
    (h : held call ≤ flag s) :
    (scheduleWork s posted call).1.queue.count .haveWork + held (scheduleWork s posted call).2 +
        flag s =
      s.queue.count .haveWork + held call + flag (scheduleWork s posted call).1 := by
  cases call with
  | exchanging =>
      cases hwork : s.workState <;> simp [scheduleWork, hwork, flag, held, scheduleHolds]
  | posting => cases posted <;> simp [scheduleWork, flag, held, scheduleHolds, List.count_append]
  | unposting =>
      have hflag : flag s = 1 := Nat.le_antisymm (flag_le s) h
      rw [hflag]
      simp [scheduleWork, flag, held, scheduleHolds]
  | returned => rfl

theorem countP_held (calls : List (Nat × Schedule)) {i ticket : Nat} {call : Schedule}
    (h : calls[i]? = some (ticket, call)) (call' : Schedule) :
    (calls.set i (ticket, call')).countP (fun c => scheduleHolds c.2) + held call =
      calls.countP (fun c => scheduleHolds c.2) + held call' := by
  have hset := Crowd.countP_set h (ticket, call') (fun c => scheduleHolds c.2)
  rw [held, held]
  cases hold : scheduleHolds call <;> cases hnew : scheduleHolds call' <;>
    simp_all

theorem held_le {calls : List (Nat × Schedule)} {i ticket : Nat} {call : Schedule}
    (h : calls[i]? = some (ticket, call)) :
    held call ≤ calls.countP (fun c => scheduleHolds c.2) := by
  rw [held]
  cases hold : scheduleHolds call with
  | false => exact Nat.zero_le _
  | true => exact List.countP_pos_iff.mpr ⟨_, List.mem_of_getElem? h, hold⟩

theorem moves_single {s s' : Pump} {l : Label} (h : Single s) (hm : Moves s l s') :
    Single s' := by
  have hsum := h.single
  rw [pendingWork] at hsum
  cases hm with
  | calm hc =>
      refine ⟨?_, hc.clean h.clean⟩
      rw [pendingWork, flag, hc.calls, hc.queue, hc.holding, hc.workState]
      exact hsum
  | sent =>
      refine ⟨?_, List.forall_mem_cons.mpr ⟨rfl, h.clean⟩⟩
      rw [pendingWork, holding_cons]
      exact hsum
  | post quits delay nestable =>
      refine ⟨?_, h.clean⟩
      have hcalls : (MessagePumpForWin.post s quits delay nestable).calls.countP
          (fun c => scheduleHolds c.2) = s.calls.countP (fun c => scheduleHolds c.2) := by
        simp only [MessagePumpForWin.post]
        split
        next => simp [scheduleHolds]
        next => rfl
      rw [pendingWork, hcalls]
      exact hsum
  | @schedule i ticket call posted hi =>
      have hle : held call ≤ flag s := by
        have := held_le hi
        omega
      have hwork := scheduleWork_pending posted hle
      have hcalls := countP_held s.calls hi (scheduleWork s posted call).2
      refine ⟨?_, ?_⟩
      · simp only [pendingWork, scheduleWork_calls, scheduleWork_stack] at *
        simp only [flag] at *
        omega
      · rw [Clean, scheduleWork_stack]
        exact h.clean
  | fetch hmoved hq hw hh =>
      refine ⟨?_, hmoved.clean h.clean⟩
      rw [hq, List.count_cons_self] at hsum
      rw [pendingWork, flag, hmoved.calls, hh, hw]
      rw [flag] at hsum
      omega
  | doubled hq hh =>
      have hcount := List.count_pos_iff.mpr hq
      have := flag_le s
      omega
  | reset hmoved hq hw hh =>
      refine ⟨?_, hmoved.clean h.clean⟩
      have := flag_le s
      rw [pendingWork, flag, hmoved.calls, hq, hw]
      simp only [reduceCtorEq, if_false]
      omega
  | advance posted call hmoved hq hw hheld hh =>
      have hle : held call ≤ flag s := by omega
      have hwork := scheduleWork_pending posted hle
      refine ⟨?_, hmoved.clean h.clean⟩
      rw [pendingWork, flag, hmoved.calls, hq, hw]
      simp only [flag] at hsum hwork
      omega

theorem idlePump_single (now : TimePoint) : Single (idlePump now) :=
  ⟨rfl, by simp [Clean, idlePump]⟩

theorem single_checked {s : Pump} (h : Single s) : Checked s := by
  intro f hf got hgot
  have hclean := h.clean f hf
  have hhold : frameHolds f = true := by
    rcases hgot with ⟨_, _, rfl⟩ | rfl <;> rfl
  have hpos : 0 < holding s.stack := List.countP_pos_iff.mpr ⟨f, hf, hhold⟩
  have hsum := h.single
  rw [pendingWork, flag] at hsum
  refine ⟨?_, ?_⟩
  · rintro rfl
    rcases hgot with ⟨_, _, rfl⟩ | rfl <;> cases hclean
  · split at hsum
    next hwork => exact hwork
    next => omega

/-- Whatever posts and fails to, HAVE_WORK stands for one kMsgHaveWork that is in the queue,
or on its way there or back, and for no more than one. The checks of
processPumpReplacementMessage hold. -/
theorem work_message_single (now : TimePoint) {s : Pump}
    (h : Reachable step (idlePump now) s) : pendingWork s = flag s ∧ Checked s := by
  have hsingle : Single s := by
    refine h.invariant (I := Single) (fun s l s' hs hstep => ?_) (idlePump_single now)
    exact moves_single hs (step_moves hs.clean hstep)
  exact ⟨hsingle.single, single_checked hsingle⟩

def replacedMessage : List Label :=
  [.post false 0 true, .schedule 0 true, .schedule 0 true, .postOther, .run false,
    .peek (some .haveWork) false, .peek (some .other) false]

theorem work_message_single_replaced :
    ((exec step (idlePump 1) replacedMessage).map fun s => (s.stack, pendingWork s)) =
      some ([.run false false (.replacing (.resetting (some .other)))], 1) ∧
    ∀ s, exec step (idlePump 1) replacedMessage = some s → pendingWork s = flag s ∧ Checked s :=
  ⟨by decide +kernel, fun _ h => work_message_single 1 ⟨_, h⟩⟩

def Posts : Label → Prop
  | .schedule _ posted | .advance posted => posted = true
  | _ => True

instance (l : Label) : Decidable (Posts l) := by
  cases l <;> unfold Posts <;> infer_instance

/-- Where no doWork is to come before the wait and tasks are allowed, the first task that
came in since has its post still at scheduleWork, or HAVE_WORK is set. -/
def Awake (s : Pump) : Prop :=
  HeadPast s.stack → s.tasks.loop.nestableTasksAllowed = true →
    ∀ t, s.tasks.loop.incomingQueue.head? = some t →
      (ticket t, .exchanging) ∈ s.calls ∨ s.workState = .haveWork

structure Waking (s : Pump) : Prop where
  outer : Outer s
  posts : ∀ c ∈ s.calls, c.2 ≠ .unposting
  awake : Awake s

theorem idlePump_waking (now : TimePoint) : Waking (idlePump now) := by
  constructor
  · simp [Outer, idlePump]
  · simp [idlePump]
  · simp [Awake, HeadPast, idlePump]

theorem scheduleWork_posts {s : Pump} {call : Schedule} (h : call ≠ .unposting) :
    (scheduleWork s true call).2 ≠ .unposting ∧
      (s.workState = .haveWork → (scheduleWork s true call).1.workState = .haveWork) ∧
      (call = .exchanging → (scheduleWork s true call).1.workState = .haveWork) := by
  cases call with
  | exchanging =>
      refine ⟨?_, fun _ => rfl, fun _ => rfl⟩
      rw [scheduleWork]
      dsimp only
      split <;> nofun
  | posting => exact ⟨nofun, id, nofun⟩
  | unposting => exact absurd rfl h
  | returned => exact ⟨nofun, id, nofun⟩

theorem post_waking {s : Pump} (h : Waking s) (quits : Bool) (delay : Int) (nestable : Bool) :
    Waking (MessagePumpForWin.post s quits delay nestable) := by
  refine ⟨h.outer, ?_, fun hpast hallowed t ht => ?_⟩
  · rw [MessagePumpForWin.post]
    dsimp only
    split
    next =>
      intro c hc
      rcases List.mem_append.mp hc with hc | hc
      · exact h.posts c hc
      · rw [List.mem_singleton.mp hc]
        nofun
    next => exact h.posts
  · cases hin : s.tasks.loop.incomingQueue with
    | nil =>
        simp only [MessagePumpForWin.post, LoopSteps.post, MessageLoop.addToIncomingQueue, hin,
          List.nil_append, List.head?_cons, Option.some.injEq] at ht
        subst ht
        simp [MessagePumpForWin.post, MessageLoop.addToIncomingQueue, hin, ticket]
    | cons first rest =>
        have hfirst : s.tasks.loop.incomingQueue.head? = some t := by
          simp only [MessagePumpForWin.post, LoopSteps.post, MessageLoop.addToIncomingQueue, hin,
            List.cons_append, List.head?_cons] at ht
          rw [hin]
          exact ht
        simpa [MessagePumpForWin.post, MessageLoop.addToIncomingQueue, hin] using
          h.awake hpast hallowed t hfirst

theorem schedule_waking {s : Pump} (h : Waking s) {i k : Nat} {call : Schedule}
    (hi : s.calls[i]? = some (k, call)) :
    Waking { (scheduleWork s true call).1 with
      calls := (scheduleWork s true call).1.calls.set i (k, (scheduleWork s true call).2) } := by
  obtain ⟨hnext, hkept, hset⟩ :=
    scheduleWork_posts (s := s) (h.posts _ (List.mem_of_getElem? hi))
  refine ⟨?_, fun c hc => ?_, fun hpast hallowed t ht => ?_⟩
  · rw [Outer, scheduleWork_stack]
    exact h.outer
  · rw [scheduleWork_calls] at hc
    rcases List.mem_or_eq_of_mem_set hc with hc | rfl
    · exact h.posts c hc
    · exact hnext
  · simp only [scheduleWork_stack, scheduleWork_tasks, scheduleWork_calls] at *
    rcases h.awake hpast hallowed t ht with hmem | hwork
    · obtain ⟨j, hj⟩ := List.mem_iff_getElem?.mp hmem
      by_cases hij : i = j
      · subst hij
        have heq := Option.some.inj (hi.symm.trans hj)
        exact .inr (hset (Prod.ext_iff.mp heq).2)
      · refine .inl (List.mem_of_getElem? (i := j) ?_)
        rw [List.getElem?_set_ne hij]
        exact hj
    · exact .inr (hkept hwork)

theorem moved_waking {s s' : Pump} (hm : Moved s s') (h : Waking s) : Waking s' :=
  ⟨hm.outer h.outer, hm.calls ▸ h.posts, fun hpast => absurd hpast (hm.notPast h.outer)⟩

theorem moves_waking {s s' : Pump} {l : Label} (h : Waking s) (hsingle : Single s)
    (hposts : Posts l) (hl : l ≠ .sent) (hm : Moves s l s') : Waking s' := by
  cases hm with
  | sent => exact absurd rfl hl
  | calm hc =>
      refine ⟨hc.outer h.outer, hc.calls ▸ h.posts, fun hpast hallowed t ht => ?_⟩
      have hin : s'.tasks.loop.incomingQueue = s.tasks.loop.incomingQueue := by
        rcases hc.incoming with hin | hin
        · exact hin
        · rw [hin] at ht
          cases ht
      rcases hc.past h.outer hpast hallowed with ⟨hold, hallowed⟩ | hnone
      · rw [hc.calls, hc.workState]
        exact h.awake hold hallowed t (hin ▸ ht)
      · rw [hnone] at ht
        cases ht
  | post quits delay nestable => exact post_waking h quits delay nestable
  | schedule posted hi =>
      obtain rfl : posted = true := hposts
      exact schedule_waking h hi
  | fetch hmoved hq hw hh => exact moved_waking hmoved h
  | doubled hq hh =>
      have hcount := List.count_pos_iff.mpr hq
      have hsum := hsingle.single
      have := flag_le s
      rw [pendingWork] at hsum
      omega
  | reset hmoved hq hw hh => exact moved_waking hmoved h
  | advance posted call hmoved hq hw hheld hh => exact moved_waking hmoved h

/-- The window procedure of a message that was sent, which PeekMessageW has called, enters no
loop. -/
def Leaf (s : Pump) : Label → Prop
  | .run _ | .native => s.stack.head? ≠ some .sent
  | _ => True

instance (s : Pump) (l : Label) : Decidable (Leaf s l) := by
  cases l <;> unfold Leaf <;> infer_instance

def unsent : List Frame → List Frame
  | .sent :: rest => rest
  | stack => stack

def base (s : Pump) : Pump := { s with stack := unsent s.stack }

theorem base_eq {s : Pump} (h : s.stack.head? ≠ some .sent) : base s = s := by
  have hstack : unsent s.stack = s.stack := by
    rw [unsent.eq_def]
    split
    next heq =>
      rw [heq] at h
      exact absurd rfl h
    next => rfl
  rw [base, hstack]

theorem base_sent {s : Pump} {rest : List Frame} (hs : s.stack = .sent :: rest) :
    (base s).stack = rest := by
  rw [base, hs]
  rfl

theorem waking_base {s : Pump} (h : Waking s) : Waking (base s) := by
  by_cases hs : s.stack.head? = some .sent
  · obtain ⟨rest, hs⟩ := List.head?_eq_some_iff.mp hs
    have hlower : ∀ f ∈ rest, lowerFrame f = true := by
      have houter := h.outer
      rw [Outer, hs] at houter
      exact houter
    refine ⟨fun f hf => ?_, h.posts, fun hpast => ?_⟩
    · rw [base_sent hs] at hf
      exact hlower f (List.mem_of_mem_tail hf)
    · rw [base_sent hs] at hpast
      exact absurd hpast (not_headPast_lower hlower)
  · rw [base_eq hs]
    exact h

theorem waking_quitRun {s : Pump} (h : Waking s) : Waking { s with stack := quitRun s.stack } := by
  have hpast : HeadPast (quitRun s.stack) → HeadPast s.stack := by
    cases hstack : s.stack with
    | nil => exact id
    | cons f rest =>
        cases f with
        | run shouldQuit dispatcher pc =>
            rw [quitRun, headPast_cons, headPast_cons]
            intro h
            rw [← h]
            cases pc with
            | delayed more => cases more <;> rfl
            | next | replacing | dispatching | work | idle | inTask | waiting => rfl
        | native | handler | sent => exact headPast_cons.mpr ∘ headPast_cons.mp
  refine ⟨?_, h.posts, fun hq => h.awake (hpast hq)⟩
  have houter := h.outer
  rw [Outer] at houter ⊢
  cases hstack : s.stack with
  | nil => simp [quitRun]
  | cons f rest =>
      rw [hstack] at houter
      cases f with
      | run => exact houter
      | native | handler | sent => exact quitRun_lower houter

/-- While a sent message is handled, others post, and its window procedure posts or quits. -/
theorem step_waking_sent {s s' : Pump} {l : Label} {rest : List Frame}
    (hs : s.stack = .sent :: rest) (h : Waking (base s)) (hposts : Posts l) (hleaf : Leaf s l)
    (hstep : step s l = some s') : Waking (base s') := by
  cases l with
  | tick | postOther | postQuit =>
      obtain rfl := Option.some.inj hstep
      exact ⟨h.outer, h.posts, h.awake⟩
  | post quits delay nestable =>
      obtain rfl := Option.some.inj hstep
      exact post_waking h quits delay nestable
  | schedule i posted =>
      obtain rfl : posted = true := hposts
      rw [step] at hstep
      split at hstep
      next => cases hstep
      next ticket call hi =>
        obtain rfl := Option.some.inj hstep
        have hnext := @schedule_waking _ h _ ticket call hi
        have hbase : (scheduleWork (base s) true call).1 = base (scheduleWork s true call).1 ∧
            (scheduleWork (base s) true call).2 = (scheduleWork s true call).2 := by
          cases call <;> exact ⟨rfl, rfl⟩
        rw [hbase.1, hbase.2] at hnext
        exact hnext
  | run | native =>
      rw [Leaf, hs] at hleaf
      exact absurd rfl hleaf
  | quit =>
      rw [step, hs] at hstep
      split at hstep
      next =>
        obtain rfl := Option.some.inj hstep
        have hquit := waking_quitRun h
        rw [base_sent hs] at hquit
        exact hquit
      next => cases hstep
  | endNative | sent =>
      rw [step, hs] at hstep
      cases hstep
  | peek got sent =>
      obtain ⟨s₁, hpeek, hpeeked⟩ := Option.bind_eq_some_iff.mp hstep
      rw [peeked.eq_def, (peekMessage_spec hpeek).1, hs] at hpeeked
      cases hpeeked
  | deliver =>
      rw [step, deliver, hs] at hstep
      cases hstep
  | advance posted =>
      rw [step, advance, hs] at hstep
      cases hstep
  | leave keep =>
      rw [step, leave, hs] at hstep
      obtain rfl := Option.some.inj hstep
      rw [base, hs] at h
      exact waking_base h
  | wake sent =>
      rw [step, hs] at hstep
      cases hstep

theorem step_waking {s s' : Pump} {l : Label} (h : Waking (base s)) (hsingle : Single s)
    (hposts : Posts l) (hleaf : Leaf s l) (hstep : step s l = some s') : Waking (base s') := by
  by_cases hs : s.stack.head? = some .sent
  · obtain ⟨rest, hs⟩ := List.head?_eq_some_iff.mp hs
    exact step_waking_sent hs h hposts hleaf hstep
  rw [base_eq hs] at h
  by_cases hl : l = .sent
  · subst hl
    rw [step] at hstep
    split at hstep
    next =>
      obtain rfl := Option.some.inj hstep
      exact h
    next => cases hstep
  · exact waking_base (moves_waking h hsingle hposts hl (step_moves hsingle.clean hstep))

/-- The pump blocks for a message in its innermost run, in which tasks are allowed. -/
def Sleeps (s : Pump) : Prop :=
  (∃ shouldQuit dispatcher rest, s.stack = .run shouldQuit dispatcher .waiting :: rest) ∧
    s.tasks.loop.nestableTasksAllowed = true

/-- While PostMessageW finds room and the window procedures that PeekMessageW itself calls enter
no loop, the pump never sleeps over a posted task: a kMsgHaveWork is in its queue, or a post is
on its way to put one there. -/
theorem sleep_wakes (now : TimePoint) (ls : List Label) {s : Pump}
    (hguard : Along step (fun s l _ => Posts l ∧ Leaf s l) (idlePump now) ls)
    (h : exec step (idlePump now) ls = some s) (hsleeps : Sleeps s)
    (hin : s.tasks.loop.incomingQueue ≠ []) :
    .haveWork ∈ s.queue ∨ ∃ c ∈ s.calls, c.2 = .exchanging ∨ c.2 = .posting := by
  obtain ⟨hsingle, hwaking⟩ : Single s ∧ Waking (base s) := by
    refine exec_of_invariant (I := fun s => Single s ∧ Waking (base s))
      (G := fun s l _ => Posts l ∧ Leaf s l)
      ?_ ⟨idlePump_single now, idlePump_waking now⟩ hguard h
    intro s l s' hI hl hstep
    exact ⟨moves_single hI.1 (step_moves hI.1.clean hstep),
      step_waking hI.2 hI.1 hl.1 hl.2 hstep⟩
  obtain ⟨⟨shouldQuit, dispatcher, rest, hs⟩, hallowed⟩ := hsleeps
  rw [base_eq (by rw [hs]; nofun)] at hwaking
  obtain ⟨t, ht⟩ : ∃ t, s.tasks.loop.incomingQueue.head? = some t := by
    cases hq : s.tasks.loop.incomingQueue with
    | nil => exact absurd hq hin
    | cons t ts => exact ⟨t, rfl⟩
  have hpast : HeadPast s.stack := by
    rw [hs]
    exact headPast_cons.mpr rfl
  rcases hwaking.awake hpast hallowed t ht with hmem | hwork
  · exact .inr ⟨_, hmem, .inl rfl⟩
  · have hnone : holding s.stack = 0 := by
      have hrest := hwaking.outer
      rw [Outer, hs, List.tail_cons] at hrest
      rw [hs, holding_cons, holding_lower hrest]
      rfl
    have hsum := hsingle.single
    rw [pendingWork, flag, if_pos hwork, hnone] at hsum
    by_cases hqueue : .haveWork ∈ s.queue
    · exact .inl hqueue
    · rw [List.count_eq_zero.mpr hqueue] at hsum
      obtain ⟨c, hc, hhold⟩ := List.countP_pos_iff.mp
        (show 0 < s.calls.countP (fun c => scheduleHolds c.2) by omega)
      refine .inr ⟨c, hc, .inr ?_⟩
      cases hcall : c.2 with
      | posting => rfl
      | unposting => exact absurd hcall (hwaking.posts c hc)
      | exchanging | returned => simp [hcall, scheduleHolds] at hhold

def postedAsleep : List Label :=
  [.run false, .peek none false, .advance true, .advance true, .advance true, .post false 0 true,
    .schedule 0 true]

theorem sleep_wakes_postedAsleep : ∃ s, exec step (idlePump 1) postedAsleep = some s ∧ Sleeps s ∧
    (.haveWork ∈ s.queue ∨ ∃ c ∈ s.calls, c.2 = .exchanging ∨ c.2 = .posting) := by
  have hend : ((exec step (idlePump 1) postedAsleep).map fun s =>
      (s.stack, s.tasks.loop.nestableTasksAllowed, s.tasks.loop.incomingQueue.isEmpty)) =
        some ([.run false false .waiting], true, false) := by decide +kernel
  obtain ⟨s, hs, heq⟩ := Option.map_eq_some_iff.mp hend
  simp only [Prod.mk.injEq] at heq
  have hsleeps : Sleeps s := ⟨⟨false, false, [], heq.1⟩, heq.2.1⟩
  refine ⟨s, hs, hsleeps, sleep_wakes 1 postedAsleep (by decide +kernel) hs hsleeps ?_⟩
  rw [ne_eq, ← List.isEmpty_iff, heq.2.2]
  decide

end Ashe.WinPumpWork
