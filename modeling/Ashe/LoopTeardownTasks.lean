import Mathlib.Data.List.Perm.Basic
import Ashe.DelayedLog
import Ashe.LoopHeld
import Ashe.LoopTeardown

namespace Ashe.LoopTeardownTasks

open PriorityQueue Tasks MessageLoop LoopCalls DelayedLog LoopHeld LoopTeardown Runs

def tally (a : Nat) (ts : List PendingTask) : Nat := (ts.map ticket).count a

@[simp]
theorem tally_nil (a : Nat) : tally a [] = 0 := rfl

@[simp]
theorem tally_append (a : Nat) (ts us : List PendingTask) :
    tally a (ts ++ us) = tally a ts + tally a us := by
  rw [tally, List.map_append, List.count_append, tally, tally]

theorem tally_cons (a : Nat) (t : PendingTask) (ts : List PendingTask) :
    tally a (t :: ts) = tally a [t] + tally a ts := tally_append a [t] ts

theorem tally_perm {ts us : List PendingTask} (h : ts.Perm us) (a : Nat) :
    tally a ts = tally a us := (h.map ticket).count_eq a

theorem tally_numbered (a : Nat) (k : BitVec 32) (t : PendingTask) :
    tally a [{ t with sequenceNum := k }] = tally a [t] := rfl

theorem tally_numberFrom (a : Nat) (k : BitVec 32) (ts : List PendingTask) :
    tally a (numberFrom k ts) = tally a ts := by
  rw [tally, numberFrom_ticket, tally]

theorem tally_filed {m m' : Loop} {done : List PendingTask} (h : Filed m m' done) (a : Nat) :
    tally a m'.delayedWorkQueue + tally a m'.deferredNonNestableWorkQueue =
      tally a m.delayedWorkQueue + tally a m.deferredNonNestableWorkQueue + tally a done := by
  have hdone := tally_perm (List.filter_append_perm delayed done) a
  rw [tally_append] at hdone
  rw [h.delayedQueue, h.deferredQueue, tally_append, tally_append, tally_numberFrom]
  omega

def known (s : LoopSteps.State) : List PendingTask := held s ++ s.executed

theorem tally_known (a : Nat) (s : LoopSteps.State) : tally a (known s) =
    tally a (pending s.loop) + tally a s.loop.delayedWorkQueue +
      tally a s.loop.deferredNonNestableWorkQueue + tally a s.active + tally a s.executed := by
  simp only [known, held, tally_append]

theorem take_executed (s : LoopSteps.State) (c : Call) :
    (LoopSteps.take s c).executed = s.executed := by
  rw [LoopSteps.take]
  split <;> rfl

/-- A delegate call that keeps the tasks, counting the one that it runs. -/
theorem take_tally {s : LoopSteps.State} {c : Call} {a : Nat}
    (h : tally a (pending c.loop) + tally a c.loop.delayedWorkQueue +
        tally a c.loop.deferredNonNestableWorkQueue +
        (match c.outcome with | .runs t => tally a [t] | _ => 0) =
      tally a (pending s.loop) + tally a s.loop.delayedWorkQueue +
        tally a s.loop.deferredNonNestableWorkQueue) :
    tally a (known (LoopSteps.take s c)) = tally a (known s) := by
  rw [tally_known, tally_known, LoopSteps.take_loop, LoopSteps.take_active, take_executed]
  cases hc : c.outcome with
  | runs t =>
      simp only [hc] at h ⊢
      rw [tally_cons]
      omega
  | returns | again =>
      simp only [hc] at h ⊢
      omega

theorem doWork_tally (s : LoopSteps.State) (a : Nat) :
    tally a (known (LoopSteps.take s (doWork s.loop))) = tally a (known s) := by
  apply take_tally
  have hw := doWork_works s.loop
  generalize doWork s.loop = c at hw
  cases hw with
  | refused | drained => rfl
  | again hn hn' hp hf =>
      have hfiled := tally_filed hf a
      rw [hp, tally_append]
      dsimp only
      omega
  | runs hn hn' hp ht hf =>
      have hfiled := tally_filed hf a
      rw [hp, tally_append, tally_cons]
      dsimp only
      omega

theorem doDelayedWork_tally (s : LoopSteps.State) (a : Nat) :
    tally a (known (LoopSteps.take s (doDelayedWork s.loop s.now))) = tally a (known s) := by
  apply take_tally
  have hw := doDelayedWork_works s.loop s.now
  generalize doDelayedWork s.loop s.now = c at hw
  cases hw with
  | refused | early => rfl
  | runs hn hx =>
      have hperm := tally_perm (extract_perm hx) a
      rw [tally_cons] at hperm
      dsimp only [pending]
      omega
  | defers hn hx =>
      have hperm := tally_perm (extract_perm hx) a
      rw [tally_cons] at hperm
      simp only [pending, tally_append]
      omega

theorem doIdleWork_tally (s : LoopSteps.State) (a : Nat) :
    tally a (known (LoopSteps.take s (doIdleWork s.loop))) = tally a (known s) := by
  apply take_tally
  have hw := doIdleWork_works s.loop
  generalize doIdleWork s.loop = c at hw
  cases hw with
  | idle => rfl
  | runs h =>
      rw [h, tally_cons]
      dsimp only [pending]
      omega

theorem finish_tally {s s' : LoopSteps.State} (h : LoopSteps.finish s = some s') (a : Nat) :
    s'.posted = s.posted ∧ tally a (known s') = tally a (known s) := by
  obtain ⟨t, rest, hact, rfl⟩ := LoopSteps.finish_some h
  refine ⟨rfl, ?_⟩
  rw [tally_known, tally_known, hact, tally_cons]
  simp only [finishTask, pending, tally_append]
  omega

/-- A step of the loop keeps its tasks, up to those that it posts. -/
theorem core_tally {s s' : LoopSteps.State} {l : LoopSteps.Label}
    (h : LoopSteps.step s l = some s') (a : Nat) :
    tally a (known s') + tally a s.posted = tally a (known s) + tally a s'.posted := by
  cases l with
  | tick d =>
      obtain rfl := Option.some.inj h
      rfl
  | post quits delay nestable =>
      obtain rfl := Option.some.inj h
      rw [tally_known, tally_known]
      simp only [LoopSteps.post, addToIncomingQueue, pending, tally_append]
      omega
  | doWork =>
      obtain rfl := Option.some.inj h
      rw [doWork_tally, LoopSteps.take_posted]
  | doDelayedWork =>
      obtain rfl := Option.some.inj h
      rw [doDelayedWork_tally, LoopSteps.take_posted]
  | doIdleWork =>
      obtain rfl := Option.some.inj h
      rw [doIdleWork_tally, LoopSteps.take_posted]
  | finish =>
      obtain ⟨hposted, hknown⟩ := finish_tally h a
      rw [hposted, hknown]

theorem core_tickets {s s' : LoopSteps.State} {l : LoopSteps.Label}
    (h : LoopSteps.step s l = some s')
    (ht : s.posted.map ticket = List.range s.posted.length) :
    s'.posted.map ticket = List.range s'.posted.length := by
  cases l with
  | tick d =>
      obtain rfl := Option.some.inj h
      exact ht
  | post quits delay nestable =>
      obtain rfl := Option.some.inj h
      simp [LoopSteps.post, List.range_succ, ht, ticket]
  | doWork | doDelayedWork | doIdleWork =>
      obtain rfl := Option.some.inj h
      rw [LoopSteps.take_posted]
      exact ht
  | finish =>
      rw [(finish_tally h 0).1]
      exact ht

inductive Destroys (s : State) : State → Prop
  | begins (hpc : s.pc = .alive) (ha : s.core.active = []) : Destroys s (s.goto (.reload 0))
  | reload {round : Nat} (hpc : s.pc = .reload round) : Destroys s
      ((s.withLoop (reloadWorkQueue s.core.loop)).goto
        (.deleteWork round false (!(reloadWorkQueue s.core.loop).workQueue.isEmpty)))
  | toDelayed {round : Nat} {second didWork : Bool} {t : PendingTask} {rest : List PendingTask}
      (hpc : s.pc = .deleteWork round second didWork) (hq : s.core.loop.workQueue = t :: rest) :
      Destroys s (s.withLoop (addToDelayedWorkQueue { s.core.loop with workQueue := rest } t))
  | dropWork {round : Nat} {second didWork : Bool} {t : PendingTask} {rest : List PendingTask}
      (hpc : s.pc = .deleteWork round second didWork) (hq : s.core.loop.workQueue = t :: rest) :
      Destroys s ((s.withLoop { s.core.loop with workQueue := rest }).drop t)
  | workGone {round : Nat} {second didWork : Bool} (hpc : s.pc = .deleteWork round second didWork)
      (hq : s.core.loop.workQueue = []) : Destroys s (s.goto (.deleteDeferred round second
        (didWork || !s.core.loop.deferredNonNestableWorkQueue.isEmpty)))
  | dropDeferred {round : Nat} {second didWork : Bool} {t : PendingTask}
      {rest : List PendingTask} (hpc : s.pc = .deleteDeferred round second didWork)
      (hq : s.core.loop.deferredNonNestableWorkQueue = t :: rest) :
      Destroys s ((s.withLoop { s.core.loop with deferredNonNestableWorkQueue := rest }).drop t)
  | deferredGone {round : Nat} {second didWork : Bool}
      (hpc : s.pc = .deleteDeferred round second didWork)
      (hq : s.core.loop.deferredNonNestableWorkQueue = []) :
      Destroys s (s.goto (.deleteDelayed round second
        (didWork || !s.core.loop.delayedWorkQueue.isEmpty)))
  | dropDelayed {round : Nat} {second didWork : Bool} {t : PendingTask} {rest : List PendingTask}
      (hpc : s.pc = .deleteDelayed round second didWork)
      (hx : extract less s.core.loop.delayedWorkQueue = some (t, rest)) :
      Destroys s ((s.withLoop { s.core.loop with delayedWorkQueue := rest }).drop t)
  | firstOver {round : Nat} {didWork : Bool} (hpc : s.pc = .deleteDelayed round false didWork)
      (hq : s.core.loop.delayedWorkQueue = []) :
      Destroys s (s.goto (.deleteWork round true (!s.core.loop.workQueue.isEmpty)))
  | roundOver {round : Nat} (hpc : s.pc = .deleteDelayed round true true)
      (hq : s.core.loop.delayedWorkQueue = []) : Destroys s (s.goto (.reload (round + 1)))
  | loopOver {round : Nat} {didWork : Bool} (hpc : s.pc = .deleteDelayed round true didWork)
      (hq : s.core.loop.delayedWorkQueue = []) : Destroys s (s.goto (.checked round didWork))
  | detach {round : Nat} {didWork : Bool} (hpc : s.pc = .checked round didWork) :
      Destroys s (s.goto .detached)
  | members (hpc : s.pc = .detached) : Destroys s (destroyMembers s)

theorem destroy_destroys {s s' : State} (h : destroy s = some s') : Destroys s s' := by
  rw [destroy.eq_def] at h
  split at h
  next hpc =>
    split at h
    next ha =>
      obtain rfl := Option.some.inj h
      exact .begins hpc (List.isEmpty_iff.mp ha)
    next => cases h
  next round hpc =>
    obtain rfl := Option.some.inj h
    exact .reload hpc
  next round second didWork hpc =>
    obtain rfl := Option.some.inj h
    rw [deleteWork.eq_def]
    dsimp only
    split
    next hq => exact .workGone hpc hq
    next t rest hq =>
      split
      next => exact .toDelayed hpc hq
      next => exact .dropWork hpc hq
  next round second didWork hpc =>
    obtain rfl := Option.some.inj h
    rw [deleteDeferred.eq_def]
    dsimp only
    split
    next hq => exact .deferredGone hpc hq
    next t rest hq => exact .dropDeferred hpc hq
  next round second didWork hpc =>
    obtain rfl := Option.some.inj h
    rw [deleteDelayed.eq_def]
    dsimp only
    split
    next t rest hx => exact .dropDelayed hpc hx
    next hx =>
      have hq := extract_eq_none.mp hx
      cases second with
      | false => exact .firstOver hpc hq
      | true =>
          rw [if_neg (by decide)]
          split
          next hd =>
            rw [hd.1] at hpc
            exact .roundOver hpc hq
          next => exact .loopOver hpc hq
  next round didWork hpc =>
    obtain rfl := Option.some.inj h
    exact .detach hpc
  next hpc =>
    obtain rfl := Option.some.inj h
    exact .members hpc
  next => cases h

inductive Moves (s : State) : Label → State → Prop
  | tick (d : Nat) :
      Moves s (.life (.tick d)) { s with core := { s.core with now := s.core.now + d } }
  | post (quits : Bool) (delay : Int) (nestable : Bool) (ha : attached s.pc = true) :
      Moves s (.life (.post quits delay nestable))
        { s with core := LoopSteps.post s.core quits delay nestable }
  | refuse (quits : Bool) (delay : Int) (nestable : Bool) (ha : attached s.pc = false) :
      Moves s (.life (.post quits delay nestable)) (refuse s quits nestable)
  | live {l : LoopSteps.Label} {core : LoopSteps.State} (hpc : s.pc = .alive)
      (hc : LoopSteps.step s.core l = some core) : Moves s (.life l) { s with core := core }
  | destroy {s' : State} (hd : Destroys s s') : Moves s .destroy s'

theorem step_moves {s s' : State} {l : Label} (h : step s l = some s') : Moves s l s' := by
  have live {l : LoopSteps.Label} (h : (if s.pc = .alive then
      (LoopSteps.step s.core l).map fun core => { s with core := core } else none) = some s') :
      Moves s (.life l) s' := by
    split at h
    next hpc =>
      obtain ⟨core, hc, rfl⟩ := Option.map_eq_some_iff.mp h
      exact .live hpc hc
    next => cases h
  cases l with
  | destroy => exact .destroy (destroy_destroys h)
  | life l =>
      cases l with
      | tick d =>
          obtain rfl := Option.some.inj h
          exact .tick d
      | post quits delay nestable =>
          rw [step] at h
          split at h
          next ha =>
            obtain rfl := Option.some.inj h
            exact .post quits delay nestable ha
          next ha =>
            obtain rfl := Option.some.inj h
            exact .refuse quits delay nestable (Bool.eq_false_iff.mpr ha)
      | doWork | doDelayedWork | doIdleWork | finish => exact live h

/-- Each task is with the loop, or was run, or was dropped, and only once. -/
structure Accounted (s : State) : Prop where
  tickets : s.core.posted.map ticket = List.range s.core.posted.length
  fates : ∀ a, tally a s.core.posted = tally a (known s.core) + tally a s.dropped

theorem reloadWorkQueue_cases (m : Loop) : reloadWorkQueue m = m ∨
    m.workQueue = [] ∧
      reloadWorkQueue m = { m with workQueue := m.incomingQueue, incomingQueue := [] } := by
  rw [reloadWorkQueue]
  split
  next => exact .inl rfl
  next hw =>
    have hwork : m.workQueue = [] := by simpa using hw
    split
    next => exact .inl rfl
    next => exact .inr ⟨hwork, by rw [hwork]⟩

theorem reload_tally (s : State) (a : Nat) :
    tally a (known (s.withLoop (reloadWorkQueue s.core.loop)).core) = tally a (known s.core) := by
  rw [tally_known, tally_known, State.withLoop, reloadWorkQueue_pending]
  rcases reloadWorkQueue_cases s.core.loop with hm | ⟨-, hm⟩ <;> rw [hm]

theorem destroys_tally {s s' : State} (h : Destroys s s') (a : Nat) :
    s'.core.posted = s.core.posted ∧ tally a (known s'.core) + tally a s'.dropped =
      tally a (known s.core) + tally a s.dropped := by
  cases h with
  | begins | workGone | deferredGone | firstOver | roundOver | loopOver | detach =>
      exact ⟨rfl, rfl⟩
  | reload =>
      refine ⟨rfl, ?_⟩
      exact congrArg (· + tally a s.dropped) (reload_tally s a)
  | @toDelayed round second didWork t rest hpc hq =>
      have hcons := tally_cons a t rest
      refine ⟨rfl, ?_⟩
      rw [tally_known, tally_known]
      simp only [State.withLoop, addToDelayedWorkQueue, pending, hq, tally_append, tally_numbered]
      omega
  | @dropWork round second didWork t rest hpc hq =>
      have hcons := tally_cons a t rest
      refine ⟨rfl, ?_⟩
      rw [tally_known, tally_known]
      simp only [State.withLoop, State.drop, pending, hq, tally_append]
      omega
  | @dropDeferred round second didWork t rest hpc hq =>
      have hcons := tally_cons a t rest
      refine ⟨rfl, ?_⟩
      rw [tally_known, tally_known]
      simp only [State.withLoop, State.drop, pending, hq, tally_append]
      omega
  | dropDelayed hpc hx =>
      have hperm := tally_perm (extract_perm hx) a
      rw [tally_cons] at hperm
      refine ⟨rfl, ?_⟩
      rw [tally_known, tally_known]
      simp only [State.withLoop, State.drop, pending, tally_append]
      omega
  | members =>
      refine ⟨rfl, ?_⟩
      rw [tally_known, tally_known]
      simp only [destroyMembers, State.withLoop, pending, tally_append, tally_nil]
      omega

theorem moves_accounted {s s' : State} {l : Label} (h : Accounted s) (hm : Moves s l s') :
    Accounted s' := by
  cases hm with
  | tick d => exact ⟨h.tickets, h.fates⟩
  | post quits delay nestable ha =>
      have hc : LoopSteps.step s.core (.post quits delay nestable) =
        some (LoopSteps.post s.core quits delay nestable) := rfl
      refine ⟨core_tickets hc h.tickets, fun a => ?_⟩
      have hcore := core_tally hc a
      have hfates := h.fates a
      dsimp only
      omega
  | refuse quits delay nestable ha =>
      refine ⟨?_, fun a => ?_⟩
      · simp [refuse, List.range_succ, h.tickets, ticket]
      · have hfates := h.fates a
        have hknown : known (refuse s quits nestable).core = known s.core := rfl
        rw [hknown]
        simp only [refuse, tally_append]
        omega
  | @live l core hpc hc =>
      refine ⟨core_tickets hc h.tickets, fun a => ?_⟩
      have hcore := core_tally hc a
      have hfates := h.fates a
      dsimp only
      omega
  | destroy hd =>
      refine ⟨?_, fun a => ?_⟩
      · rw [(destroys_tally hd 0).1]
        exact h.tickets
      · obtain ⟨hposted, hsum⟩ := destroys_tally hd a
        have hfates := h.fates a
        rw [hposted]
        omega

theorem initial_accounted (now : TimePoint) : Accounted (initial now) := ⟨rfl, fun _ => rfl⟩

theorem Accounted.perm {s : State} (h : Accounted s) :
    (s.core.posted.map ticket).Perm ((held s.core ++ s.core.executed ++ s.dropped).map ticket) := by
  rw [List.perm_iff_count]
  intro a
  have hfates := h.fates a
  rw [← tally_append] at hfates
  exact hfates

def Emptied (m : Loop) : Pc → Prop
  | .alive => True
  | .reload round => round = 0
  | .deleteWork round second didWork => round = 0 ∧ (second = true → didWork = false ∧
      m.workQueue = [] ∧ m.deferredNonNestableWorkQueue = [] ∧ m.delayedWorkQueue = [])
  | .deleteDeferred round second didWork => round = 0 ∧ m.workQueue = [] ∧ (second = true →
      didWork = false ∧ m.deferredNonNestableWorkQueue = [] ∧ m.delayedWorkQueue = [])
  | .deleteDelayed round second didWork => round = 0 ∧ m.workQueue = [] ∧
      m.deferredNonNestableWorkQueue = [] ∧
      (second = true → didWork = false ∧ m.delayedWorkQueue = [])
  | .checked round didWork => round = 0 ∧ didWork = false ∧ m.workQueue = [] ∧
      m.deferredNonNestableWorkQueue = [] ∧ m.delayedWorkQueue = []
  | .detached => m.workQueue = [] ∧ m.deferredNonNestableWorkQueue = [] ∧ m.delayedWorkQueue = []
  | .gone => m.workQueue = [] ∧ m.deferredNonNestableWorkQueue = [] ∧ m.delayedWorkQueue = [] ∧
      m.incomingQueue = []

structure Clearing (s : State) : Prop where
  emptied : Emptied s.core.loop s.pc
  idle : s.pc ≠ .alive → s.core.active = []

/-- In the second call of a round there is nothing left to delete, so the first round is the
last one. -/
theorem destroys_emptied {s s' : State} (h : Emptied s.core.loop s.pc) (hd : Destroys s s') :
    Emptied s'.core.loop s'.pc := by
  cases hd with
  | begins => rfl
  | reload hpc =>
      rw [hpc] at h
      exact ⟨h, nofun⟩
  | @toDelayed round second didWork t rest hpc hq | @dropWork round second didWork t rest hpc hq =>
      rw [hpc] at h
      have hsecond : second = false := by
        by_contra hne
        have hw := (h.2 (Bool.eq_true_of_not_eq_false hne)).2.1
        rw [hq] at hw
        cases hw
      show Emptied _ s.pc
      rw [hpc, hsecond]
      exact ⟨h.1, nofun⟩
  | workGone hpc hq =>
      rw [hpc] at h
      refine ⟨h.1, hq, fun hsecond => ?_⟩
      obtain ⟨hwork, -, hdeferred, hdelayed⟩ := h.2 hsecond
      exact ⟨by rw [hwork, hdeferred]; rfl, hdeferred, hdelayed⟩
  | @dropDeferred round second didWork t rest hpc hq =>
      rw [hpc] at h
      have hsecond : second = false := by
        by_contra hne
        have hw := (h.2.2 (Bool.eq_true_of_not_eq_false hne)).2.1
        rw [hq] at hw
        cases hw
      show Emptied _ s.pc
      rw [hpc, hsecond]
      exact ⟨h.1, h.2.1, nofun⟩
  | deferredGone hpc hq =>
      rw [hpc] at h
      refine ⟨h.1, h.2.1, hq, fun hsecond => ?_⟩
      obtain ⟨hwork, -, hdelayed⟩ := h.2.2 hsecond
      exact ⟨by rw [hwork, hdelayed]; rfl, hdelayed⟩
  | @dropDelayed round second didWork t rest hpc hx =>
      rw [hpc] at h
      have hsecond : second = false := by
        by_contra hne
        have hw := (h.2.2.2 (Bool.eq_true_of_not_eq_false hne)).2
        rw [hw] at hx
        cases hx
      show Emptied _ s.pc
      rw [hpc, hsecond]
      exact ⟨h.1, h.2.1, h.2.2.1, nofun⟩
  | firstOver hpc hq =>
      rw [hpc] at h
      obtain ⟨hround, hwork, hdeferred, -⟩ := h
      exact ⟨hround, fun _ => ⟨by rw [hwork]; rfl, hwork, hdeferred, hq⟩⟩
  | roundOver hpc hq =>
      rw [hpc] at h
      have hwork := (h.2.2.2 rfl).1
      cases hwork
  | loopOver hpc hq =>
      rw [hpc] at h
      exact ⟨h.1, (h.2.2.2 rfl).1, h.2.1, h.2.2.1, hq⟩
  | detach hpc =>
      rw [hpc] at h
      exact h.2.2
  | members hpc => exact ⟨rfl, rfl, rfl, rfl⟩

theorem moves_clearing {s s' : State} {l : Label} (h : Clearing s) (hm : Moves s l s') :
    Clearing s' := by
  cases hm with
  | tick d => exact ⟨h.emptied, h.idle⟩
  | post quits delay nestable ha =>
      refine ⟨?_, h.idle⟩
      have hemptied := h.emptied
      dsimp only
      cases hpc : s.pc <;> rw [hpc] at hemptied ha <;> first | exact hemptied | cases ha
  | refuse quits delay nestable ha => exact ⟨h.emptied, h.idle⟩
  | @live l core hpc hc =>
      refine ⟨?_, fun hne => absurd hpc hne⟩
      dsimp only
      rw [hpc]
      trivial
  | destroy hd =>
      refine ⟨destroys_emptied h.emptied hd, fun _ => ?_⟩
      cases hd with
      | begins hpc ha => exact ha
      | reload hpc | toDelayed hpc | dropWork hpc | workGone hpc | dropDeferred hpc
      | deferredGone hpc | dropDelayed hpc | firstOver hpc | roundOver hpc | loopOver hpc
      | detach hpc | members hpc => exact h.idle (by rw [hpc]; nofun)

theorem initial_clearing (now : TimePoint) : Clearing (initial now) :=
  ⟨trivial, fun hne => absurd rfl hne⟩

theorem reachable_clearing {now : TimePoint} {s : State} (h : Reachable step (initial now) s) :
    Clearing s :=
  h.invariant (fun _ _ _ hs ht => moves_clearing hs (step_moves ht)) (initial_clearing now)

section Objects

variable (helper : Nat → DeleteHelper)

theorem deletes_eq (h : DeleteHelper) (ran : Bool) :
    h.deletes ran = if h.deleter.isSome then h.object.toList else [] := by
  obtain ⟨deleter, object⟩ := h
  cases deleter <;> cases object <;> cases ran <;> rfl

/-- The objects that deleteSoon was asked to delete, where a ticket leads to its helper. -/
def objects (tickets : List Nat) : List Nat :=
  tickets.flatMap fun a => if (helper a).deleter.isSome then (helper a).object.toList else []

def deleted (s : State) : List Nat :=
  s.core.executed.flatMap (fun t => (helper (ticket t)).deletes true) ++
    s.dropped.flatMap fun t => (helper (ticket t)).deletes false

theorem deleted_eq (s : State) :
    deleted helper s = objects helper ((s.core.executed ++ s.dropped).map ticket) := by
  rw [deleted, objects, List.flatMap_map, List.flatMap_append]
  simp only [deletes_eq]

/-- The end of a task. In every interleaving of the posts with the tasks, the delegate calls and
the destructor, and also for posts that come too late, each task is still with the loop, was
run, or was dropped, and only once. Once the loop is gone none is left, and each object that
deleteSoon was given has been deleted, and only once. -/
theorem tasks_end_once {now : TimePoint} {s : State} (h : Reachable step (initial now) s) :
    (s.core.posted.map ticket).Perm ((held s.core ++ s.core.executed ++ s.dropped).map ticket) ∧
      (s.core.posted.map ticket).Nodup ∧
      (s.pc = .gone → held s.core = [] ∧
        (deleted helper s).Perm (objects helper (s.core.posted.map ticket))) := by
  have haccounted : Accounted s := h.invariant
    (fun _ _ _ hs ht => moves_accounted hs (step_moves ht)) (initial_accounted now)
  have hperm := haccounted.perm
  refine ⟨hperm, by rw [haccounted.tickets]; exact List.nodup_range, fun hpc => ?_⟩
  have hclearing := reachable_clearing h
  have hemptied := hclearing.emptied
  rw [hpc] at hemptied
  obtain ⟨hwork, hdeferred, hdelayed, hincoming⟩ := hemptied
  have hactive := hclearing.idle (by rw [hpc]; nofun)
  have hheld : held s.core = [] := by
    rw [held, pending, hwork, hincoming, hdelayed, hdeferred, hactive]
    rfl
  rw [hheld, List.nil_append] at hperm
  rw [deleted_eq]
  exact ⟨hheld, (hperm.flatMap_right _).symm⟩

end Objects

def reloaded : Pc → Bool
  | .deleteWork _ _ _ | .deleteDeferred _ _ _ | .deleteDelayed _ _ _ | .checked _ _ => true
  | _ => false

theorem reloaded_attached {pc : Pc} (h : reloaded pc = true) : attached pc = true := by
  cases pc <;> first | rfl | cases h

/-- As long as the task runner knows the loop, what the threads post stays in the incoming
queue. -/
structure Left (s t : State) : Prop where
  later : reloaded t.pc = true ∨ attached t.pc = false
  posted : s.core.posted <+: t.core.posted
  incoming : reloaded t.pc = true → t.core.loop.incomingQueue =
    s.core.loop.incomingQueue ++ t.core.posted.drop s.core.posted.length

theorem Left.post {s t : State} (h : Left s t) (quits : Bool) (delay : Int) (nestable : Bool) :
    Left s { t with core := LoopSteps.post t.core quits delay nestable } := by
  refine ⟨h.later, h.posted.trans (List.prefix_append _ _), fun hpc => ?_⟩
  have hincoming := h.incoming hpc
  simp only [LoopSteps.post, addToIncomingQueue]
  rw [List.drop_append_of_le_length h.posted.length_le, ← List.append_assoc, ← hincoming]

theorem destroys_left {s t u : State} (h : Left s t) (hc : Clearing t) (hd : Destroys t u) :
    Left s u := by
  have hlater := h.later
  have hemptied := hc.emptied
  cases hd with
  | begins hpc | reload hpc =>
      rw [hpc] at hlater
      rcases hlater with hlater | hlater <;> cases hlater
  | toDelayed | dropWork | dropDeferred | dropDelayed => exact ⟨h.later, h.posted, h.incoming⟩
  | workGone hpc | deferredGone hpc | firstOver hpc | loopOver hpc =>
      exact ⟨.inl rfl, h.posted, fun _ => h.incoming (by rw [hpc]; rfl)⟩
  | roundOver hpc hq =>
      rw [hpc] at hemptied
      have hwork := (hemptied.2.2.2 rfl).1
      cases hwork
  | detach hpc => exact ⟨.inr rfl, h.posted, nofun⟩
  | members hpc => exact ⟨.inr rfl, h.posted, nofun⟩

theorem moves_left {s t u : State} {l : Label} (h : Left s t) (hc : Clearing t)
    (hm : Moves t l u) : Left s u := by
  cases hm with
  | tick d => exact ⟨h.later, h.posted, h.incoming⟩
  | post quits delay nestable ha => exact h.post quits delay nestable
  | refuse quits delay nestable ha =>
      refine ⟨h.later, h.posted.trans (List.prefix_append _ _), fun hpc => ?_⟩
      have hattached : attached t.pc = true := reloaded_attached hpc
      rw [hattached] at ha
      cases ha
  | live hpc =>
      have hlater := h.later
      rw [hpc] at hlater
      rcases hlater with hlater | hlater <;> cases hlater
  | destroy hd => exact destroys_left h hc hd

/-- The steps that the destructor still has before it, once it has reloaded. A task in the work
queue may be moved before it is dropped. -/
def stepsLeft (s : State) : Nat :=
  let m := s.core.loop
  let tasks := 2 * m.workQueue.length + m.deferredNonNestableWorkQueue.length +
    m.delayedWorkQueue.length
  match s.pc with
  | .alive | .reload _ | .gone => 0
  | .deleteWork _ second _ => tasks + if second then 5 else 8
  | .deleteDeferred _ second _ => tasks + if second then 4 else 7
  | .deleteDelayed _ second _ => tasks + if second then 3 else 6
  | .checked _ _ => 2
  | .detached => 1

theorem destroys_stepsLeft {t u : State} (hc : Clearing t)
    (hlater : reloaded t.pc = true ∨ attached t.pc = false) (hd : Destroys t u) :
    stepsLeft u < stepsLeft t := by
  have hemptied := hc.emptied
  cases hd with
  | begins hpc | reload hpc =>
      rw [hpc] at hlater
      rcases hlater with hlater | hlater <;> cases hlater
  | @toDelayed round second didWork task rest hpc hq =>
      simp only [stepsLeft, State.withLoop, addToDelayedWorkQueue, hpc, hq, List.length_cons,
        List.length_append, List.length_nil]
      omega
  | dropWork hpc hq | dropDeferred hpc hq =>
      simp only [stepsLeft, State.withLoop, State.drop, hpc, hq, List.length_cons]
      omega
  | dropDelayed hpc hx =>
      have hlength := (extract_perm hx).length_eq
      rw [List.length_cons] at hlength
      simp only [stepsLeft, State.withLoop, State.drop, hpc, hlength]
      omega
  | @workGone round second didWork hpc hq | @deferredGone round second didWork hpc hq =>
      simp only [stepsLeft, State.goto, hpc, hq]
      cases second <;> simp
  | firstOver hpc hq =>
      simp only [stepsLeft, State.goto, hpc, hq]
      simp
  | roundOver hpc hq =>
      rw [hpc] at hemptied
      have hwork := (hemptied.2.2.2 rfl).1
      cases hwork
  | loopOver hpc hq =>
      simp only [stepsLeft, State.goto, hpc, hq]
      simp
  | detach hpc =>
      simp only [stepsLeft, State.goto, hpc]
      omega
  | members hpc =>
      simp only [stepsLeft, destroyMembers, hpc]
      omega

def own : Label → Bool
  | .destroy => true
  | .life _ => false

theorem moves_stepsLeft {t u : State} {l : Label} (hc : Clearing t)
    (hlater : reloaded t.pc = true ∨ attached t.pc = false) (hm : Moves t l u) :
    (own l).toNat + stepsLeft u ≤ stepsLeft t := by
  cases hm with
  | tick | post | refuse => exact Nat.le_of_eq (Nat.zero_add _)
  | live hpc =>
      rw [hpc] at hlater
      rcases hlater with hlater | hlater <;> cases hlater
  | destroy hd =>
      have hless := destroys_stepsLeft hc hlater hd
      rw [own, Bool.toNat_true]
      omega

theorem exec_left {s t : State} {ls : List Label} (hc : Clearing s)
    (hlater : reloaded s.pc = true ∨ attached s.pc = false) (h : exec step s ls = some t) :
    Clearing t ∧ (reloaded t.pc = true ∨ attached t.pc = false) ∧
      ls.countP own + stepsLeft t ≤ stepsLeft s := by
  induction ls generalizing s with
  | nil =>
      obtain rfl := Option.some.inj h
      exact ⟨hc, hlater, Nat.le_of_eq (Nat.zero_add _)⟩
  | cons l ls ih =>
      obtain ⟨u, hu, h⟩ := exec_cons.mp h
      have hm := step_moves hu
      have hleft : Left u u :=
        ⟨(moves_left ⟨hlater, List.prefix_refl _, fun _ => by simp⟩ hc hm).later,
          List.prefix_refl _, fun _ => by simp⟩
      obtain ⟨hct, hlatert, hle⟩ := ih (moves_clearing hc hm) hleft.later h
      have hstep := moves_stepsLeft hc hlater hm
      refine ⟨hct, hlatert, ?_⟩
      rw [List.countP_cons]
      cases hown : own l with
      | true =>
          rw [hown, Bool.toNat_true] at hstep
          rw [if_pos rfl]
          omega
      | false =>
          rw [hown, Bool.toNat_false] at hstep
          rw [if_neg Bool.false_ne_true]
          omega

/-- Left to itself, the destructor comes to its check. -/
theorem reaches_check {s : State} (hc : Clearing s) (hs : reloaded s.pc = true) :
    ∃ n t, exec step s (List.replicate n .destroy) = some t ∧ t.pc = .checked 0 false := by
  induction hn : stepsLeft s using Nat.strongRecOn generalizing s with
  | ind n ih =>
      obtain ⟨u, hu⟩ : ∃ u, destroy s = some u := by
        rw [destroy.eq_def]
        cases hpc : s.pc with
        | alive => rw [hpc] at hs; cases hs
        | gone => rw [hpc] at hs; cases hs
        | reload | deleteWork | deleteDeferred | deleteDelayed | checked | detached =>
            exact ⟨_, rfl⟩
      have hm : Moves s .destroy u := step_moves hu
      have hless := moves_stepsLeft hc (.inl hs) hm
      rw [own, Bool.toNat_true] at hless
      by_cases hcheck : ∃ round didWork, s.pc = .checked round didWork
      · obtain ⟨round, didWork, hpc⟩ := hcheck
        have hemptied := hc.emptied
        rw [hpc] at hemptied
        obtain ⟨rfl, rfl, -⟩ := hemptied
        exact ⟨0, s, rfl, hpc⟩
      · have hafter : reloaded u.pc = true := by
          cases destroy_destroys hu with
          | begins hpc | reload hpc | members hpc =>
              rw [hpc] at hs
              cases hs
          | detach hpc => exact absurd ⟨_, _, hpc⟩ hcheck
          | toDelayed hpc | dropWork hpc | dropDeferred hpc | dropDelayed hpc => exact hs
          | workGone | deferredGone | firstOver | loopOver => rfl
          | roundOver hpc =>
              have hemptied := hc.emptied
              rw [hpc] at hemptied
              have hwork := (hemptied.2.2.2 rfl).1
              cases hwork
        obtain ⟨k, t, ht, hpc⟩ := ih (stepsLeft u) (by omega) (moves_clearing hc hm) hafter rfl
        exact ⟨k + 1, t, exec_cons.mpr ⟨u, hu, ht⟩, hpc⟩

/-- The loop of ~MessageLoop. Once it has reloaded, the destructor has only so many steps before
it, whatever is posted meanwhile, and they lead to its check. Its second call of
deletePendingTasks never finds anything, so it ends in its first round and the check holds; and
what the incoming queue held after the reload, and what was posted since, by a deleted task or
by any thread, is all left there. -/
theorem loop_ends_early {now : TimePoint} {s t : State} {ls : List Label}
    (hreach : Reachable step (initial now) s) (hs : reloaded s.pc = true)
    (h : exec step s ls = some t) :
    ls.countP own + stepsLeft t ≤ stepsLeft s ∧
      (reloaded t.pc = true → ∃ n u, exec step t (List.replicate n .destroy) = some u ∧
        u.pc = .checked 0 false) ∧
      ∀ round didWork, t.pc = .checked round didWork → round = 0 ∧ didWork = false ∧
        t.core.loop.incomingQueue =
          s.core.loop.incomingQueue ++ t.core.posted.drop s.core.posted.length ∧
        held t.core = t.core.loop.incomingQueue := by
  obtain ⟨hclear, -, hsteps⟩ := exec_left (reachable_clearing hreach) (.inl hs) h
  have hrun : Clearing t ∧ Left s t := Reachable.invariant
    (I := fun u => Clearing u ∧ Left s u)
    (fun _ _ _ hu hv => ⟨moves_clearing hu.1 (step_moves hv), moves_left hu.2 hu.1 (step_moves hv)⟩)
    ⟨reachable_clearing hreach, .inl hs, List.prefix_refl _,
      fun _ => by rw [List.drop_length, List.append_nil]⟩
    ⟨ls, h⟩
  refine ⟨hsteps, reaches_check hclear, fun round didWork ht => ?_⟩
  have hemptied := hclear.emptied
  rw [ht] at hemptied
  obtain ⟨hround, hwork, hq, hdeferred, hdelayed⟩ := hemptied
  have hactive := hclear.idle (by rw [ht]; nofun)
  refine ⟨hround, hwork, hrun.2.incoming (by rw [ht]; rfl), ?_⟩
  rw [held, pending, hq, hdelayed, hdeferred, hactive, List.nil_append, List.append_nil,
    List.append_nil, List.append_nil]

/-- Three tasks are posted, of which one has a delay and one is run. While the destructor drops
the others a fourth one is posted, and a fifth one comes too late. -/
def begun : List Label :=
  [.life (.post false 0 true), .life (.post false 5 true), .life (.post false 0 false),
    .life .doWork, .life .finish, .destroy, .destroy]

def ended : List Label :=
  [.destroy, .life (.post false 0 false), .destroy, .destroy, .destroy, .destroy, .destroy,
    .destroy, .destroy, .destroy]

def afterwards : List Label := [.destroy, .life (.post false 0 true), .destroy]

def deleteThird (a : Nat) : DeleteHelper := if a = 2 then ⟨some 0, some 77⟩ else ⟨none, none⟩

def atReload : State := (exec step (initial 0) begun).get rfl

def atCheck : State := (exec step atReload ended).get rfl

def atEnd : State := (exec step atCheck afterwards).get rfl

theorem atReload_reachable : Reachable step (initial 0) atReload :=
  ⟨begun, (Option.some_get _).symm⟩

theorem exec_ended : exec step atReload ended = some atCheck := (Option.some_get _).symm

theorem atEnd_reachable : Reachable step (initial 0) atEnd := by
  obtain ⟨ls, hls⟩ := atReload_reachable
  have hend : exec step atCheck afterwards = some atEnd := (Option.some_get _).symm
  exact ⟨ls ++ (ended ++ afterwards),
    exec_append.mpr ⟨_, hls, exec_append.mpr ⟨_, exec_ended, hend⟩⟩⟩

theorem tasks_end_once_atEnd : atEnd.core.executed.map ticket = [0] ∧
    atEnd.dropped.map ticket = [2, 1, 4, 3] ∧ held atEnd.core = [] ∧
      (deleted deleteThird atEnd).Perm [77] :=
  ⟨by decide, by decide, ((tasks_end_once deleteThird atEnd_reachable).2.2 rfl).1,
    ((tasks_end_once deleteThird atEnd_reachable).2.2 rfl).2⟩

theorem loop_ends_early_atCheck : ended.countP own + stepsLeft atCheck ≤ stepsLeft atReload ∧
    atCheck.pc = .checked 0 false ∧ atCheck.core.loop.incomingQueue =
      atReload.core.loop.incomingQueue ++ atCheck.core.posted.drop atReload.core.posted.length := by
  obtain ⟨hsteps, -, hcheck⟩ := loop_ends_early atReload_reachable rfl exec_ended
  exact ⟨hsteps, rfl, (hcheck 0 false rfl).2.2.1⟩

end Ashe.LoopTeardownTasks
