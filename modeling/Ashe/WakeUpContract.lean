import Ashe.DelegateDriver
import Ashe.PumpSleep

namespace Ashe.WakeUpContract

open PriorityQueue Tasks MessageLoop LoopCalls LoopSteps DelegateDriver PumpSleep Runs

/-- After doWork the recorded time is not too late for the delayed queue, after
doDelayedWork it is the earliest time in the queue, or null. -/
structure Contract (s : Driver) : Prop where
  doWork : s.last = some .doWork → s.again = false → s.tasks.loop.delayedWorkQueue ≠ [] →
    s.wakeUp ≠ 0 ∧ ∀ t ∈ s.tasks.loop.delayedWorkQueue, s.wakeUp ≤ t.delayedRunTime
  doDelayedWork : s.last = some .doDelayedWork →
    WakesForEarliest s.wakeUp s.tasks.loop.delayedWorkQueue

/-- Added one after the other, no task is earlier than all that are in the queue, if there
are any. -/
def OnTime : List PendingTask → List PendingTask → Prop
  | _, [] => True
  | q, t :: ts => (q ≠ [] → ∃ u ∈ q, u.delayedRunTime ≤ t.delayedRunTime) ∧ OnTime (q ++ [t]) ts

def filed (q : List PendingTask) : List PendingTask :=
  (q.takeWhile fun t => !immediate t).filter delayed

/-- The only task in the delayed queue is due. -/
def TakesLast (m : Loop) (now : TimePoint) : Prop :=
  ∃ t, m.delayedWorkQueue = [t] ∧ (t.delayedRunTime ≤ m.recentTime ∨ t.delayedRunTime ≤ now)

/-- What doWork adds does not become the earliest of a queue that was not empty, and
doDelayedWork does not take the last task with another time than null in its parameter. -/
def Sound (s : Driver) : DelegateDriver.Label → Prop
  | .doWork => OnTime s.tasks.loop.delayedWorkQueue (filed (reloadWorkQueue s.tasks.loop).workQueue)
  | .doDelayedWork nextDelayedWorkTime =>
      TakesLast s.tasks.loop s.tasks.now → nextDelayedWorkTime = 0
  | _ => True

theorem filed_delayed {t : PendingTask} (ht : t.delayedRunTime ≠ 0) (q : List PendingTask) :
    filed (t :: q) = t :: filed q := by
  have hi : immediate t = false := by simp [immediate, ht]
  have hd : delayed t = true := by simpa [delayed] using ht
  simp [filed, hi, hd]

theorem filed_immediate {t : PendingTask} (ht : t.delayedRunTime = 0) (hs : t.nestable = true)
    (q : List PendingTask) : filed (t :: q) = [] := by
  simp [filed, immediate, ht, hs]

theorem filed_deferred {t : PendingTask} (ht : t.delayedRunTime = 0) (hs : t.nestable = false)
    (q : List PendingTask) : filed (t :: q) = filed q := by
  simp [filed, immediate, delayed, ht, hs]

def times (q : List PendingTask) : List TimePoint := q.map PendingTask.delayedRunTime

def scheduled (q added : List PendingTask) (wakeUp : Option TimePoint) : Option TimePoint :=
  if q.isEmpty then (times added).head?.or wakeUp else wakeUp

theorem executeOldest_files (q : List PendingTask) (m : Loop) (wakeUp : Option TimePoint) :
    times (executeOldest m wakeUp q).loop.delayedWorkQueue =
        times m.delayedWorkQueue ++ times (filed q) ∧
      (executeOldest m wakeUp q).wakeUp = scheduled m.delayedWorkQueue (filed q) wakeUp := by
  induction q generalizing m wakeUp with
  | nil => simp [executeOldest, filed, times, scheduled]
  | cons t rest ih =>
      rw [executeOldest]
      by_cases ht : t.delayedRunTime = 0
      · simp only [ht, ne_eq, not_true_eq_false, if_false, deferOrRunPendingTask]
        cases hs : t.nestable with
        | true => simp [runTask, filed_immediate ht hs, times, scheduled]
        | false =>
            rw [filed_deferred ht hs]
            exact ih _ wakeUp
      · simp only [ht, ne_eq, not_false_eq_true, if_true]
        rw [filed_delayed ht]
        obtain ⟨hqueue, hwake⟩ := ih (addToDelayedWorkQueue m t)
          (if m.delayedWorkQueue.isEmpty then some t.delayedRunTime else wakeUp)
        constructor
        · rw [hqueue]
          simp [times, addToDelayedWorkQueue]
        · rw [hwake]
          cases hq : m.delayedWorkQueue <;> simp [scheduled, addToDelayedWorkQueue, times, hq]

def recorded (q added : List PendingTask) (wakeUp : TimePoint) : TimePoint :=
  (scheduled q added none).getD wakeUp

theorem recorded_cons {q added : List PendingTask} (h : q ≠ []) (wakeUp : TimePoint) :
    recorded q added wakeUp = wakeUp := by
  simp [recorded, scheduled, h]

theorem recorded_nil (t : PendingTask) (added : List PendingTask) (wakeUp : TimePoint) :
    recorded [] (t :: added) wakeUp = t.delayedRunTime := rfl

theorem onTime_iff {q added : List PendingTask} {wakeUp : TimePoint}
    (h : IsLeast { time | ∃ t ∈ q, t.delayedRunTime = time } wakeUp) :
    OnTime q added ↔ ∀ t ∈ added, wakeUp ≤ t.delayedRunTime := by
  induction added generalizing q with
  | nil => exact ⟨fun _ => nofun, fun _ => trivial⟩
  | cons t added ih =>
      obtain ⟨⟨v, hv, hvtime⟩, hlower⟩ := h
      have hfirst : (q ≠ [] → ∃ u ∈ q, u.delayedRunTime ≤ t.delayedRunTime) ↔
          wakeUp ≤ t.delayedRunTime := by
        constructor
        · intro hex
          obtain ⟨u, hu, hle⟩ := hex (List.ne_nil_of_mem hv)
          exact (hlower ⟨u, hu, rfl⟩).trans hle
        · exact fun hle _ => ⟨v, hv, hvtime.trans_le hle⟩
      rw [OnTime, hfirst, List.forall_mem_cons]
      refine and_congr_right fun hle => ih ⟨⟨v, List.mem_append_left _ hv, hvtime⟩, ?_⟩
      rintro time ⟨u, hu, rfl⟩
      cases List.mem_append.mp hu with
      | inl hu => exact hlower ⟨u, hu, rfl⟩
      | inr hu => rwa [List.mem_singleton.mp hu]

/-- What is recorded is not too late if and only if every task was added in time. -/
theorem recorded_iff {q added : List PendingTask} {wakeUp : TimePoint}
    (h : q ≠ [] → IsLeast { time | ∃ t ∈ q, t.delayedRunTime = time } wakeUp) :
    OnTime q added ↔ ∀ t ∈ q ++ added, recorded q added wakeUp ≤ t.delayedRunTime := by
  match q, added with
  | [], [] => exact ⟨fun _ => nofun, fun _ => trivial⟩
  | [], t :: added =>
      have ht : IsLeast { time | ∃ u ∈ [t], u.delayedRunTime = time } t.delayedRunTime := by
        simp [IsLeast]
      rw [OnTime, List.nil_append, onTime_iff ht, recorded_nil, List.nil_append,
        List.forall_mem_cons]
      simp
  | u :: q, added =>
      have h := h (List.cons_ne_nil u q)
      rw [onTime_iff h, recorded_cons (List.cons_ne_nil u q), List.forall_mem_append]
      exact ⟨fun hadded => ⟨fun t ht => h.2 ⟨t, ht, rfl⟩, hadded⟩, fun hall => hall.2⟩

theorem recorded_mem {q added : List PendingTask} {wakeUp : TimePoint}
    (h : q ≠ [] → IsLeast { time | ∃ t ∈ q, t.delayedRunTime = time } wakeUp)
    (hne : q ++ added ≠ []) :
    ∃ t ∈ q ++ added, t.delayedRunTime = recorded q added wakeUp := by
  match q, added with
  | [], [] => exact absurd rfl hne
  | [], t :: added => exact ⟨t, by simp, rfl⟩
  | u :: q, added =>
      obtain ⟨⟨t, ht, htime⟩, -⟩ := h (List.cons_ne_nil u q)
      rw [recorded_cons (List.cons_ne_nil u q)]
      exact ⟨t, List.mem_append_left _ ht, htime⟩

theorem reloadWorkQueue_delayed (m : Loop) :
    (reloadWorkQueue m).delayedWorkQueue = m.delayedWorkQueue := by
  rw [reloadWorkQueue]
  split
  next => rfl
  next => split <;> rfl

theorem doWork_files {m : Loop} (hn : m.nestableTasksAllowed = true) (wakeUp : TimePoint) :
    times (doWork m).loop.delayedWorkQueue =
        times (m.delayedWorkQueue ++ filed (reloadWorkQueue m).workQueue) ∧
      (doWork m).wakeUp.getD wakeUp =
        recorded m.delayedWorkQueue (filed (reloadWorkQueue m).workQueue) wakeUp := by
  simp only [doWork, hn, Bool.not_true, Bool.false_eq_true, if_false]
  split
  next hw =>
    obtain ⟨-, -, he⟩ := reloadWorkQueue_empty (List.isEmpty_iff.mp hw)
    rw [List.isEmpty_iff.mp hw, he]
    simp [filed, recorded, scheduled, times]
  next =>
    obtain ⟨hqueue, hwake⟩ :=
      executeOldest_files (reloadWorkQueue m).workQueue (reloadWorkQueue m) none
    rw [reloadWorkQueue_delayed] at hqueue hwake
    rw [hqueue, hwake]
    exact ⟨(List.map_append ..).symm, rfl⟩

structure Right (s : Driver) : Prop where
  ordered : Ordered s.tasks
  earliest : s.tasks.loop.delayedWorkQueue ≠ [] →
    IsLeast { time | ∃ t ∈ s.tasks.loop.delayedWorkQueue, t.delayedRunTime = time } s.wakeUp
  null : s.last = some .doDelayedWork → s.tasks.loop.delayedWorkQueue = [] → s.wakeUp = 0

theorem initial_right (now wakeUp : TimePoint) : Right (DelegateDriver.initial now wakeUp) :=
  ⟨initial_ordered now, fun h => absurd rfl h, nofun⟩

theorem Right.ne_zero {s : Driver} (h : Right s) (hne : s.tasks.loop.delayedWorkQueue ≠ []) :
    s.wakeUp ≠ 0 := by
  obtain ⟨⟨t, ht, htime⟩, -⟩ := h.earliest hne
  rw [← htime]
  exact h.ordered.delayedQueue t ht

theorem Right.contract {s : Driver} (h : Right s) : Contract s := by
  refine ⟨fun _ _ hne => ⟨h.ne_zero hne, fun t ht => (h.earliest hne).2 ⟨t, ht, rfl⟩⟩, ?_⟩
  intro hlast
  refine ⟨⟨fun hwake => ?_, h.null hlast⟩, h.earliest⟩
  by_contra hne
  exact h.ne_zero hne hwake

/-- What happens between the calls changes neither the queue nor the record. -/
theorem other_moves {s : State} {tasks : State} {l : LoopSteps.Label}
    (h : LoopSteps.step s l = some tasks)
    (hl : l ≠ .doWork ∧ l ≠ .doDelayedWork ∧ l ≠ .doIdleWork) :
    tasks.loop.delayedWorkQueue = s.loop.delayedWorkQueue := by
  cases l with
  | tick | post => obtain rfl := Option.some.inj h; rfl
  | finish =>
      obtain ⟨t, rest, -, rfl⟩ := finish_some h
      rfl
  | doWork => exact absurd rfl hl.1
  | doDelayedWork => exact absurd rfl hl.2.1
  | doIdleWork => exact absurd rfl hl.2.2

inductive Moves (s : Driver) : DelegateDriver.Label → Driver → Prop
  | other {l : DelegateDriver.Label} {tasks : State}
      (hl : l ≠ .doWork ∧ (∀ n, l ≠ .doDelayedWork n) ∧ l ≠ .doIdleWork)
      (ho : Ordered s.tasks → Ordered tasks)
      (hq : tasks.loop.delayedWorkQueue = s.tasks.loop.delayedWorkQueue) :
      Moves s l { s with tasks := tasks }
  | doWork (hn : s.tasks.loop.nestableTasksAllowed = true) :
      Moves s .doWork (called s .doWork s.wakeUp (MessageLoop.doWork s.tasks.loop))
  | doDelayedWork (n : TimePoint) (hn : s.tasks.loop.nestableTasksAllowed = true)
      (hg : s.again = false) : Moves s (.doDelayedWork n)
        (called s .doDelayedWork n (MessageLoop.doDelayedWork s.tasks.loop s.tasks.now))
  | doIdleWork (hn : s.tasks.loop.nestableTasksAllowed = true) (hg : s.again = false) :
      Moves s .doIdleWork (called s .doIdleWork s.wakeUp (MessageLoop.doIdleWork s.tasks.loop))

theorem step_moves {s s' : Driver} {l : DelegateDriver.Label}
    (h : DelegateDriver.step s l = some s') : Moves s l s' := by
  cases l with
  | tick d =>
      rw [DelegateDriver.step, Option.map_eq_some_iff] at h
      obtain ⟨tasks, ht, rfl⟩ := h
      exact .other ⟨nofun, nofun, nofun⟩ (fun ho => step_ordered ho ht)
        (other_moves ht ⟨nofun, nofun, nofun⟩)
  | post quits delay nestable =>
      rw [DelegateDriver.step, Option.map_eq_some_iff] at h
      obtain ⟨tasks, ht, rfl⟩ := h
      exact .other ⟨nofun, nofun, nofun⟩ (fun ho => step_ordered ho ht)
        (other_moves ht ⟨nofun, nofun, nofun⟩)
  | finish =>
      rw [DelegateDriver.step, Option.map_eq_some_iff] at h
      obtain ⟨tasks, ht, rfl⟩ := h
      exact .other ⟨nofun, nofun, nofun⟩ (fun ho => step_ordered ho ht)
        (other_moves ht ⟨nofun, nofun, nofun⟩)
  | doWork =>
      simp only [DelegateDriver.step, Option.ite_none_right_eq_some, Option.some.injEq] at h
      obtain ⟨hn, rfl⟩ := h
      exact .doWork hn
  | doDelayedWork n =>
      simp only [DelegateDriver.step, Option.ite_none_right_eq_some, Option.some.injEq,
        Bool.and_eq_true, Bool.not_eq_true'] at h
      obtain ⟨⟨hn, hg⟩, rfl⟩ := h
      exact .doDelayedWork n hn hg
  | doIdleWork =>
      simp only [DelegateDriver.step, Option.ite_none_right_eq_some, Option.some.injEq,
        Bool.and_eq_true, Bool.not_eq_true'] at h
      obtain ⟨⟨hn, hg⟩, rfl⟩ := h
      exact .doIdleWork hn hg

theorem mem_times {q q' : List PendingTask} (h : times q = times q') (time : TimePoint) :
    (∃ t ∈ q, t.delayedRunTime = time) ↔ ∃ t ∈ q', t.delayedRunTime = time := by
  rw [← List.mem_map, ← List.mem_map]
  exact iff_of_eq (congrArg (time ∈ ·) h)

def Late (s : Driver) : Prop := ∃ t ∈ s.tasks.loop.delayedWorkQueue, t.delayedRunTime < s.wakeUp

section DoWork

variable {s : Driver} (h : Right s) (hn : s.tasks.loop.nestableTasksAllowed = true)
include h hn

theorem doWork_right (hsound : Sound s .doWork) :
    Right (called s .doWork s.wakeUp (doWork s.tasks.loop)) := by
  obtain ⟨hqueue, hwake⟩ := doWork_files hn s.wakeUp
  have hlower := (recorded_iff h.earliest).mp hsound
  refine ⟨take_doWork_ordered h.ordered, fun hne => ?_,
    fun hlast => absurd hlast (by simp [called])⟩
  simp only [called, take_loop, mem_times hqueue, hwake] at hne ⊢
  have hne : s.tasks.loop.delayedWorkQueue ++
      filed (reloadWorkQueue s.tasks.loop).workQueue ≠ [] := fun hnil => by
    rw [hnil] at hqueue
    exact hne (List.map_eq_nil_iff.mp hqueue)
  refine ⟨recorded_mem h.earliest hne, ?_⟩
  rintro time ⟨t, ht, rfl⟩
  exact hlower t ht

theorem doWork_late (hsound : ¬ Sound s .doWork) :
    Late (called s .doWork s.wakeUp (doWork s.tasks.loop)) := by
  obtain ⟨hqueue, hwake⟩ := doWork_files hn s.wakeUp
  rw [Sound, recorded_iff h.earliest] at hsound
  push Not at hsound
  obtain ⟨t, ht, hlt⟩ := hsound
  obtain ⟨u, hu, hut⟩ := (mem_times hqueue t.delayedRunTime).mpr ⟨t, ht, rfl⟩
  refine ⟨u, by simpa [called] using hu, ?_⟩
  rw [hut]
  exact hlt.trans_eq hwake.symm

end DoWork

/-- A round of doWork does not make up for a task that is scheduled too late. -/
theorem doWork_stays_late {s : Driver} (h : Late s)
    (hn : s.tasks.loop.nestableTasksAllowed = true) :
    Late (called s .doWork s.wakeUp (doWork s.tasks.loop)) := by
  obtain ⟨t, ht, hlt⟩ := h
  obtain ⟨hqueue, hwake⟩ := doWork_files hn s.wakeUp
  rw [recorded_cons (List.ne_nil_of_mem ht)] at hwake
  obtain ⟨u, hu, hut⟩ :=
    (mem_times hqueue t.delayedRunTime).mpr ⟨t, List.mem_append_left _ ht, rfl⟩
  refine ⟨u, by simpa [called] using hu, ?_⟩
  rw [hut]
  exact hlt.trans_eq hwake.symm

theorem deferOrRunPendingTask_keeps (m : Loop) (wakeUp : Option TimePoint) (t : PendingTask) :
    (deferOrRunPendingTask m wakeUp t).loop.delayedWorkQueue = m.delayedWorkQueue ∧
      (deferOrRunPendingTask m wakeUp t).wakeUp = wakeUp := by
  rw [deferOrRunPendingTask]
  split <;> exact ⟨rfl, rfl⟩

theorem takesLast_iff {m : Loop} {now : TimePoint} {t : PendingTask} {rest : List PendingTask}
    (hx : extract less m.delayedWorkQueue = some (t, rest)) :
    TakesLast m now ↔ rest = [] ∧ (t.delayedRunTime ≤ m.recentTime ∨ t.delayedRunTime ≤ now) := by
  have hp := extract_perm hx
  constructor
  · rintro ⟨u, hu, hdue⟩
    rw [hu, List.singleton_perm] at hp
    obtain ⟨rfl, rfl⟩ : t = u ∧ rest = [] := by simpa [eq_comm] using hp
    exact ⟨rfl, hdue⟩
  · rintro ⟨rfl, hdue⟩
    exact ⟨t, List.perm_singleton.mp hp, hdue⟩

theorem not_due_iff (time recent now : Nat) :
    (if time > recent then now else recent) < time ↔ ¬ (time ≤ recent ∨ time ≤ now) := by
  split <;> omega

/-- Doing delayed work records the earliest time that is left, but for the last task. -/
theorem doDelayedWork_records {m : Loop} (hn : m.nestableTasksAllowed = true)
    (hq : ∀ t ∈ m.delayedWorkQueue, t.delayedRunTime ≠ 0) (now : TimePoint) :
    (TakesLast m now ∧ (doDelayedWork m now).loop.delayedWorkQueue = [] ∧
      (doDelayedWork m now).wakeUp = none) ∨
    (¬ TakesLast m now ∧ ∃ w, (doDelayedWork m now).wakeUp = some w ∧
      WakesForEarliest w (doDelayedWork m now).loop.delayedWorkQueue) := by
  cases hx : extract less m.delayedWorkQueue with
  | none =>
      have hnil := extract_eq_none.mp hx
      refine .inr ⟨fun ⟨t, ht, _⟩ => ?_, ?_⟩
      · rw [hnil] at ht
        cases ht
      · rw [doDelayedWork, hn, hx]
        exact ⟨0, rfl, iff_of_true rfl hnil, fun hne => absurd hnil hne⟩
  | some p =>
      obtain ⟨t, rest⟩ := p
      have hp := extract_perm hx
      have ht := hq t (hp.symm.subset List.mem_cons_self)
      have hearly := not_due_iff t.delayedRunTime m.recentTime now
      rw [takesLast_iff hx, doDelayedWork, hn, hx]
      dsimp only
      by_cases hdue : t.delayedRunTime ≤ m.recentTime ∨ t.delayedRunTime ≤ now
      · rw [if_neg (fun hlt => hearly.mp hlt hdue)]
        simp only [deferOrRunPendingTask_keeps]
        cases hu : top? less rest with
        | none =>
            have hnil : rest = [] := by simpa [top?, extract_eq_none] using hu
            exact .inl ⟨⟨hnil, hdue⟩, hnil, rfl⟩
        | some u =>
            obtain ⟨⟨v, rest'⟩, hv, rfl⟩ := Option.map_eq_some_iff.mp hu
            have hne := hq v (hp.symm.subset (List.mem_cons_of_mem _
              ((extract_perm hv).symm.subset List.mem_cons_self)))
            refine .inr ⟨fun hlast => ?_, v.delayedRunTime, rfl, extract_wakesForEarliest hv hne⟩
            rw [hlast.1] at hv
            cases hv
      · rw [if_pos (hearly.mpr hdue)]
        exact .inr ⟨fun hlast => hdue hlast.2, t.delayedRunTime, rfl,
          extract_wakesForEarliest hx ht⟩

theorem doDelayedWork_right {s : Driver} (h : Right s)
    (hn : s.tasks.loop.nestableTasksAllowed = true) {n : TimePoint}
    (hsound : Sound s (.doDelayedWork n)) :
    Right (called s .doDelayedWork n (doDelayedWork s.tasks.loop s.tasks.now)) := by
  refine ⟨take_doDelayedWork_ordered h.ordered, fun hne => ?_, fun _ hnil => ?_⟩
  · simp only [called, take_loop] at hne ⊢
    rcases doDelayedWork_records hn h.ordered.delayedQueue s.tasks.now with
      ⟨-, hnil, -⟩ | ⟨-, w, hw, hwakes⟩
    · exact absurd hnil hne
    · rw [hw]
      exact hwakes.2 hne
  · simp only [called, take_loop] at hnil ⊢
    rcases doDelayedWork_records hn h.ordered.delayedQueue s.tasks.now with
      ⟨hlast, -, hw⟩ | ⟨-, w, hw, hwakes⟩
    · rw [hw]
      exact hsound hlast
    · rw [hw]
      exact hwakes.1.mpr hnil

theorem doDelayedWork_sound {s : Driver} (h : Right s)
    (hn : s.tasks.loop.nestableTasksAllowed = true) {n : TimePoint}
    (hc : Contract (called s .doDelayedWork n (doDelayedWork s.tasks.loop s.tasks.now))) :
    Sound s (.doDelayedWork n) := by
  intro hlast
  rcases doDelayedWork_records hn h.ordered.delayedQueue s.tasks.now with
    ⟨-, hnil, hw⟩ | ⟨hnot, -⟩
  · have hwakes := (hc.doDelayedWork rfl).1.mpr (by simpa [called] using hnil)
    simpa [called, hw] using hwakes
  · exact absurd hlast hnot

theorem doIdleWork_right {s : Driver} (h : Right s) :
    Right (called s .doIdleWork s.wakeUp (doIdleWork s.tasks.loop)) := by
  have hidle : (doIdleWork s.tasks.loop).loop.delayedWorkQueue = s.tasks.loop.delayedWorkQueue ∧
      (doIdleWork s.tasks.loop).wakeUp = none := by
    rw [doIdleWork]
    split <;> exact ⟨rfl, rfl⟩
  refine ⟨take_doIdleWork_ordered h.ordered, ?_, fun hlast => absurd hlast (by simp [called])⟩
  simp only [called, take_loop, hidle]
  exact h.earliest

theorem moves_right {s s' : Driver} {l : DelegateDriver.Label} (h : Right s) (hsound : Sound s l)
    (hm : Moves s l s') : Right s' := by
  cases hm with
  | other hl ho hq =>
      refine ⟨ho h.ordered, ?_, ?_⟩
      · rw [hq]
        exact h.earliest
      · rw [hq]
        exact h.null
  | doWork hn => exact doWork_right h hn hsound
  | doDelayedWork n hn => exact doDelayedWork_right h hn hsound
  | doIdleWork => exact doIdleWork_right h

theorem Late.not_contract {s : Driver} (h : Late s) (hlast : s.last = some .doWork)
    (hagain : s.again = false) : ¬ Contract s := by
  obtain ⟨t, ht, hlt⟩ := h
  intro hc
  obtain ⟨-, hle⟩ := hc.doWork hlast hagain (List.ne_nil_of_mem ht)
  exact absurd (hle t ht) (Nat.not_le.mpr hlt)

theorem late_not_kept {s s' : Driver} {ls : List DelegateDriver.Label} (h : Late s)
    (hlast : s.last = some .doWork) (hs : exec DelegateDriver.step s ls = some s')
    (hs' : s'.again = false) (hc : Contract s) :
    ¬ Along DelegateDriver.step (fun _ _ s' => Contract s') s ls := by
  induction ls generalizing s with
  | nil =>
      obtain rfl := Option.some.inj hs
      exact absurd hc (h.not_contract hlast hs')
  | cons l ls ih =>
      obtain ⟨t, ht, hs⟩ := exec_cons.mp hs
      intro halong
      obtain ⟨hct, halong⟩ := halong t ht
      cases hagain : s.again with
      | false => exact h.not_contract hlast hagain hc
      | true =>
          cases step_moves ht with
          | @other l tasks hl ho hq =>
              have hlate : Late { s with tasks := tasks } := by
                rw [Late, hq]
                exact h
              exact ih hlate hlast hs hct halong
          | doWork hn => exact ih (doWork_stays_late h hn) rfl hs hct halong
          | doDelayedWork n hn hg => exact absurd (hagain.symm.trans hg) nofun
          | doIdleWork hn hg => exact absurd (hagain.symm.trans hg) nofun

theorem contract_sound {s s' : Driver} {ls : List DelegateDriver.Label} (h : Right s)
    (hs : exec DelegateDriver.step s ls = some s') (hs' : s'.again = false)
    (halong : Along DelegateDriver.step (fun _ _ s' => Contract s') s ls) :
    Along DelegateDriver.step (fun s l _ => Sound s l) s ls := by
  induction ls generalizing s with
  | nil => trivial
  | cons l ls ih =>
      obtain ⟨t, ht, hs⟩ := exec_cons.mp hs
      intro u hu
      obtain rfl := Option.some.inj (ht.symm.trans hu)
      obtain ⟨hct, halong⟩ := halong t ht
      have hm := step_moves ht
      have hsound : Sound s l := by
        cases hm with
        | @other l tasks hl ho hq =>
            cases l with
            | doWork => exact absurd rfl hl.1
            | doDelayedWork n => exact absurd rfl (hl.2.1 n)
            | tick | post | finish | doIdleWork => trivial
        | doWork hn =>
            by_contra hsound
            exact late_not_kept (doWork_late h hn hsound) rfl hs hs' hct halong
        | doDelayedWork n hn => exact doDelayedWork_sound h hn hct
        | doIdleWork => trivial
      exact ⟨hsound, ih (moves_right h hsound hm) hs halong⟩

/-- The wake-up contract is kept in a run, at the end of every call, exactly where all
calls of it are sound. -/
theorem contract_iff {now wakeUp : TimePoint} {ls : List DelegateDriver.Label} {s : Driver}
    (hs : exec DelegateDriver.step (DelegateDriver.initial now wakeUp) ls = some s)
    (hagain : s.again = false) :
    Along DelegateDriver.step (fun _ _ s' => Contract s') (DelegateDriver.initial now wakeUp) ls ↔
      Along DelegateDriver.step (fun s l _ => Sound s l)
        (DelegateDriver.initial now wakeUp) ls := by
  constructor
  · exact contract_sound (initial_right now wakeUp) hs hagain
  · intro hsound
    refine along_of_invariant (I := Right) (fun s l s' h hg hs => ?_) (initial_right now wakeUp)
      hsound
    have h := moves_right h hg (step_moves hs)
    exact ⟨h, h.contract⟩

def oneTask : List DelegateDriver.Label :=
  [.post false 1 true, .doWork, .doWork, .tick 1000000, .doDelayedWork 0, .finish]

theorem contract_iff_oneTask : ∃ s, exec DelegateDriver.step (DelegateDriver.initial 0 0)
      oneTask = some s ∧ s.wakeUp = 0 ∧
    (Along DelegateDriver.step (fun _ _ s' => Contract s') (DelegateDriver.initial 0 0) oneTask ↔
      Along DelegateDriver.step (fun s l _ => Sound s l) (DelegateDriver.initial 0 0) oneTask) :=
  ⟨_, rfl, rfl, contract_iff rfl rfl⟩

/-- A task that is due before the one in the delayed queue is not scheduled. -/
theorem earlier_task_overslept :
    ¬ Along DelegateDriver.step (fun _ _ s' => Contract s') (DelegateDriver.initial 0 0)
      ([.post false 100 true, .doWork, .doWork, .post false 10 true, .doWork] ++ [.doWork]) := by
  intro h
  have hc := h.last rfl rfl
  have hle := (hc.doWork rfl rfl (List.cons_ne_nil _ _)).2 _
    (List.mem_cons_of_mem _ (List.mem_cons_self ..))
  exact absurd hle (by decide)

end Ashe.WakeUpContract
