import Ashe.Crowd
import Ashe.Runs
import Ashe.ThreadPool

namespace Ashe.ThreadPoolTasks

open Crowd Runs ThreadPool

inductive Moves (s : State) : Label → State → Prop
  | accept (ho : s.owner ≠ .destroyed) (hs : s.stop = false) :
      Moves s .enqueue
        ({ s with
          enqueued := s.enqueued + 1
          notifying := s.notifying + 1
          tasks := s.tasks ++ [s.enqueued] }.record (.accepted s.enqueued))
  | refuse (ho : s.owner ≠ .destroyed) (hs : s.stop = true) :
      Moves s .enqueue
        ({ s with
          enqueued := s.enqueued + 1
          notifying := s.notifying + 1 }.record (.refused s.enqueued))
  | notified {i : Nat} (hn : 0 < s.notifying) (hw : s.workers[i]? = some .waiting) :
      Moves s (.notify (some i)) ({ s with notifying := s.notifying - 1 }.goto i .locking)
  | unheard (hn : 0 < s.notifying) (hw : .waiting ∉ s.workers) :
      Moves s (.notify none) { s with notifying := s.notifying - 1 }
  | wait {i : Nat} (hw : s.workers[i]? = some .locking) (ht : s.tasks = [])
      (hs : s.stop = false) : Moves s (.worker i) (s.goto i .waiting)
  | leave {i : Nat} (hw : s.workers[i]? = some .locking) (ht : s.tasks = [])
      (hs : s.stop = true) : Moves s (.worker i) (s.goto i .returned)
  | take {i : Nat} {task : Nat} {tasks : List Nat} (hw : s.workers[i]? = some .locking)
      (ht : s.tasks = task :: tasks) :
      Moves s (.worker i)
        (({ s with tasks := tasks }.goto i (.popped task)).record (.taken task))
  | start {i : Nat} {task : Nat} (hw : s.workers[i]? = some (.popped task)) :
      Moves s (.worker i) ((s.goto i (.running task)).record (.started task))
  | done {i : Nat} {task : Nat} (hw : s.workers[i]? = some (.running task)) :
      Moves s (.worker i) ((s.goto i .locking).record (.ended task))
  | wake {i : Nat} (hw : s.workers[i]? = some .waiting) :
      Moves s (.wake i) (s.goto i .locking)
  | stop (ho : s.owner = .alive) : Moves s .owner { s with stop := true, owner := .stopped }
  | wakeAll (ho : s.owner = .stopped) :
      Moves s .owner { notifyAll s with owner := .joining 0 }
  | join {i : Nat} (ho : s.owner = .joining i) (hw : s.workers[i]? = some .returned) :
      Moves s .owner { s with owner := .joining (i + 1) }
  | destroy {i : Nat} (ho : s.owner = .joining i) (hw : s.workers[i]? = none) :
      Moves s .owner { s with owner := .destroyed }

theorem step_moves {s s' : State} {l : Label} (h : step s l = some s') : Moves s l s' := by
  cases l with
  | enqueue =>
      simp only [step, Option.ite_none_right_eq_some, Option.some.injEq] at h
      obtain ⟨ho, rfl⟩ := h
      rw [enqueue]
      split
      next hs => exact .refuse ho hs
      next hs => exact .accept ho (by simpa using hs)
  | notify woken =>
      simp only [step, Option.ite_none_right_eq_some] at h
      obtain ⟨hn, h⟩ := h
      cases woken with
      | none =>
          simp only [notifyOne, Option.ite_none_right_eq_some, Option.some.injEq] at h
          obtain ⟨hw, rfl⟩ := h
          exact .unheard hn hw
      | some i =>
          simp only [notifyOne, Option.ite_none_right_eq_some, Option.some.injEq] at h
          obtain ⟨hw, rfl⟩ := h
          exact .notified hn hw
  | worker i =>
      rw [step, workerNext] at h
      split at h
      next => cases h
      next => cases h
      next => cases h
      next hw =>
        obtain rfl := Option.some.inj h
        rw [lockedSection]
        split
        next ht =>
          split
          next hs => exact .leave hw ht hs
          next hs => exact .wait hw ht (by simpa using hs)
        next ht => exact .take hw ht
      next hw => obtain rfl := Option.some.inj h; exact .start hw
      next hw => obtain rfl := Option.some.inj h; exact .done hw
  | wake i =>
      simp only [step, Option.ite_none_right_eq_some, Option.some.injEq] at h
      obtain ⟨hw, rfl⟩ := h
      exact .wake hw
  | owner =>
      rw [step, destruct] at h
      split at h
      next ho => obtain rfl := Option.some.inj h; exact .stop ho
      next ho => obtain rfl := Option.some.inj h; exact .wakeAll ho
      next ho =>
        split at h
        next hw => obtain rfl := Option.some.inj h; exact .destroy ho hw
        next hw => obtain rfl := Option.some.inj h; exact .join ho hw
        next => cases h
      next => cases h

def acceptedTask : Event → Option Nat
  | .accepted task => some task
  | _ => none

def takenTask : Event → Option Nat
  | .taken task => some task
  | _ => none

def startedTask : Event → Option Nat
  | .started task => some task
  | _ => none

def endedTask : Event → Option Nat
  | .ended task => some task
  | _ => none

def acceptedTasks (log : List Event) : List Nat := log.filterMap acceptedTask

def takenTasks (log : List Event) : List Nat := log.filterMap takenTask

def startedTasks (log : List Event) : List Nat := log.filterMap startedTask

def endedTasks (log : List Event) : List Nat := log.filterMap endedTask

theorem filterMap_snoc (f : Event → Option Nat) (log : List Event) (e : Event) :
    (log ++ [e]).filterMap f = log.filterMap f ++ (f e).toList := by
  cases h : f e with
  | none => simp [h]
  | some task => simp [h]

@[simp] theorem acceptedTasks_snoc (log : List Event) (e : Event) :
    acceptedTasks (log ++ [e]) = acceptedTasks log ++ (acceptedTask e).toList :=
  filterMap_snoc ..

@[simp] theorem takenTasks_snoc (log : List Event) (e : Event) :
    takenTasks (log ++ [e]) = takenTasks log ++ (takenTask e).toList :=
  filterMap_snoc ..

@[simp] theorem startedTasks_snoc (log : List Event) (e : Event) :
    startedTasks (log ++ [e]) = startedTasks log ++ (startedTask e).toList :=
  filterMap_snoc ..

@[simp] theorem endedTasks_snoc (log : List Event) (e : Event) :
    endedTasks (log ++ [e]) = endedTasks log ++ (endedTask e).toList :=
  filterMap_snoc ..

def hand : Worker → List Nat
  | .popped task | .running task => [task]
  | _ => []

def job : Worker → List Nat
  | .running task => [task]
  | _ => []

def hands (s : State) : List Nat := s.workers.flatMap hand

def jobs (s : State) : List Nat := s.workers.flatMap job

/-- No task gets lost or doubled: what was accepted is what was taken and then the queue,
in order, what was taken is in the hand of one worker or has ended, and what was started
is executed by one worker or has ended. -/
structure Conserved (s : State) : Prop where
  distinct : (acceptedTasks s.log).Nodup
  order : acceptedTasks s.log = takenTasks s.log ++ s.tasks
  taken : (takenTasks s.log).Perm (endedTasks s.log ++ hands s)
  started : (startedTasks s.log).Perm (endedTasks s.log ++ jobs s)
  never : ∀ task, .refused task ∈ s.log → task ∉ acceptedTasks s.log

structure Numbered (s : State) : Prop where
  accepted : ∀ task ∈ acceptedTasks s.log, task < s.enqueued
  refused : ∀ task, .refused task ∈ s.log → task < s.enqueued

theorem initial_numbered (threads : Nat) : Numbered (threadPool threads) := ⟨nofun, nofun⟩

theorem initial_conserved (threads : Nat) : Conserved (threadPool threads) := by
  have hands_nil : hands (threadPool threads) = [] := by
    simp [hands, threadPool, hand]
  have jobs_nil : jobs (threadPool threads) = [] := by
    simp [jobs, threadPool, job]
  refine ⟨List.nodup_nil, rfl, ?_, ?_, nofun⟩
  · rw [hands_nil]
    exact List.Perm.refl _
  · rw [jobs_nil]
    exact List.Perm.refl _

theorem numbered_moves {s s' : State} {l : Label} (h : Numbered s) (hm : Moves s l s') :
    Numbered s' := by
  cases hm with
  | accept =>
      refine ⟨fun task ht => ?_, fun task ht => ?_⟩
      · have ht : task ∈ acceptedTasks s.log ∨ task = s.enqueued := by
          simpa [acceptedTasks, State.record, acceptedTask] using ht
        cases ht with
        | inl ht => exact Nat.lt_succ_of_lt (h.accepted task ht)
        | inr ht => exact ht ▸ Nat.lt_succ_self _
      · exact Nat.lt_succ_of_lt (h.refused task (by simpa [State.record] using ht))
  | refuse =>
      refine ⟨fun task ht => ?_, fun task ht => ?_⟩
      · exact Nat.lt_succ_of_lt
          (h.accepted task (by simpa [acceptedTasks, State.record, acceptedTask] using ht))
      · have ht : .refused task ∈ s.log ∨ task = s.enqueued := by
          simpa [State.record] using ht
        cases ht with
        | inl ht => exact Nat.lt_succ_of_lt (h.refused task ht)
        | inr ht => exact ht ▸ Nat.lt_succ_self _
  | take | start | done =>
      refine ⟨fun task ht => h.accepted task ?_, fun task ht => h.refused task ?_⟩
      · simpa [acceptedTasks, State.record, State.goto, acceptedTask] using ht
      · simpa [State.record, State.goto] using ht
  | notified | unheard | wait | leave | wake | stop | wakeAll | join | destroy =>
      exact ⟨h.accepted, h.refused⟩

theorem Conserved.idle {s : State} {i : Nat} {w : Worker} (h : Conserved s)
    (hw : s.workers[i]? = some w) (w' : Worker) (hhand : hand w = []) (hjob : job w = [])
    (hhand' : hand w' = []) (hjob' : job w' = []) : Conserved (s.goto i w') := by
  refine ⟨h.distinct, h.order, ?_, ?_, h.never⟩
  · obtain ⟨rest, hbefore, hafter⟩ := flatMap_set hw w' hand
    rw [hhand] at hbefore
    rw [hhand'] at hafter
    exact h.taken.trans ((hbefore.trans hafter.symm).append_left _)
  · obtain ⟨rest, hbefore, hafter⟩ := flatMap_set hw w' job
    rw [hjob] at hbefore
    rw [hjob'] at hafter
    exact h.started.trans ((hbefore.trans hafter.symm).append_left _)

theorem conserved_accept {s : State} (h : Conserved s) (hnum : Numbered s) :
    Conserved ({ s with
      enqueued := s.enqueued + 1
      notifying := s.notifying + 1
      tasks := s.tasks ++ [s.enqueued] }.record (.accepted s.enqueued)) := by
  have hfresh : ∀ task ∈ acceptedTasks s.log, task ≠ s.enqueued := fun task ht =>
    Nat.ne_of_lt (hnum.accepted task ht)
  refine ⟨?_, ?_, ?_, ?_, fun task ht => ?_⟩
  · simpa [State.record, acceptedTask, List.nodup_append, h.distinct] using hfresh
  · simpa [State.record, acceptedTask, takenTask, ← List.append_assoc] using h.order
  · simpa [State.record, takenTask, endedTask, hands] using h.taken
  · simpa [State.record, startedTask, endedTask, jobs] using h.started
  · have ht : .refused task ∈ s.log := by simpa [State.record] using ht
    simpa [State.record, acceptedTask] using
      ⟨h.never task ht, Nat.ne_of_lt (hnum.refused task ht)⟩

theorem conserved_refuse {s : State} (h : Conserved s) (hnum : Numbered s) :
    Conserved ({ s with
      enqueued := s.enqueued + 1
      notifying := s.notifying + 1 }.record (.refused s.enqueued)) := by
  refine ⟨?_, ?_, ?_, ?_, fun task ht => ?_⟩
  · simpa [State.record, acceptedTask] using h.distinct
  · simpa [State.record, acceptedTask, takenTask] using h.order
  · simpa [State.record, takenTask, endedTask, hands] using h.taken
  · simpa [State.record, startedTask, endedTask, jobs] using h.started
  · have ht : .refused task ∈ s.log ∨ task = s.enqueued := by simpa [State.record] using ht
    suffices hout : task ∉ acceptedTasks s.log by simpa [State.record, acceptedTask] using hout
    cases ht with
    | inl ht => exact h.never task ht
    | inr ht => exact fun hin => Nat.lt_irrefl _ (ht ▸ hnum.accepted task hin)

theorem conserved_take {s : State} {i task : Nat} {tasks : List Nat} (h : Conserved s)
    (hw : s.workers[i]? = some .locking) (ht : s.tasks = task :: tasks) :
    Conserved (({ s with tasks := tasks }.goto i (.popped task)).record (.taken task)) := by
  refine ⟨?_, ?_, ?_, ?_, fun t hin => ?_⟩
  · simpa [State.record, State.goto, acceptedTask] using h.distinct
  · simpa [State.record, State.goto, acceptedTask, takenTask, ht] using h.order
  · obtain ⟨rest, hbefore, hafter⟩ := flatMap_set hw (.popped task) hand
    have htaken : (takenTasks s.log ++ [task]).Perm (endedTasks s.log ++ (task :: rest)) := by
      have hout := (h.taken.trans (hbefore.append_left _)).append_right [task]
      rw [List.append_assoc] at hout
      exact hout.trans ((List.perm_append_singleton task rest).append_left _)
    have hmoved := htaken.trans (hafter.symm.append_left _)
    simpa [State.record, State.goto, takenTask, endedTask, hands] using hmoved
  · obtain ⟨rest, hbefore, hafter⟩ := flatMap_set hw (.popped task) job
    have hmoved := h.started.trans ((hbefore.trans hafter.symm).append_left _)
    simpa [State.record, State.goto, startedTask, endedTask, jobs] using hmoved
  · have hin : .refused t ∈ s.log := by simpa [State.record, State.goto] using hin
    simpa [State.record, State.goto, acceptedTask] using h.never t hin

theorem conserved_start {s : State} {i task : Nat} (h : Conserved s)
    (hw : s.workers[i]? = some (.popped task)) :
    Conserved ((s.goto i (.running task)).record (.started task)) := by
  refine ⟨?_, ?_, ?_, ?_, fun t hin => ?_⟩
  · simpa [State.record, State.goto, acceptedTask] using h.distinct
  · simpa [State.record, State.goto, acceptedTask, takenTask] using h.order
  · obtain ⟨rest, hbefore, hafter⟩ := flatMap_set hw (.running task) hand
    have hmoved := h.taken.trans ((hbefore.trans hafter.symm).append_left _)
    simpa [State.record, State.goto, takenTask, endedTask, hands] using hmoved
  · obtain ⟨rest, hbefore, hafter⟩ := flatMap_set hw (.running task) job
    have hstarted : (startedTasks s.log ++ [task]).Perm (endedTasks s.log ++ (task :: rest)) := by
      have hout := (h.started.trans (hbefore.append_left _)).append_right [task]
      rw [List.append_assoc] at hout
      exact hout.trans ((List.perm_append_singleton task rest).append_left _)
    have hmoved := hstarted.trans (hafter.symm.append_left _)
    simpa [State.record, State.goto, startedTask, endedTask, jobs] using hmoved
  · have hin : .refused t ∈ s.log := by simpa [State.record, State.goto] using hin
    simpa [State.record, State.goto, acceptedTask] using h.never t hin

theorem conserved_done {s : State} {i task : Nat} (h : Conserved s)
    (hw : s.workers[i]? = some (.running task)) :
    Conserved ((s.goto i .locking).record (.ended task)) := by
  refine ⟨?_, ?_, ?_, ?_, fun t hin => ?_⟩
  · simpa [State.record, State.goto, acceptedTask] using h.distinct
  · simpa [State.record, State.goto, acceptedTask, takenTask] using h.order
  · obtain ⟨rest, hbefore, hafter⟩ := flatMap_set hw .locking hand
    have hended : (takenTasks s.log).Perm (endedTasks s.log ++ [task] ++ rest) := by
      rw [List.append_assoc]
      exact h.taken.trans (hbefore.append_left _)
    have hmoved := hended.trans (hafter.symm.append_left _)
    simpa [State.record, State.goto, takenTask, endedTask, hands] using hmoved
  · obtain ⟨rest, hbefore, hafter⟩ := flatMap_set hw .locking job
    have hended : (startedTasks s.log).Perm (endedTasks s.log ++ [task] ++ rest) := by
      rw [List.append_assoc]
      exact h.started.trans (hbefore.append_left _)
    have hmoved := hended.trans (hafter.symm.append_left _)
    simpa [State.record, State.goto, startedTask, endedTask, jobs] using hmoved
  · have hin : .refused t ∈ s.log := by simpa [State.record, State.goto] using hin
    simpa [State.record, State.goto, acceptedTask] using h.never t hin

theorem conserved_moves {s s' : State} {l : Label} (h : Conserved s) (hnum : Numbered s)
    (hm : Moves s l s') : Conserved s' := by
  cases hm with
  | accept => exact conserved_accept h hnum
  | refuse => exact conserved_refuse h hnum
  | @notified i hn hw =>
      have hmoved := h.idle hw .locking rfl rfl rfl rfl
      exact ⟨hmoved.distinct, hmoved.order, hmoved.taken, hmoved.started, hmoved.never⟩
  | wait hw => exact h.idle hw _ rfl rfl rfl rfl
  | leave hw => exact h.idle hw _ rfl rfl rfl rfl
  | take hw ht => exact conserved_take h hw ht
  | start hw => exact conserved_start h hw
  | done hw => exact conserved_done h hw
  | wake hw => exact h.idle hw _ rfl rfl rfl rfl
  | wakeAll =>
      have hhands : hands (notifyAll s) = hands s := by
        rw [hands, hands, notifyAll, List.flatMap_map]
        exact List.flatMap_congr fun w _ => by cases w <;> rfl
      have hjobs : jobs (notifyAll s) = jobs s := by
        rw [jobs, jobs, notifyAll, List.flatMap_map]
        exact List.flatMap_congr fun w _ => by cases w <;> rfl
      exact ⟨h.distinct, h.order, hhands ▸ h.taken, hjobs ▸ h.started, h.never⟩
  | unheard | stop | join | destroy => exact ⟨h.distinct, h.order, h.taken, h.started, h.never⟩

theorem reachable_conserved {threads : Nat} {s : State}
    (h : Reachable step (threadPool threads) s) : Conserved s := by
  have hstep : ∀ s l t, Conserved s ∧ Numbered s → step s l = some t →
      Conserved t ∧ Numbered t := fun s l t hs ht =>
    ⟨conserved_moves hs.1 hs.2 (step_moves ht), numbered_moves hs.2 (step_moves ht)⟩
  exact (h.invariant hstep ⟨initial_conserved threads, initial_numbered threads⟩).1

theorem Conserved.places {s : State} (h : Conserved s) :
    (acceptedTasks s.log).Perm (endedTasks s.log ++ hands s ++ s.tasks) := by
  rw [h.order]
  exact h.taken.append_right _

theorem Conserved.started_sub {s : State} (h : Conserved s) {task : Nat}
    (ht : task ∈ startedTasks s.log) : task ∈ acceptedTasks s.log := by
  have hjobs : jobs s ⊆ hands s := by
    intro task hin
    obtain ⟨w, hw, hin⟩ := List.mem_flatMap.mp hin
    refine List.mem_flatMap.mpr ⟨w, hw, ?_⟩
    cases w with
    | running t => exact hin
    | locking | waiting | popped | returned => cases hin
  have hplace := h.started.mem_iff.mp ht
  refine h.places.mem_iff.mpr (List.mem_append_left _ ?_)
  cases List.mem_append.mp hplace with
  | inl hended => exact List.mem_append_left _ hended
  | inr hjob => exact List.mem_append_right _ (hjobs hjob)

/-- In every interleaving of callers, workers and destructor, with any number of threads:
tasks are taken in the order in which they were accepted, each accepted task is in the
queue, in the hand of one worker, or has ended, and only once in all of these, and a task
that was refused never starts. -/
theorem tasks_handled_once (threads : Nat) {s : State}
    (h : Reachable step (threadPool threads) s) :
    acceptedTasks s.log = takenTasks s.log ++ s.tasks ∧
      (acceptedTasks s.log).Perm (endedTasks s.log ++ hands s ++ s.tasks) ∧
      (endedTasks s.log ++ hands s ++ s.tasks).Nodup ∧
      (startedTasks s.log).Perm (endedTasks s.log ++ jobs s) ∧
      ∀ task, .refused task ∈ s.log → task ∉ startedTasks s.log := by
  have hs := reachable_conserved h
  exact ⟨hs.order, hs.places, hs.places.nodup_iff.mp hs.distinct, hs.started,
    fun task hr ht => hs.never task hr (hs.started_sub ht)⟩

/-- Two workers take a task each, the second begins before the first, and the destructor
sets stop before the third call. -/
def exampleRun : List Label :=
  [.enqueue, .worker 0, .enqueue, .worker 1, .worker 1, .owner, .enqueue, .worker 0, .worker 1]

theorem tasks_handled_once_exampleRun :
    ∃ s, exec step (threadPool 2) exampleRun = some s ∧
      s.log = [.accepted 0, .taken 0, .accepted 1, .taken 1, .started 1, .refused 2, .started 0,
        .ended 1] ∧
      (acceptedTasks s.log).Perm (endedTasks s.log ++ hands s ++ s.tasks) ∧
      ∀ task, .refused task ∈ s.log → task ∉ startedTasks s.log := by
  have h := tasks_handled_once 2 (s := (exec step (threadPool 2) exampleRun).get rfl)
    ⟨exampleRun, rfl⟩
  exact ⟨_, rfl, rfl, h.2.1, h.2.2.2.2⟩

end Ashe.ThreadPoolTasks
