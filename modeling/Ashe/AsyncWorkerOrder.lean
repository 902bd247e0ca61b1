import Ashe.AsyncWorker
import Ashe.Runs

namespace Ashe.AsyncWorkerOrder

open AsyncWorker Runs
open scoped List

inductive Moves (s : State) : Label → State → Prop
  | running (created : Bool) (ho : s.owner = .idle) (ht : s.timesOut = true) :
      Moves s (.start created) (s.record (.startReturned true))
  | launched (ho : s.owner = .idle) (ht : s.timesOut = false) :
      Moves s (.start true)
        (({ s with thread := some s.threads, threads := s.threads + 1 }.goto s.threads
          .entering).record (.startReturned true))
  | failed (ho : s.owner = .idle) (ht : s.timesOut = false) :
      Moves s (.start false) (s.record (.startReturned false))
  | stop (woken : Option Nat) {s' : State} (ho : s.owner = .idle)
      (hs : AsyncWorker.stop woken s = some s') : Moves s (.stop woken) s'
  | join (ho : s.owner = .joining) (ht : s.timesOut = false) :
      Moves s .join { s with owner := .idle }
  | invoke : Moves s .invoke (AsyncWorker.invoke s)
  | notify (woken : Option Nat) {s' : State} (hn : 0 < s.notifying)
      (hs : notifyOne { s with notifying := s.notifying - 1 } woken = some s') :
      Moves s (.notify woken) s'
  | clearTasks : Moves s .clearTasks (emptyQueue s)
  | enter {i : Nat} (hr : s.run i = .entering) :
      Moves s (.run i) ({ s with running := true }.goto i .locking)
  | leave {i : Nat} (hr : s.run i = .locking) (he : s.exit = true) :
      Moves s (.run i) ({ s with running := false }.goto i .leaving)
  | wait {i : Nat} (hr : s.run i = .locking) (he : s.exit = false) (hq : s.workQueue = []) :
      Moves s (.run i) (s.goto i .waiting)
  | pop {i : Nat} {task : Nat} {tasks : List Nat} (hr : s.run i = .locking)
      (he : s.exit = false) (hq : s.workQueue = task :: tasks) :
      Moves s (.run i) ({ s with workQueue := tasks }.goto i (.popped task))
  | execute {i : Nat} {task : Nat} (hr : s.run i = .popped task) :
      Moves s (.run i) ((s.goto i (.executing task)).record (.started task))
  | done {i : Nat} {task : Nat} (hr : s.run i = .executing task) :
      Moves s (.run i) ((s.goto i .locking).record (.ended task))
  | ready {i : Nat} (hr : s.run i = .leaving) : Moves s (.run i) (s.goto i .returned)
  | wake {i : Nat} (hr : s.run i = .waiting) : Moves s (.wake i) (s.goto i .locking)

theorem step_moves {s s' : State} {l : Label} (h : step s l = some s') : Moves s l s' := by
  cases l with
  | start created =>
      simp only [step, Option.ite_none_right_eq_some, Option.some.injEq] at h
      obtain ⟨ho, rfl⟩ := h
      rw [start]
      split
      next ht => exact .running created ho ht
      next ht =>
        have ht : s.timesOut = false := by simpa using ht
        cases created with
        | true => exact .launched ho ht
        | false => exact .failed ho ht
  | stop woken =>
      simp only [step, Option.ite_none_right_eq_some] at h
      exact .stop woken h.1 h.2
  | join =>
      simp only [step, Option.ite_none_right_eq_some, Option.some.injEq] at h
      obtain ⟨⟨ho, ht⟩, rfl⟩ := h
      exact .join ho (by simpa using ht)
  | invoke =>
      obtain rfl := Option.some.inj h
      exact .invoke
  | notify woken =>
      simp only [step, Option.ite_none_right_eq_some] at h
      exact .notify woken h.1 h.2
  | clearTasks =>
      obtain rfl := Option.some.inj h
      exact .clearTasks
  | run i =>
      rw [step, runNext] at h
      split at h
      next => cases h
      next => cases h
      next => cases h
      next hr => obtain rfl := Option.some.inj h; exact .enter hr
      next hr =>
        obtain rfl := Option.some.inj h
        rw [lockedSection]
        split
        next he => exact .leave hr he
        next he =>
          have he : s.exit = false := by simpa using he
          split
          next hq => exact .wait hr he hq
          next hq => exact .pop hr he hq
      next hr => obtain rfl := Option.some.inj h; exact .execute hr
      next hr => obtain rfl := Option.some.inj h; exact .done hr
      next hr => obtain rfl := Option.some.inj h; exact .ready hr
  | wake i =>
      simp only [step, Option.ite_none_right_eq_some, Option.some.injEq] at h
      obtain ⟨hr, rfl⟩ := h
      exact .wake hr

theorem notifyOne_cases {s s' : State} {woken : Option Nat} (h : notifyOne s woken = some s') :
    (s' = s ∧ ∀ i < s.threads, s.run i ≠ .waiting) ∨
      ∃ i, s.run i = .waiting ∧ s' = s.goto i .locking := by
  cases woken with
  | none =>
      simp only [notifyOne, Option.ite_none_right_eq_some, Option.some.injEq] at h
      exact .inl ⟨h.2.symm, h.1⟩
  | some i =>
      simp only [notifyOne, Option.ite_none_right_eq_some, Option.some.injEq] at h
      exact .inr ⟨i, h.1, h.2.symm⟩

def enqueuedTask : Event → Option Nat
  | .enqueued task => some task
  | _ => none

def startedTask : Event → Option Nat
  | .started task => some task
  | _ => none

def enqueuedTasks (log : List Event) : List Nat := log.filterMap enqueuedTask

def startedTasks (log : List Event) : List Nat := log.filterMap startedTask

/-- Tasks start in the order in which they were queued, each once at most and one at a
time, and those that were queued when the queue was emptied never do. -/
structure Orderly (s : State) : Prop where
  distinct : (enqueuedTasks s.log).Nodup
  order : startedTasks s.log <+ enqueuedTasks s.log
  once : (startedTasks s.log).Nodup
  alone : ∀ i j t u, s.run i = .executing t → s.run j = .executing u → i = j
  never : ∀ ts, .emptied ts ∈ s.log → ∀ t ∈ ts, .started t ∉ s.log

def Run.hand : Run → List Nat
  | .popped task => [task]
  | _ => []

def hand (s : State) : List Nat :=
  match s.thread with
  | none => []
  | some i => Run.hand (s.run i)

def line (s : State) : List Nat := startedTasks s.log ++ (hand s ++ s.workQueue)

/-- Only the thread of the future is in run, and the line has the order of the tasks. -/
structure Tidy (s : State) : Prop where
  single : ∀ i, s.run i ≠ .absent → s.run i ≠ .returned → s.thread = some i
  enqueued : enqueuedTasks s.log = List.range s.invoked
  line : line s <+ enqueuedTasks s.log
  emptied : ∀ ts, .emptied ts ∈ s.log → ∀ t ∈ ts,
    t ∈ enqueuedTasks s.log ∧ t ∉ AsyncWorkerOrder.line s

theorem initial_tidy : Tidy initial :=
  ⟨fun _ h => absurd rfl h, rfl, List.Sublist.refl _, fun _ h => absurd h List.not_mem_nil⟩

/-- What a step keeps that neither queues tasks nor empties the queue. -/
theorem Tidy.keep {s s' : State} (h : Tidy s)
    (hsingle : ∀ i, s'.run i ≠ .absent → s'.run i ≠ .returned → s'.thread = some i)
    (henqueued : enqueuedTasks s'.log = enqueuedTasks s.log) (hinvoked : s'.invoked = s.invoked)
    (hline : AsyncWorkerOrder.line s' = AsyncWorkerOrder.line s)
    (hemptied : ∀ ts, .emptied ts ∈ s'.log → .emptied ts ∈ s.log) : Tidy s' := by
  refine ⟨hsingle, ?_, ?_, fun ts hts => ?_⟩
  · rw [henqueued, hinvoked]
    exact h.enqueued
  · rw [hline, henqueued]
    exact h.line
  · rw [hline, henqueued]
    exact h.emptied ts (hemptied ts hts)

theorem Tidy.congr {s s' : State} (h : Tidy s) (hthread : s'.thread = s.thread)
    (hrun : s'.run = s.run) (hqueue : s'.workQueue = s.workQueue)
    (hinvoked : s'.invoked = s.invoked) (hlog : s'.log = s.log) : Tidy s' := by
  refine h.keep ?_ ?_ hinvoked ?_ ?_
  · rw [hrun, hthread]
    exact h.single
  · rw [hlog]
  · simp only [AsyncWorkerOrder.line, hand, hthread, hrun, hqueue, hlog]
  · rw [hlog]
    exact fun _ h => h

def inRun : Run → Bool
  | .absent | .returned => false
  | _ => true

theorem Tidy.active {s : State} {i : Nat} {r : Run} (h : Tidy s) (hr : s.run i = r)
    (hin : inRun r = true) : s.thread = some i := by
  refine h.single i ?_ ?_
  · rintro habsent
    rw [← hr, habsent] at hin
    cases hin
  · rintro hreturned
    rw [← hr, hreturned] at hin
    cases hin

theorem hand_of_thread {s : State} {i : Nat} (h : s.thread = some i) :
    hand s = Run.hand (s.run i) := by
  rw [hand, h]

theorem single_goto {s : State} {i : Nat} (h : Tidy s) (ht : s.thread = some i) (r : Run) :
    ∀ j, (s.goto i r).run j ≠ .absent → (s.goto i r).run j ≠ .returned → s.thread = some j := by
  intro j habsent hreturned
  by_cases hj : j = i
  · rw [hj]
    exact ht
  · rw [s.goto_run_ne hj] at habsent hreturned
    exact h.single j habsent hreturned

theorem hand_goto {s : State} {i : Nat} (ht : s.thread = some i) (r : Run) :
    hand (s.goto i r) = Run.hand r := by
  have ht : (s.goto i r).thread = some i := ht
  rw [hand_of_thread ht, s.goto_run_self]

theorem Tidy.goto {s : State} {i : Nat} {r r' : Run} (h : Tidy s) (hr : s.run i = r)
    (hin : inRun r = true) (hhand : Run.hand r' = Run.hand r) : Tidy (s.goto i r') := by
  have ht := h.active hr hin
  refine h.keep (single_goto h ht r') rfl rfl ?_ fun _ h => h
  have hsame : hand (s.goto i r') = hand s := by
    rw [hand_goto ht, hand_of_thread ht, hr, hhand]
  show startedTasks s.log ++ (hand (s.goto i r') ++ s.workQueue) = AsyncWorkerOrder.line s
  rw [hsame]
  rfl

theorem startedTasks_append (log : List Event) (e : Event) :
    startedTasks (log ++ [e]) = startedTasks log ++ (startedTask e).toList := by
  rw [startedTasks, List.filterMap_append]
  cases he : startedTask e <;> simp [startedTasks, he]

theorem enqueuedTasks_append (log : List Event) (e : Event) :
    enqueuedTasks (log ++ [e]) = enqueuedTasks log ++ (enqueuedTask e).toList := by
  rw [enqueuedTasks, List.filterMap_append]
  cases he : enqueuedTask e <;> simp [enqueuedTasks, he]

theorem Tidy.record {s : State} {e : Event} (h : Tidy s) (hstarted : startedTask e = none)
    (henqueued : enqueuedTask e = none) (hemptied : ∀ ts, e ≠ .emptied ts) :
    Tidy (s.record e) := by
  refine h.keep h.single ?_ rfl ?_ fun ts hts => ?_
  · show enqueuedTasks (s.log ++ [e]) = _
    rw [enqueuedTasks_append, henqueued, Option.toList_none, List.append_nil]
  · show startedTasks (s.log ++ [e]) ++ (hand s ++ s.workQueue) = _
    rw [startedTasks_append, hstarted, Option.toList_none, List.append_nil]
    rfl
  · cases List.mem_append.mp hts with
    | inl hts => exact hts
    | inr hts => exact absurd (List.mem_singleton.mp hts).symm (hemptied ts)

theorem tidy_emptyQueue {s : State} (h : Tidy s) : Tidy (emptyQueue s) := by
  have hline : line s = line (emptyQueue s) ++ s.workQueue := by
    show _ = (startedTasks (s.log ++ [.emptied s.workQueue]) ++ (hand s ++ [])) ++ s.workQueue
    rw [startedTasks_append]
    simp [line, startedTask]
  have henqueued : enqueuedTasks (emptyQueue s).log = enqueuedTasks s.log := by
    show enqueuedTasks (s.log ++ [.emptied s.workQueue]) = _
    rw [enqueuedTasks_append]
    exact List.append_nil _
  have hnodup : (line (emptyQueue s) ++ s.workQueue).Nodup := by
    rw [← hline]
    exact h.line.nodup (h.enqueued ▸ List.nodup_range)
  have hsub : line (emptyQueue s) <+ line s := by
    rw [hline]
    exact List.sublist_append_left _ _
  refine ⟨h.single, henqueued.trans h.enqueued, ?_, fun ts hts t ht => ?_⟩
  · rw [henqueued]
    exact hsub.trans h.line
  · rw [henqueued]
    cases List.mem_append.mp hts with
    | inl hts =>
        obtain ⟨hmem, hnot⟩ := h.emptied ts hts t ht
        exact ⟨hmem, fun hin => hnot (hsub.subset hin)⟩
    | inr hts =>
        obtain rfl := Event.emptied.inj (List.mem_singleton.mp hts)
        refine ⟨h.line.subset ?_, fun hin => (List.nodup_append.mp hnodup).2.2 t hin t ht rfl⟩
        rw [hline]
        exact List.mem_append_right _ ht

theorem tidy_notifyOne {s s' : State} {woken : Option Nat} (h : Tidy s)
    (hs : notifyOne s woken = some s') : Tidy s' := by
  rcases notifyOne_cases hs with ⟨rfl, -⟩ | ⟨i, hr, rfl⟩
  · exact h
  · exact h.goto hr rfl rfl

theorem hand_of_timesOut {s : State} (h : s.timesOut = false) : hand s = [] := by
  rw [hand]
  split
  next => rfl
  next i ht =>
    have hr : s.run i = .returned := by simpa [State.timesOut, ht] using h
    rw [hr]
    rfl

theorem tidy_invoke {s : State} (h : Tidy s) : Tidy (invoke s) := by
  have henqueued : enqueuedTasks (invoke s).log = enqueuedTasks s.log ++ [s.invoked] :=
    enqueuedTasks_append _ _
  have hline : line (invoke s) = line s ++ [s.invoked] := by
    show startedTasks (s.log ++ [.enqueued s.invoked]) ++
      (hand s ++ (s.workQueue ++ [s.invoked])) = _
    rw [startedTasks_append]
    simp [line, startedTask]
  refine ⟨h.single, ?_, ?_, fun ts hts t ht => ?_⟩
  · rw [henqueued, h.enqueued]
    exact List.range_succ.symm
  · rw [henqueued, hline]
    exact h.line.append_right _
  · have hts : .emptied ts ∈ s.log := by simpa [invoke, State.record] using hts
    obtain ⟨hmem, hnot⟩ := h.emptied ts hts t ht
    have hlt : t < s.invoked := List.mem_range.mp (h.enqueued ▸ hmem)
    rw [henqueued, hline]
    exact ⟨List.mem_append_left _ hmem, by simpa using ⟨hnot, Nat.ne_of_lt hlt⟩⟩

theorem tidy_launched {s : State} (h : Tidy s) (ht : s.timesOut = false) :
    Tidy ({ s with thread := some s.threads, threads := s.threads + 1 }.goto s.threads
      .entering) := by
  refine h.keep (fun i habsent hreturned => ?_) rfl rfl ?_ fun _ h => h
  · by_cases hi : i = s.threads
    · rw [hi]
      rfl
    · rw [State.goto_run_ne _ hi] at habsent hreturned
      have hthread := h.single i habsent hreturned
      exact absurd (by simpa [State.timesOut, hthread] using ht) hreturned
  · show startedTasks s.log ++ (hand _ ++ s.workQueue) = line s
    rw [line, hand_goto rfl, hand_of_timesOut ht]
    rfl

theorem moves_tidy {s s' : State} {l : Label} (h : Tidy s) (hm : Moves s l s') : Tidy s' := by
  cases hm with
  | running | failed => exact h.record rfl rfl nofun
  | launched ho ht => exact (tidy_launched h ht).record rfl rfl nofun
  | stop woken ho hs =>
      have hempty := tidy_emptyQueue (h.record (e := .stopCalled) rfl rfl nofun)
      have hset : Tidy { emptyQueue (s.record .stopCalled) with exit := true, owner := .joining } :=
        hempty.congr rfl rfl rfl rfl rfl
      exact tidy_notifyOne hset hs
  | join => exact h.congr rfl rfl rfl rfl rfl
  | invoke => exact tidy_invoke h
  | notify woken hn hs =>
      have hless : Tidy { s with notifying := s.notifying - 1 } := h.congr rfl rfl rfl rfl rfl
      exact tidy_notifyOne hless hs
  | clearTasks => exact tidy_emptyQueue h
  | enter hr =>
      have hgoto : Tidy (s.goto _ .locking) := h.goto hr rfl rfl
      exact hgoto.congr rfl rfl rfl rfl rfl
  | leave hr =>
      have hgoto : Tidy (s.goto _ .leaving) := h.goto hr rfl rfl
      exact hgoto.congr rfl rfl rfl rfl rfl
  | wait hr | ready hr | wake hr => exact h.goto hr rfl rfl
  | done hr => exact Tidy.record (h.goto hr rfl rfl) rfl rfl nofun
  | @pop i task tasks hr he hq =>
      have ht := h.active hr rfl
      refine h.keep (single_goto h ht _) rfl rfl ?_ fun _ h => h
      show startedTasks s.log ++ (hand (s.goto i (.popped task)) ++ tasks) = line s
      rw [line, hand_goto ht, hand_of_thread ht, hr, hq]
      rfl
  | @execute i task hr =>
      have ht := h.active hr rfl
      refine h.keep (single_goto h ht _) ?_ rfl ?_ fun ts hts => ?_
      · exact (enqueuedTasks_append _ _).trans (List.append_nil _)
      · show startedTasks (s.log ++ [.started task]) ++
          (hand (s.goto i (.executing task)) ++ s.workQueue) = line s
        rw [line, startedTasks_append, hand_goto ht, hand_of_thread ht, hr]
        simp [startedTask, Run.hand]
      · simpa [State.record, State.goto] using hts

theorem Tidy.orderly {s : State} (h : Tidy s) : Orderly s := by
  have hdistinct : (enqueuedTasks s.log).Nodup := h.enqueued ▸ List.nodup_range
  have horder : startedTasks s.log <+ enqueuedTasks s.log :=
    (List.sublist_append_left _ _).trans h.line
  refine ⟨hdistinct, horder, horder.nodup hdistinct, ?_, ?_⟩
  · intro i j t u hi hj
    have hi := h.active hi rfl
    have hj := h.active hj rfl
    exact Option.some.inj (hi.symm.trans hj)
  · intro ts hts t ht hstarted
    refine (h.emptied ts hts t ht).2 (List.mem_append_left _ ?_)
    exact List.mem_filterMap.mpr ⟨_, hstarted, rfl⟩

/-- In every interleaving of start, stop, invoke and clearTasks with the threads in run. -/
theorem tasks_orderly (ls : List Label) : Along step (fun _ _ s' => Orderly s') initial ls := by
  refine along_of_step (I := Tidy) (fun s l s' h hs => ?_) initial_tidy
  have h := moves_tidy h (step_moves hs)
  exact ⟨h, h.orderly⟩

end Ashe.AsyncWorkerOrder
