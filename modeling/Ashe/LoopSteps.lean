import Mathlib.Data.List.Nodup
import Ashe.LoopCalls
import Ashe.Runs

namespace Ashe.LoopSteps

open PriorityQueue Tasks MessageLoop LoopCalls Runs

/-- One message loop, whoever drives it, with the history of its tasks: as
they took the incoming lock, entered the delayed queue, started and ended. -/
structure State where
  loop : Loop
  now : TimePoint
  active : List PendingTask
  posted : List PendingTask
  entered : List PendingTask
  started : List PendingTask
  executed : List PendingTask

/-- Steps at lock granularity. A post is the locked section of any poster, the
loop's own thread included; a delegate call may come at any time, also from a
callback; the innermost active callback may end at any time. -/
inductive Label
  | tick (d : Nat)
  | post (quits : Bool) (delay : Int) (nestable : Bool)
  | doWork
  | doDelayedWork
  | doIdleWork
  | finish

def initial (now : TimePoint) : State := ⟨emptyLoop, now, [], [], [], [], []⟩

def post (s : State) (quits : Bool) (delay : Int) (nestable : Bool) : State :=
  let callback := ⟨s.posted.length, quits⟩
  { s with
    loop := (addToIncomingQueue s.loop s.now callback delay nestable).1
    posted := s.posted ++ [⟨callback, 0, calculateDelayedRuntime s.now delay, nestable⟩] }

/-- Take over what a delegate call did. Only doWork makes the delayed queue
longer, and it appends. -/
def take (s : State) (c : Call) : State :=
  let s := { s with
    loop := c.loop
    entered := s.entered ++ c.loop.delayedWorkQueue.drop s.loop.delayedWorkQueue.length }
  match c.outcome with
  | .runs t => { s with active := t :: s.active, started := s.started ++ [t] }
  | _ => s

def finish (s : State) : Option State :=
  match s.active with
  | [] => none
  | t :: rest => some { s with
      loop := finishTask s.loop, active := rest, executed := s.executed ++ [t] }

def step (s : State) : Label → Option State
  | .tick d => some { s with now := s.now + d }
  | .post quits delay nestable => some (post s quits delay nestable)
  | .doWork => some (take s (doWork s.loop))
  | .doDelayedWork => some (take s (doDelayedWork s.loop s.now))
  | .doIdleWork => some (take s (doIdleWork s.loop))
  | .finish => finish s

/-- The tasks, at most one, whose callbacks a step starts. -/
def starts (s s' : State) : List PendingTask := s'.started.drop s.started.length

@[simp] theorem take_loop (s : State) (c : Call) : (take s c).loop = c.loop := by
  rw [take]; split <;> rfl

@[simp] theorem take_posted (s : State) (c : Call) : (take s c).posted = s.posted := by
  rw [take]; split <;> rfl

theorem take_entered (s : State) (c : Call) : (take s c).entered =
    s.entered ++ c.loop.delayedWorkQueue.drop s.loop.delayedWorkQueue.length := by
  rw [take]; split <;> rfl

theorem take_active (s : State) (c : Call) :
    (take s c).active = match c.outcome with | .runs t => t :: s.active | _ => s.active := by
  rw [take]; cases c.outcome <;> rfl

theorem starts_self {s s' : State} (h : s'.started = s.started) : starts s s' = [] := by
  rw [starts, h, List.drop_length]

theorem starts_take (s : State) (c : Call) :
    starts s (take s c) = match c.outcome with | .runs t => [t] | _ => [] := by
  rw [starts, take]; cases c.outcome <;> simp

theorem finish_some {s s' : State} (h : finish s = some s') : ∃ t rest, s.active = t :: rest ∧
    s' = { s with
      loop := finishTask s.loop, active := rest, executed := s.executed ++ [t] } := by
  rw [finish] at h
  split at h
  next => exact absurd h (by simp)
  next t rest hact => exact ⟨t, rest, hact, (Option.some.inj h).symm⟩

/-- What the queues hold, and how they continue the history of what started. -/
structure Ordered (s : State) : Prop where
  delayedQueue : ∀ t ∈ s.loop.delayedWorkQueue, t.delayedRunTime ≠ 0
  deferredQueue : ∀ t ∈ s.loop.deferredNonNestableWorkQueue, t.nestable = false
  tickets : s.posted.map ticket = List.range s.posted.length
  fifo : s.posted.filter immediate =
    s.started.filter immediate ++ (pending s.loop).filter immediate

theorem post_ordered {s : State} (h : Ordered s) (quits : Bool) (delay : Int) (nestable : Bool) :
    Ordered (post s quits delay nestable) := by
  refine ⟨h.delayedQueue, h.deferredQueue, ?_, ?_⟩
  · simp [post, List.range_succ, h.tickets, ticket]
  · simp only [post, addToIncomingQueue, pending, List.filter_append]
    rw [h.fifo]
    simp [pending]

theorem take_doWork_ordered {s : State} (h : Ordered s) : Ordered (take s (doWork s.loop)) := by
  have hw := doWork_works s.loop
  generalize doWork s.loop = c at hw
  cases hw with
  | refused | drained => exact ⟨h.delayedQueue, h.deferredQueue, h.tickets, h.fifo⟩
  | again hn hn' hp hf =>
      refine ⟨hf.delayed_ne h.delayedQueue, hf.deferred_not_nestable h.deferredQueue, h.tickets, ?_⟩
      have hq := h.fifo
      rw [hp, List.filter_append, hf.immediate_nil, List.nil_append] at hq
      exact hq
  | runs hn hn' hp ht hf =>
      refine ⟨hf.delayed_ne h.delayedQueue, hf.deferred_not_nestable h.deferredQueue, h.tickets, ?_⟩
      have hq := h.fifo
      rw [hp, List.filter_append, hf.immediate_nil, List.nil_append,
        List.filter_cons_of_pos ht] at hq
      simpa [take, List.filter_append, ht] using hq

theorem take_doDelayedWork_ordered {s : State} (h : Ordered s) :
    Ordered (take s (doDelayedWork s.loop s.now)) := by
  have hw := doDelayedWork_works s.loop s.now
  generalize doDelayedWork s.loop s.now = c at hw
  cases hw with
  | refused | early => exact ⟨h.delayedQueue, h.deferredQueue, h.tickets, h.fifo⟩
  | runs hn hx ht hr hs =>
      have hp := extract_perm hx
      have hd := h.delayedQueue _ (hp.symm.subset List.mem_cons_self)
      refine ⟨fun u hu => h.delayedQueue u (hp.symm.subset (List.mem_cons_of_mem _ hu)),
        h.deferredQueue, h.tickets, ?_⟩
      have hq := h.fifo
      simpa [take, List.filter_append, immediate, hd, pending] using hq
  | defers hn hx ht hr hs =>
      have hp := extract_perm hx
      refine ⟨fun u hu => h.delayedQueue u (hp.symm.subset (List.mem_cons_of_mem _ hu)),
        ?_, h.tickets, h.fifo⟩
      intro u hu
      rcases List.mem_append.mp hu with hu | hu
      · exact h.deferredQueue u hu
      · rw [List.mem_singleton.mp hu]; exact hs

theorem take_doIdleWork_ordered {s : State} (h : Ordered s) :
    Ordered (take s (doIdleWork s.loop)) := by
  have hw := doIdleWork_works s.loop
  generalize doIdleWork s.loop = c at hw
  cases hw with
  | idle => exact ⟨h.delayedQueue, h.deferredQueue, h.tickets, h.fifo⟩
  | @runs t rest he =>
      have hs : t.nestable = false := h.deferredQueue t (by simp [he])
      refine ⟨h.delayedQueue, ?_, h.tickets, ?_⟩
      · intro u hu
        exact h.deferredQueue u (by rw [he]; exact List.mem_cons_of_mem _ hu)
      · have hq := h.fifo
        simpa [take, List.filter_append, immediate, hs, pending] using hq

theorem step_ordered {s s' : State} {l : Label} (h : Ordered s) (hs : step s l = some s') :
    Ordered s' := by
  cases l with
  | tick d =>
      obtain rfl := Option.some.inj hs
      exact ⟨h.delayedQueue, h.deferredQueue, h.tickets, h.fifo⟩
  | post quits delay nestable => obtain rfl := Option.some.inj hs; exact post_ordered h _ _ _
  | doWork => obtain rfl := Option.some.inj hs; exact take_doWork_ordered h
  | doDelayedWork => obtain rfl := Option.some.inj hs; exact take_doDelayedWork_ordered h
  | doIdleWork => obtain rfl := Option.some.inj hs; exact take_doIdleWork_ordered h
  | finish =>
      obtain ⟨t, rest, -, rfl⟩ := finish_some hs
      exact ⟨h.delayedQueue, h.deferredQueue, h.tickets, h.fifo⟩

theorem initial_ordered (now : TimePoint) : Ordered (initial now) :=
  ⟨by simp [initial, emptyLoop], by simp [initial, emptyLoop], rfl, rfl⟩

/-- Every run of the loop, under any driver, keeps the queues well formed and
the immediate tasks in the order of their posts. -/
theorem reachable_ordered {now : TimePoint} {s : State} (h : Reachable step (initial now) s) :
    Ordered s :=
  h.invariant (fun _ _ _ => step_ordered) (initial_ordered now)

end Ashe.LoopSteps
