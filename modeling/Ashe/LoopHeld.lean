import Ashe.LoopSteps

namespace Ashe.LoopHeld

open PriorityQueue Tasks MessageLoop LoopCalls LoopSteps

def held (s : State) : List PendingTask :=
  pending s.loop ++ s.loop.delayedWorkQueue ++ s.loop.deferredNonNestableWorkQueue ++ s.active

theorem mem_held {s : State} {t : PendingTask} : t ∈ held s ↔ t ∈ pending s.loop ∨
    t ∈ s.loop.delayedWorkQueue ∨ t ∈ s.loop.deferredNonNestableWorkQueue ∨ t ∈ s.active := by
  simp only [held, List.mem_append, or_assoc]

/-- A task is one that was held before, up to the number it is given. -/
def From (s : State) (t : PendingTask) : Prop := ∃ u ∈ held s, ∃ k, t = { u with sequenceNum := k }

theorem From.of_mem {s : State} {t : PendingTask} (h : t ∈ held s) : From s t := ⟨t, h, _, rfl⟩

theorem From.pending {s : State} {t : PendingTask} (h : t ∈ pending s.loop) : From s t :=
  .of_mem (mem_held.mpr (.inl h))

theorem From.delayed {s : State} {t : PendingTask} (h : t ∈ s.loop.delayedWorkQueue) : From s t :=
  .of_mem (mem_held.mpr (.inr (.inl h)))

theorem From.deferred {s : State} {t : PendingTask}
    (h : t ∈ s.loop.deferredNonNestableWorkQueue) : From s t :=
  .of_mem (mem_held.mpr (.inr (.inr (.inl h))))

theorem take_from {s : State} {c : Call}
    (hp : ∀ t ∈ pending c.loop, From s t) (hd : ∀ t ∈ c.loop.delayedWorkQueue, From s t)
    (hf : ∀ t ∈ c.loop.deferredNonNestableWorkQueue, From s t)
    (ho : ∀ t, c.outcome = .runs t → From s t) : ∀ t ∈ held (take s c), From s t := by
  intro t ht
  rw [mem_held, take_loop, take_active] at ht
  rcases ht with ht | ht | ht | ht
  · exact hp t ht
  · exact hd t ht
  · exact hf t ht
  · have hold : t ∈ s.active → From s t :=
      fun h => .of_mem (mem_held.mpr (.inr (.inr (.inr h))))
    cases hc : c.outcome with
    | runs u =>
        rw [hc] at ht
        rcases List.mem_cons.mp ht with rfl | ht
        · exact ho t hc
        · exact hold ht
    | returns | again =>
        rw [hc] at ht
        exact hold ht

theorem filed_from {s : State} {m' : Loop} {done : List PendingTask} (h : Filed s.loop m' done)
    (hdone : ∀ t ∈ done, t ∈ pending s.loop) :
    (∀ t ∈ m'.delayedWorkQueue, From s t) ∧ ∀ t ∈ m'.deferredNonNestableWorkQueue, From s t := by
  constructor
  · intro t ht
    rw [h.delayedQueue, List.mem_append] at ht
    rcases ht with ht | ht
    · exact .delayed ht
    · obtain ⟨u, hu, k, rfl⟩ := mem_numberFrom ht
      exact ⟨u, mem_held.mpr (.inl (hdone u (List.mem_filter.mp hu).1)), k, rfl⟩
  · intro t ht
    rw [h.deferredQueue, List.mem_append] at ht
    rcases ht with ht | ht
    · exact .deferred ht
    · exact .pending (hdone t (List.mem_filter.mp ht).1)

theorem take_doWork_from (s : State) : ∀ t ∈ held (take s (doWork s.loop)), From s t := by
  have hw := doWork_works s.loop
  generalize doWork s.loop = c at hw
  cases hw with
  | refused | drained => exact fun t ht => .of_mem ht
  | again hn hn' hp hf =>
      obtain ⟨hd, hq⟩ := filed_from hf (fun t ht => by rw [hp]; simp [ht])
      refine take_from (fun t ht => .pending ?_) hd hq (by simp)
      rw [hp]
      exact List.mem_append_right _ ht
  | @runs m' wakeUp done u hn hn' hp hi hf =>
      obtain ⟨hd, hq⟩ := filed_from hf (fun t ht => by rw [hp]; simp [ht])
      refine take_from (fun t ht => .pending ?_) hd hq ?_
      · rw [hp]
        exact List.mem_append_right _ (List.mem_cons_of_mem _ ht)
      · rintro t ⟨rfl⟩
        exact .pending (by rw [hp]; simp)

theorem take_doDelayedWork_from (s : State) :
    ∀ t ∈ held (take s (doDelayedWork s.loop s.now)), From s t := by
  have hw := doDelayedWork_works s.loop s.now
  generalize doDelayedWork s.loop s.now = c at hw
  cases hw with
  | refused | early => exact fun t ht => .of_mem ht
  | @runs u rest recent wakeUp hn hx =>
      have hp := (extract_perm hx).symm
      refine take_from (fun t ht => .pending ht) ?_ (fun t ht => .deferred ht) ?_
      · intro t ht
        exact .delayed (hp.subset (List.mem_cons_of_mem _ ht))
      · rintro t ⟨rfl⟩
        exact .delayed (hp.subset List.mem_cons_self)
  | @defers u rest recent wakeUp hn hx =>
      have hp := (extract_perm hx).symm
      refine take_from (fun t ht => .pending ht) ?_ ?_ (by simp)
      · intro t ht
        exact .delayed (hp.subset (List.mem_cons_of_mem _ ht))
      · intro t ht
        rcases List.mem_append.mp ht with ht | ht
        · exact .deferred ht
        · rw [List.mem_singleton.mp ht]
          exact .delayed (hp.subset List.mem_cons_self)

theorem take_doIdleWork_from (s : State) : ∀ t ∈ held (take s (doIdleWork s.loop)), From s t := by
  have hw := doIdleWork_works s.loop
  generalize doIdleWork s.loop = c at hw
  cases hw with
  | idle => exact fun t ht => .of_mem ht
  | @runs u rest h =>
      refine take_from (fun t ht => .pending ht) (fun t ht => .delayed ht) ?_ ?_
      · intro t ht
        apply From.deferred
        rw [h]
        exact List.mem_cons_of_mem _ ht
      · rintro t ⟨rfl⟩
        apply From.deferred
        rw [h]
        exact List.mem_cons_self

end Ashe.LoopHeld
