import Ashe.Runs
import Ashe.TimerSteps

namespace Ashe.TimerIds

open TimerManager TimerSteps Runs

/-- Every id is free, pending or held by the worker, and only one of these. -/
def Partition (s : State) : Prop :=
  (s.freeIds ++ refs s ++ held s).Perm (List.range s.events.length)

theorem add_partition {s : State} (h : Partition s) (when period : Int) :
    Partition (add s when period).1 := by
  rw [Partition] at h ⊢
  rw [add]
  split
  next hfree =>
    have hi := insertEvent_refs ⟨when, s.events.length⟩ s.timeEvents
    rw [hfree, List.nil_append] at h
    simp only [refs, held, hfree, List.nil_append, List.length_append, List.length_singleton,
      List.range_succ]
    exact (hi.append_right _).trans ((h.cons _).trans (List.perm_append_singleton ..).symm)
  next id rest hfree =>
    have hi := insertEvent_refs ⟨when, id⟩ s.timeEvents
    rw [hfree] at h
    simp only [refs, held, List.length_set]
    refine (((hi.append_left rest).trans List.perm_middle).append_right _).trans h

theorem remove_partition {s : State} (h : Partition s) (id : Nat) : Partition (remove s id).1 := by
  rcases remove_cases s id with he | ⟨-, -, he⟩ | ⟨before, te, after, -, rfl, hsplit, he⟩
  · rw [he]
    exact h
  · rw [he]
    simpa only [Partition, refs, held, invalidate_length] using h
  · rw [Partition, refs, hsplit, List.map_append, List.map_cons] at h
    rw [he, Partition, invalidate_length]
    refine List.Perm.trans (List.Perm.append_right (held s) ?_) h
    rw [refs, List.map_append, List.cons_append, ← List.append_assoc, ← List.append_assoc]
    exact List.perm_middle.symm

/-- A turn that begins with every id free or pending takes at most one out. -/
theorem turn_partition {s : State}
    (h : (s.freeIds ++ refs s).Perm (List.range s.events.length)) : Partition (turn s) := by
  rcases turn_cases s with ⟨w, hw, he⟩ | ⟨te, rest, hcons, he⟩
  · rw [he, Partition]
    rcases hw with rfl | rfl <;> simpa only [refs, held, List.append_nil] using h
  · rw [he]
    rw [refs, hcons, List.map_cons] at h
    simp only [Partition, refs, held]
    refine List.Perm.trans ?_ h
    rw [List.append_assoc]
    exact (List.perm_append_singleton ..).append_left s.freeIds

theorem settle_partition {s t : State} {te : TimeEvent} (h : Partition s)
    (hw : s.worker = .returned te) (ht : settle s te = some t) :
    (t.freeIds ++ refs t).Perm (List.range t.events.length) := by
  rw [Partition, held, hw] at h
  obtain ⟨e, -, ⟨-, -, rfl⟩ | rfl⟩ := settle_cases ht
  · have hi := insertEvent_refs { te with next := plusPeriod te.next e.period } s.timeEvents
    refine List.Perm.trans ?_ h
    rw [List.append_assoc]
    exact (hi.trans (List.perm_append_singleton ..).symm).append_left s.freeIds
  · simp only [refs, invalidate_length]
    exact (List.perm_append_singleton ..).symm.trans h

theorem moves_partition {s s' : State} {l : Label} (h : Partition s) (hm : Moves s l s') :
    Partition s' := by
  cases hm with
  | tick | destory => exact h
  | add when period => exact add_partition h when period
  | remove id => exact remove_partition h id
  | init hw | startHandler hw | endHandler _ hw =>
      rw [Partition, held, hw] at h
      exact h
  | wake hw =>
      rw [Partition, held, hw, List.append_nil] at h
      exact turn_partition h
  | relock hw ht => exact turn_partition (settle_partition h hw ht)

theorem initial_partition (now : Int) : Partition (initial now) := List.Perm.refl []

theorem reachable_partition {now : Int} {s : State} (h : Reachable step (initial now) s) :
    Partition s :=
  h.invariant (fun _ _ _ hp hs => moves_partition hp (step_moves hs)) (initial_partition now)

theorem Partition.nodup {s : State} (h : Partition s) : (s.freeIds ++ refs s ++ held s).Nodup :=
  h.nodup_iff.mpr List.nodup_range

theorem Partition.add_fresh {s : State} (h : Partition s) (when period : Int) :
    (add s when period).2 ∉ refs s ∧ (add s when period).2 ∉ held s := by
  rw [add]
  split
  next hfree =>
    have hrange : ∀ id ∈ refs s ++ held s, id < s.events.length := by
      intro id hid
      rw [Partition, hfree, List.nil_append] at h
      exact List.mem_range.mp (h.subset hid)
    constructor
    · exact fun hmem => Nat.lt_irrefl _ (hrange _ (List.mem_append_left _ hmem))
    · exact fun hmem => Nat.lt_irrefl _ (hrange _ (List.mem_append_right _ hmem))
  next id rest hfree =>
    have hnd := h.nodup
    rw [hfree, List.cons_append, List.cons_append, List.nodup_cons, List.append_assoc] at hnd
    constructor
    · exact fun hmem => hnd.1 (List.mem_append_right _ (List.mem_append_left _ hmem))
    · exact fun hmem => hnd.1 (List.mem_append_right _ (List.mem_append_right _ hmem))

/-- Whenever the lock is free the ids are split between the free ones, the
pending ones and the one in the worker's hands. So add never gives out an id
in use, and no two pending entries share one. -/
theorem reachable_ids (now : Int) (s : State) (h : Reachable step (initial now) s) :
    (s.freeIds ++ refs s ++ held s).Perm (List.range s.events.length) ∧
    (∀ when period, (add s when period).2 ∉ refs s ∧ (add s when period).2 ∉ held s) ∧
    (refs s).Nodup := by
  have hp := reachable_partition h
  refine ⟨hp, hp.add_fresh, ?_⟩
  exact hp.nodup.of_append_left.of_append_right

/-- Two timers, of which the worker has the first in hand when it is removed,
and a third that gets a new id. -/
def removeInHand : List Label :=
  [.init, .add 0 5, .add 9 0, .tick 1, .wake, .startHandler, .remove 0, .add 4 0]

theorem reachable_ids_removeInHand : ∃ s, exec step (initial 0) removeInHand = some s ∧
    refs s = [2, 1] ∧ held s = [0] ∧
    (s.freeIds ++ refs s ++ held s).Perm (List.range s.events.length) := by
  refine ⟨_, rfl, by decide +kernel, by decide +kernel, ?_⟩
  exact (reachable_ids 0 _ ⟨removeInHand, rfl⟩).1

end Ashe.TimerIds
