import Ashe.LoopSteps

namespace Ashe.DelayedLog

open PriorityQueue Tasks MessageLoop LoopCalls LoopSteps Runs

/-- The delayed queue is what is left of the log of its insertions, and the
sequence numbers are the positions in that log, wrapped to 32 bits. -/
structure Numbered (s : State) : Prop where
  number : s.loop.nextSequenceNum = BitVec.ofNat 32 s.entered.length
  numbered : ∀ i (h : i < s.entered.length), (s.entered[i]).sequenceNum = BitVec.ofNat 32 i
  queue : s.loop.delayedWorkQueue.Sublist s.entered
  fresh : ((s.entered ++ pending s.loop).map ticket).Nodup
  below : ∀ t ∈ s.entered ++ pending s.loop, ticket t < s.posted.length

theorem numberFrom_ticket (n : BitVec 32) (ts : List PendingTask) :
    (numberFrom n ts).map ticket = ts.map ticket := by
  induction ts generalizing n with
  | nil => rfl
  | cons t ts ih => simp [numberFrom, ih, ticket]

theorem numberFrom_length (n : BitVec 32) (ts : List PendingTask) :
    (numberFrom n ts).length = ts.length := by
  simpa using congrArg List.length (numberFrom_ticket n ts)

theorem numberFrom_getElem (k : Nat) (ts : List PendingTask) (i : Nat)
    (h : i < (numberFrom (BitVec.ofNat 32 k) ts).length) :
    ((numberFrom (BitVec.ofNat 32 k) ts)[i]).sequenceNum = BitVec.ofNat 32 (k + i) := by
  induction ts generalizing k i with
  | nil => simp [numberFrom] at h
  | cons t ts ih =>
      cases i with
      | zero => rfl
      | succ i =>
          have hk : BitVec.ofNat 32 k + 1 = BitVec.ofNat 32 (k + 1) := (BitVec.ofNat_add _ _).symm
          simp only [numberFrom, hk, List.getElem_cons_succ]
          rw [ih, Nat.add_right_comm, Nat.add_assoc]

theorem Numbered.entered_nodup {s : State} (h : Numbered s) : s.entered.Nodup := by
  have hf := h.fresh
  rw [List.map_append] at hf
  exact List.Nodup.of_map ticket hf.of_append_left

theorem post_numbered {s : State} (h : Numbered s) (quits : Bool) (delay : Int) (nestable : Bool) :
    Numbered (post s quits delay nestable) := by
  refine ⟨h.number, h.numbered, h.queue, ?_, ?_⟩
  · have hp : ((s.entered ++ pending s.loop).map ticket ++ [s.posted.length]).Nodup := by
      refine List.nodup_append.mpr ⟨h.fresh, by simp, ?_⟩
      intro a ha b hb
      obtain ⟨t, ht, rfl⟩ := List.mem_map.mp ha
      have hlt := h.below t ht
      rw [List.mem_singleton.mp hb]
      omega
    simpa [post, addToIncomingQueue, pending, ticket] using hp
  · intro t ht
    have ht' : t ∈ s.entered ++ pending s.loop ∨ ticket t = s.posted.length := by
      simp only [post, addToIncomingQueue, pending, List.mem_append, List.mem_singleton] at ht ⊢
      rcases ht with ht | ht | ht | rfl
      · exact .inl (.inl ht)
      · exact .inl (.inr (.inl ht))
      · exact .inl (.inr (.inr ht))
      · exact .inr rfl
    have hl : (post s quits delay nestable).posted.length = s.posted.length + 1 := by simp [post]
    rcases ht' with ht' | ht'
    · have := h.below t ht'; omega
    · omega

/-- A stretch of the pending tasks is filed, and perhaps one more leaves to be run. -/
theorem take_filed_numbered {s : State} (h : Numbered s) {c : Call} {done : List PendingTask}
    (gone : List PendingTask) (hf : Filed s.loop c.loop done)
    (hp : pending s.loop = done ++ (gone ++ pending c.loop)) : Numbered (take s c) := by
  have hd : c.loop.delayedWorkQueue.drop s.loop.delayedWorkQueue.length =
      numberFrom s.loop.nextSequenceNum (done.filter delayed) := by
    rw [hf.delayedQueue, List.drop_left]
  have hsub : List.Sublist
      ((s.entered ++ numberFrom s.loop.nextSequenceNum (done.filter delayed) ++
        pending c.loop).map ticket) ((s.entered ++ pending s.loop).map ticket) := by
    simp only [List.map_append, numberFrom_ticket, hp, List.append_assoc]
    refine List.Sublist.append_left ?_ _
    refine List.Sublist.append (List.Sublist.map ticket List.filter_sublist) ?_
    exact List.sublist_append_right _ _
  constructor
  · rw [take_loop, take_entered, hd, hf.number, h.number, List.length_append, numberFrom_length,
      BitVec.ofNat_add]
  · simp only [take_entered, hd]
    intro i hi
    by_cases hlt : i < s.entered.length
    · rw [List.getElem_append_left hlt, h.numbered i hlt]
    · rw [List.getElem_append_right (Nat.le_of_not_lt hlt)]
      simp only [h.number]
      rw [numberFrom_getElem, Nat.add_sub_cancel' (Nat.le_of_not_lt hlt)]
  · rw [take_loop, take_entered, hd, hf.delayedQueue]
    exact List.Sublist.append h.queue (List.Sublist.refl _)
  · rw [take_loop, take_entered, hd]
    exact h.fresh.sublist hsub
  · rw [take_loop, take_entered, hd, take_posted]
    intro t ht
    obtain ⟨u, hu, hut⟩ := List.mem_map.mp (hsub.subset (List.mem_map_of_mem (f := ticket) ht))
    rw [← hut]
    exact h.below u hu

/-- Nothing is filed, and perhaps one task leaves the delayed queue. -/
theorem take_kept_numbered {s : State} (h : Numbered s) {c : Call}
    (hn : c.loop.nextSequenceNum = s.loop.nextSequenceNum)
    (hp : pending c.loop = pending s.loop)
    (hq : c.loop.delayedWorkQueue.Sublist s.loop.delayedWorkQueue) : Numbered (take s c) := by
  have he : (take s c).entered = s.entered := by
    rw [take_entered, List.drop_eq_nil_of_le hq.length_le, List.append_nil]
  constructor
  · rw [take_loop, he, hn, h.number]
  · simpa only [he] using h.numbered
  · rw [take_loop, he]; exact hq.trans h.queue
  · rw [take_loop, he, hp]; exact h.fresh
  · rw [take_loop, he, hp, take_posted]; exact h.below

theorem take_doWork_numbered {s : State} (h : Numbered s) : Numbered (take s (doWork s.loop)) := by
  have hw := doWork_works s.loop
  generalize doWork s.loop = c at hw
  cases hw with
  | refused | drained => exact take_kept_numbered h rfl rfl (List.Sublist.refl _)
  | again hn hn' hp hf => exact take_filed_numbered h [] hf hp
  | @runs m' wakeUp done t hn hn' hp ht hf => exact take_filed_numbered h [t] hf hp

theorem extract_sublist {q rest : List PendingTask} {t : PendingTask}
    (h : extract less q = some (t, rest)) : rest.Sublist q := by
  obtain ⟨before, after, rfl, rfl⟩ := extract_split h
  exact List.Sublist.append_left (List.sublist_cons_self _ _) _

theorem take_doDelayedWork_numbered {s : State} (h : Numbered s) :
    Numbered (take s (doDelayedWork s.loop s.now)) := by
  have hw := doDelayedWork_works s.loop s.now
  generalize doDelayedWork s.loop s.now = c at hw
  cases hw with
  | refused | early => exact take_kept_numbered h rfl rfl (List.Sublist.refl _)
  | runs hn hx | defers hn hx => exact take_kept_numbered h rfl rfl (extract_sublist hx)

theorem take_doIdleWork_numbered {s : State} (h : Numbered s) :
    Numbered (take s (doIdleWork s.loop)) := by
  have hw := doIdleWork_works s.loop
  generalize doIdleWork s.loop = c at hw
  cases hw with
  | idle | runs => exact take_kept_numbered h rfl rfl (List.Sublist.refl _)

theorem step_numbered {s s' : State} {l : Label} (h : Numbered s) (hs : step s l = some s') :
    Numbered s' := by
  cases l with
  | tick d =>
      obtain rfl := Option.some.inj hs
      exact ⟨h.number, h.numbered, h.queue, h.fresh, h.below⟩
  | post quits delay nestable => obtain rfl := Option.some.inj hs; exact post_numbered h _ _ _
  | doWork => obtain rfl := Option.some.inj hs; exact take_doWork_numbered h
  | doDelayedWork => obtain rfl := Option.some.inj hs; exact take_doDelayedWork_numbered h
  | doIdleWork => obtain rfl := Option.some.inj hs; exact take_doIdleWork_numbered h
  | finish =>
      obtain ⟨t, rest, -, rfl⟩ := finish_some hs
      exact ⟨h.number, h.numbered, h.queue, h.fresh, h.below⟩

theorem initial_numbered (now : TimePoint) : Numbered (initial now) := by
  constructor <;> simp [initial, emptyLoop, pending]

end Ashe.DelayedLog
