import Ashe.MessageLoop

namespace Ashe.LoopCalls

open PriorityQueue Tasks MessageLoop

def delayed (t : PendingTask) : Bool := t.delayedRunTime != 0

/-- The tasks doWork has taken from the posters and not yet dealt with, followed
by those it has not taken yet. Loading moves the boundary and nothing else. -/
def pending (m : Loop) : List PendingTask := m.workQueue ++ m.incomingQueue

def numberFrom (n : BitVec 32) : List PendingTask → List PendingTask
  | [] => []
  | t :: ts => { t with sequenceNum := n } :: numberFrom (n + 1) ts

structure Filed (m m' : Loop) (done : List PendingTask) : Prop where
  passed : ∀ t ∈ done, immediate t = false
  delayedQueue : m'.delayedWorkQueue =
    m.delayedWorkQueue ++ numberFrom m.nextSequenceNum (done.filter delayed)
  number : m'.nextSequenceNum =
    m.nextSequenceNum + BitVec.ofNat 32 (done.filter delayed).length
  deferredQueue : m'.deferredNonNestableWorkQueue =
    m.deferredNonNestableWorkQueue ++ done.filter (fun t => !delayed t)
  recentTime : m'.recentTime = m.recentTime

inductive Works (m : Loop) : Call → Prop
  | refused (hn : m.nestableTasksAllowed = false) : Works m ⟨m, none, .returns false⟩
  | drained (hn : m.nestableTasksAllowed = true) (hw : m.workQueue = [])
      (hi : m.incomingQueue = []) : Works m ⟨m, none, .returns false⟩
  | again {m' : Loop} {wakeUp : Option TimePoint} {done : List PendingTask}
      (hn : m.nestableTasksAllowed = true) (hn' : m'.nestableTasksAllowed = true)
      (hp : pending m = done ++ pending m') (hf : Filed m m' done) : Works m ⟨m', wakeUp, .again⟩
  | runs {m' : Loop} {wakeUp : Option TimePoint} {done : List PendingTask} {t : PendingTask}
      (hn : m.nestableTasksAllowed = true) (hn' : m'.nestableTasksAllowed = false)
      (hp : pending m = done ++ t :: pending m') (ht : immediate t = true)
      (hf : Filed m m' done) : Works m ⟨m', wakeUp, .runs t⟩

inductive DelayedWorks (m : Loop) (now : TimePoint) : Call → Prop
  | refused (h : m.nestableTasksAllowed = false ∨ m.delayedWorkQueue = []) :
      DelayedWorks m now ⟨{ m with recentTime := 0 }, some 0, .returns false⟩
  | early {t : PendingTask} {rest : List PendingTask} (hn : m.nestableTasksAllowed = true)
      (hx : extract less m.delayedWorkQueue = some (t, rest)) (ht : now < t.delayedRunTime) :
      DelayedWorks m now ⟨{ m with recentTime := now }, some t.delayedRunTime, .returns false⟩
  | runs {t : PendingTask} {rest : List PendingTask} {recent : TimePoint}
      {wakeUp : Option TimePoint} (hn : m.nestableTasksAllowed = true)
      (hx : extract less m.delayedWorkQueue = some (t, rest)) (ht : t.delayedRunTime ≤ recent)
      (hr : recent = now ∨ recent = m.recentTime) (hs : t.nestable = true) :
      DelayedWorks m now ⟨{ m with
        recentTime := recent, delayedWorkQueue := rest, nestableTasksAllowed := false }, wakeUp,
        .runs t⟩
  | defers {t : PendingTask} {rest : List PendingTask} {recent : TimePoint}
      {wakeUp : Option TimePoint} (hn : m.nestableTasksAllowed = true)
      (hx : extract less m.delayedWorkQueue = some (t, rest)) (ht : t.delayedRunTime ≤ recent)
      (hr : recent = now ∨ recent = m.recentTime) (hs : t.nestable = false) :
      DelayedWorks m now ⟨{ m with
        recentTime := recent, delayedWorkQueue := rest
        deferredNonNestableWorkQueue := m.deferredNonNestableWorkQueue ++ [t] }, wakeUp,
        .returns false⟩

inductive IdleWorks (m : Loop) : Call → Prop
  | idle (h : m.deferredNonNestableWorkQueue = []) : IdleWorks m ⟨m, none, .returns false⟩
  | runs {t : PendingTask} {rest : List PendingTask}
      (h : m.deferredNonNestableWorkQueue = t :: rest) :
      IdleWorks m ⟨{ m with
        deferredNonNestableWorkQueue := rest, nestableTasksAllowed := false }, none, .runs t⟩

theorem Filed.nil (m : Loop) (q : List PendingTask) : Filed m { m with workQueue := q } [] := by
  constructor <;> simp [numberFrom]

theorem Filed.delay {m m' : Loop} {done : List PendingTask} {t : PendingTask}
    (ht : t.delayedRunTime ≠ 0) (h : Filed (addToDelayedWorkQueue m t) m' done) :
    Filed m m' (t :: done) := by
  have hd : delayed t = true := by simpa [delayed] using ht
  constructor
  · intro u hu
    rcases List.mem_cons.mp hu with rfl | hu
    · simp [immediate, ht]
    · exact h.passed u hu
  · rw [h.delayedQueue, List.filter_cons_of_pos hd]
    simp [addToDelayedWorkQueue, numberFrom]
  · rw [h.number, List.filter_cons_of_pos hd, List.length_cons, BitVec.ofNat_add,
      BitVec.add_comm (BitVec.ofNat 32 _), ← BitVec.add_assoc]
    rfl
  · rw [h.deferredQueue, List.filter_cons_of_neg (by simp [hd])]
    rfl
  · exact h.recentTime

theorem Filed.defer {m m' : Loop} {done : List PendingTask} {t : PendingTask} {q : List PendingTask}
    (ht : t.delayedRunTime = 0) (hs : t.nestable = false)
    (h : Filed { m with
      workQueue := q
      deferredNonNestableWorkQueue := m.deferredNonNestableWorkQueue ++ [t] } m' done) :
    Filed m m' (t :: done) := by
  have hd : delayed t = false := by simpa [delayed] using ht
  constructor
  · intro u hu
    rcases List.mem_cons.mp hu with rfl | hu
    · simp [immediate, hs]
    · exact h.passed u hu
  · rw [h.delayedQueue, List.filter_cons_of_neg (by simp [hd])]
  · rw [h.number, List.filter_cons_of_neg (by simp [hd])]
  · rw [h.deferredQueue, List.filter_cons_of_pos (by simp [hd])]
    simp
  · exact h.recentTime

theorem mem_numberFrom {n : BitVec 32} {ts : List PendingTask} {t : PendingTask}
    (h : t ∈ numberFrom n ts) : ∃ u ∈ ts, ∃ k, t = { u with sequenceNum := k } := by
  induction ts generalizing n with
  | nil => simp [numberFrom] at h
  | cons u ts ih =>
      rcases List.mem_cons.mp h with rfl | h
      · exact ⟨u, by simp, n, rfl⟩
      · obtain ⟨v, hv, k, hk⟩ := ih h
        exact ⟨v, by simp [hv], k, hk⟩

theorem Filed.delayed_ne {m m' : Loop} {done : List PendingTask} (h : Filed m m' done)
    (hm : ∀ t ∈ m.delayedWorkQueue, t.delayedRunTime ≠ 0) :
    ∀ t ∈ m'.delayedWorkQueue, t.delayedRunTime ≠ 0 := by
  intro t ht
  rw [h.delayedQueue, List.mem_append] at ht
  rcases ht with ht | ht
  · exact hm t ht
  · obtain ⟨u, hu, k, rfl⟩ := mem_numberFrom ht
    simpa [delayed] using (List.mem_filter.mp hu).2

theorem Filed.deferred_not_nestable {m m' : Loop} {done : List PendingTask} (h : Filed m m' done)
    (hm : ∀ t ∈ m.deferredNonNestableWorkQueue, t.nestable = false) :
    ∀ t ∈ m'.deferredNonNestableWorkQueue, t.nestable = false := by
  intro t ht
  rw [h.deferredQueue, List.mem_append] at ht
  rcases ht with ht | ht
  · exact hm t ht
  · obtain ⟨hd, hf⟩ := List.mem_filter.mp ht
    have hi := h.passed t hd
    simp only [delayed, bne, Bool.not_not, beq_iff_eq] at hf
    simpa [immediate, hf] using hi

theorem Filed.immediate_nil {m m' : Loop} {done : List PendingTask} (h : Filed m m' done) :
    done.filter immediate = [] :=
  List.filter_eq_nil_iff.mpr (fun t ht => by simp [h.passed t ht])

/-- The tasks before the one that is run, or all of them, are filed in order. -/
theorem executeOldest_spec (q : List PendingTask) (m : Loop) (wakeUp : Option TimePoint)
    (hn : m.nestableTasksAllowed = true) :
    (∃ m' w, executeOldest m wakeUp q = ⟨m', w, .again⟩ ∧ m'.nestableTasksAllowed = true ∧
      m'.workQueue = [] ∧ m'.incomingQueue = m.incomingQueue ∧ Filed m m' q) ∨
    ∃ m' w done t, executeOldest m wakeUp q = ⟨m', w, .runs t⟩ ∧
      m'.nestableTasksAllowed = false ∧ q = done ++ t :: m'.workQueue ∧
      m'.incomingQueue = m.incomingQueue ∧ immediate t = true ∧ Filed m m' done := by
  induction q generalizing m wakeUp with
  | nil => exact .inl ⟨_, _, rfl, hn, rfl, rfl, Filed.nil m []⟩
  | cons t rest ih =>
      rw [executeOldest]
      by_cases ht : t.delayedRunTime = 0
      · simp only [ht, ne_eq, not_true_eq_false, if_false, deferOrRunPendingTask]
        cases hs : t.nestable with
        | true =>
            simp only [if_true, runTask]
            refine .inr ⟨_, _, [], t, rfl, rfl, rfl, rfl, by simp [immediate, hs, ht], ?_⟩
            constructor <;> simp [numberFrom]
        | false =>
            simp only [Bool.false_eq_true, if_false]
            rcases ih { m with
                workQueue := rest
                deferredNonNestableWorkQueue := m.deferredNonNestableWorkQueue ++ [t] }
              wakeUp hn with
              ⟨m', w, he, hn', hw, hi, hf⟩ | ⟨m', w, done, u, he, hn', hq, hi, hu, hf⟩
            · exact .inl ⟨m', w, he, hn', hw, hi, hf.defer ht hs⟩
            · exact .inr ⟨m', w, t :: done, u, he, hn', by rw [hq]; rfl, hi, hu, hf.defer ht hs⟩
      · simp only [ht, ne_eq, not_false_eq_true, if_true]
        rcases ih (addToDelayedWorkQueue m t)
            (if m.delayedWorkQueue.isEmpty then some t.delayedRunTime else wakeUp) hn with
          ⟨m', w, he, hn', hw, hi, hf⟩ | ⟨m', w, done, u, he, hn', hq, hi, hu, hf⟩
        · exact .inl ⟨m', w, he, hn', hw, hi, hf.delay ht⟩
        · exact .inr ⟨m', w, t :: done, u, he, hn', by rw [hq]; rfl, hi, hu, hf.delay ht⟩

theorem reloadWorkQueue_pending (m : Loop) : pending (reloadWorkQueue m) = pending m := by
  rw [reloadWorkQueue]
  split
  next => rfl
  next hw =>
    split
    next => rfl
    next hi =>
      have he : m.workQueue = [] := by simpa using hw
      simp [pending, he]

theorem reloadWorkQueue_filed {m m' : Loop} {done : List PendingTask}
    (h : Filed (reloadWorkQueue m) m' done) : Filed m m' done := by
  rw [reloadWorkQueue] at h
  split at h
  next => exact h
  next =>
    split at h
    next => exact h
    next => exact ⟨h.passed, h.delayedQueue, h.number, h.deferredQueue, h.recentTime⟩

theorem reloadWorkQueue_allowed (m : Loop) :
    (reloadWorkQueue m).nestableTasksAllowed = m.nestableTasksAllowed := by
  rw [reloadWorkQueue]
  split
  next => rfl
  next => split <;> rfl

/-- A reload leaves nothing to do only when nothing has been posted either. -/
theorem reloadWorkQueue_empty {m : Loop} (h : (reloadWorkQueue m).workQueue = []) :
    m.workQueue = [] ∧ m.incomingQueue = [] ∧ reloadWorkQueue m = m := by
  rw [reloadWorkQueue] at h ⊢
  split at h
  next hw => simp [h] at hw
  next hw =>
    have he : m.workQueue = [] := by simpa using hw
    split at h
    next hi => exact ⟨h, by simpa using hi, by simp [he, List.isEmpty_iff.mp hi]⟩
    next hi => simp [show m.incomingQueue = [] from h] at hi

theorem doWork_works (m : Loop) : Works m (doWork m) := by
  rw [doWork]
  cases hn : m.nestableTasksAllowed with
  | false => exact .refused hn
  | true =>
      simp only [Bool.not_true, Bool.false_eq_true, if_false]
      by_cases hw : (reloadWorkQueue m).workQueue = []
      · obtain ⟨hwork, hin, he⟩ := reloadWorkQueue_empty hw
        simp only [he, hwork, List.isEmpty_nil, if_true]
        exact .drained hn hwork hin
      · simp only [List.isEmpty_iff, hw, if_false]
        have hr : (reloadWorkQueue m).nestableTasksAllowed = true := by
          rw [reloadWorkQueue_allowed, hn]
        have hp := reloadWorkQueue_pending m
        rcases executeOldest_spec (reloadWorkQueue m).workQueue (reloadWorkQueue m) none hr with
          ⟨m', w, he, hn', hq, hi, hf⟩ | ⟨m', w, done, t, he, hn', hq, hi, ht, hf⟩
        · rw [he]
          refine .again hn hn' ?_ (reloadWorkQueue_filed hf)
          rw [← hp, pending, pending, hq, hi, List.nil_append]
        · rw [he]
          refine .runs hn hn' ?_ ht (reloadWorkQueue_filed hf)
          rw [← hp, pending, pending, hi, hq, List.append_assoc, List.cons_append]

theorem doDelayedWork_works (m : Loop) (now : TimePoint) :
    DelayedWorks m now (doDelayedWork m now) := by
  rw [doDelayedWork]
  split
  next t rest hn hx =>
    dsimp only
    by_cases hc : t.delayedRunTime > m.recentTime
    · simp only [hc, if_true]
      split
      next hlt => exact .early hn hx hlt
      next hlt =>
        rw [deferOrRunPendingTask]
        cases hs : t.nestable with
        | true => exact .runs hn hx (Nat.le_of_not_lt hlt) (.inl rfl) hs
        | false => exact .defers hn hx (Nat.le_of_not_lt hlt) (.inl rfl) hs
    · simp only [hc, if_false]
      rw [deferOrRunPendingTask]
      cases hs : t.nestable with
      | true => exact .runs hn hx (Nat.le_of_not_lt hc) (.inr rfl) hs
      | false => exact .defers hn hx (Nat.le_of_not_lt hc) (.inr rfl) hs
  next hno =>
    refine .refused ?_
    cases hn : m.nestableTasksAllowed with
    | false => exact .inl rfl
    | true =>
        cases hx : extract less m.delayedWorkQueue with
        | none => exact .inr (extract_eq_none.mp hx)
        | some p => exact absurd hx (hno p.1 p.2 hn)

theorem doIdleWork_works (m : Loop) : IdleWorks m (doIdleWork m) := by
  rw [doIdleWork]
  split
  next h => exact .idle h
  next t rest h => exact .runs h

end Ashe.LoopCalls
