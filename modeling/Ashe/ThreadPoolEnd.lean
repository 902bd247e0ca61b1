import Ashe.RunLengths
import Ashe.ThreadPoolTasks

namespace Ashe.ThreadPoolEnd

open Crowd RunLengths Runs ThreadPool ThreadPoolTasks

def arriving (s : State) : Nat := s.workers.countP (· = .locking)

/-- A worker sleeps only while each queued task has a worker on its way to the queue or
a notification to come. -/
def Conserving (s : State) : Prop :=
  .waiting ∈ s.workers → s.tasks.length ≤ s.notifying + arriving s

structure Ending (s : State) : Prop where
  begun : s.stop = true ↔ s.owner ≠ .alive
  drained : .returned ∈ s.workers → s.stop = true ∧ s.tasks = []
  roused : ∀ i, s.owner = .joining i → .waiting ∉ s.workers
  joined : ∀ i, s.owner = .joining i → ∀ j < i, s.workers[j]? = some .returned
  finished : s.owner = .destroyed → ∀ w ∈ s.workers, w = .returned

theorem arriving_goto {s : State} {i : Nat} {w : Worker} (hw : s.workers[i]? = some w)
    (w' : Worker) :
    arriving (s.goto i w') + (if w = .locking then 1 else 0) =
      arriving s + if w' = .locking then 1 else 0 := by
  simpa [arriving, State.goto] using countP_set hw w' (· = .locking)

/-- A worker other than the waiting ones moves, and whoever waits then waited before. -/
theorem waiting_of_goto {s : State} {i : Nat} {w : Worker} (hne : w ≠ .waiting)
    (h : .waiting ∈ (s.goto i w).workers) : .waiting ∈ s.workers := by
  cases List.mem_or_eq_of_mem_set h with
  | inl h => exact h
  | inr h => exact absurd h.symm hne

theorem conserving_moves {s s' : State} {l : Label} (h : Conserving s) (hm : Moves s l s') :
    Conserving s' := by
  intro hin
  cases hm with
  | accept =>
      have hle := h hin
      simp only [State.record, List.length_append, List.length_singleton, arriving] at hle ⊢
      omega
  | refuse =>
      have hle := h hin
      simp only [State.record, arriving] at hle ⊢
      omega
  | @notified i hn hw =>
      have hle := h (List.mem_of_getElem? hw)
      have hcount := arriving_goto hw .locking
      simp only [reduceCtorEq, if_false, if_true, arriving, State.goto] at hle hcount ⊢
      omega
  | unheard hn hw => exact absurd hin hw
  | @wait i hw ht hs =>
      simp [State.goto, ht]
  | @leave i hw ht hs => simp [State.goto, ht]
  | @take i task tasks hw ht =>
      have hle := h (waiting_of_goto (i := i) (by simp) hin)
      have hcount := arriving_goto hw (.popped task)
      rw [ht] at hle
      simp only [reduceCtorEq, if_false, if_true, arriving, State.goto, State.record,
        List.length_cons] at hle hcount ⊢
      omega
  | @start i task hw =>
      have hle := h (waiting_of_goto (i := i) (by simp) hin)
      have hcount := arriving_goto hw (.running task)
      simp only [reduceCtorEq, if_false, arriving, State.goto, State.record] at hle hcount ⊢
      omega
  | @done i task hw =>
      have hle := h (waiting_of_goto (i := i) (by simp) hin)
      have hcount := arriving_goto hw .locking
      simp only [reduceCtorEq, if_false, if_true, arriving, State.goto, State.record]
        at hle hcount ⊢
      omega
  | @wake i hw =>
      have hle := h (List.mem_of_getElem? hw)
      have hcount := arriving_goto hw .locking
      simp only [reduceCtorEq, if_false, if_true, arriving, State.goto] at hle hcount ⊢
      omega
  | stop => exact h hin
  | wakeAll =>
      obtain ⟨w, -, hw⟩ := List.mem_map.mp hin
      cases w <;> cases hw
  | join => exact h hin
  | destroy => exact h hin

theorem initial_conserving (threads : Nat) : Conserving (threadPool threads) :=
  fun _ => Nat.zero_le _

/-- No wake-up is lost: in every reachable state in which some worker sleeps, at least as
many workers are on their way to the queue or notifications to come as there are tasks. -/
theorem work_conserving (threads : Nat) {s : State} (h : Reachable step (threadPool threads) s)
    (hsleep : .waiting ∈ s.workers) : s.tasks.length ≤ s.notifying + arriving s :=
  h.invariant (fun _ _ _ hs ht => conserving_moves hs (step_moves ht))
    (initial_conserving threads) hsleep

/-- Both workers sleep, and of two callers one has still to notify. -/
def twoTasks : List Label :=
  [.worker 0, .worker 1, .enqueue, .enqueue, .notify (some 1)]

theorem work_conserving_twoTasks :
    ∃ s, exec step (threadPool 2) twoTasks = some s ∧ .waiting ∈ s.workers ∧
      s.tasks.length ≤ s.notifying + arriving s :=
  ⟨_, rfl, by decide, work_conserving 2 (s := (exec step (threadPool 2) twoTasks).get rfl)
    ⟨twoTasks, rfl⟩ (by decide)⟩

theorem initial_ending (threads : Nat) : Ending (threadPool threads) := by
  refine ⟨by simp [threadPool], fun hin => ?_, nofun, nofun, nofun⟩
  have heq := List.eq_of_mem_replicate hin
  cases heq

theorem Ending.goto {s : State} {i : Nat} {w : Worker} (h : Ending s)
    (hw : s.workers[i]? = some w) (w' : Worker) (hne : w ≠ .returned) (hne' : w' ≠ .returned)
    (hwait : w' = .waiting → s.stop = false) : Ending (s.goto i w') := by
  refine ⟨h.begun, fun hin => ?_, fun k ho => ?_, fun k ho j hj => ?_, fun ho => ?_⟩
  · cases List.mem_or_eq_of_mem_set hin with
    | inl hin => exact h.drained hin
    | inr heq => exact absurd heq.symm hne'
  · intro hin
    have ho : s.owner = .joining k := ho
    cases List.mem_or_eq_of_mem_set hin with
    | inl hin => exact h.roused k ho hin
    | inr heq =>
        have hstop := h.begun.mpr (by rw [ho]; nofun)
        rw [hwait heq.symm] at hstop
        cases hstop
  · have hj := h.joined k ho j hj
    have hij : i ≠ j := fun heq => hne (Option.some.inj ((heq ▸ hw).symm.trans hj))
    simpa [State.goto, List.getElem?_set_ne hij] using hj
  · exact absurd (h.finished ho w (List.mem_of_getElem? hw)) hne

theorem ending_leave {s : State} {i : Nat} (h : Ending s) (hw : s.workers[i]? = some .locking)
    (ht : s.tasks = []) (hs : s.stop = true) : Ending (s.goto i .returned) := by
  refine ⟨h.begun, fun _ => ⟨hs, ht⟩, fun k ho hin => ?_, fun k ho j hj => ?_, fun ho => ?_⟩
  · exact h.roused k ho (waiting_of_goto (by simp) hin)
  · have hj := h.joined k ho j hj
    have hij : i ≠ j := fun heq => by
      have heq := Option.some.inj ((heq ▸ hw).symm.trans hj)
      cases heq
    simpa [State.goto, List.getElem?_set_ne hij] using hj
  · have heq := h.finished ho _ (List.mem_of_getElem? hw)
    cases heq

theorem ending_moves {s s' : State} {l : Label} (h : Ending s) (hm : Moves s l s') :
    Ending s' := by
  cases hm with
  | accept ho hs =>
      refine ⟨h.begun, fun hin => ?_, h.roused, h.joined, h.finished⟩
      rw [(h.drained hin).1] at hs
      cases hs
  | refuse | unheard => exact ⟨h.begun, h.drained, h.roused, h.joined, h.finished⟩
  | notified hn hw =>
      have hmoved := h.goto hw .locking (by simp) (by simp) (by simp)
      exact ⟨hmoved.begun, hmoved.drained, hmoved.roused, hmoved.joined, hmoved.finished⟩
  | wait hw ht hs => exact h.goto hw _ (by simp) (by simp) (fun _ => hs)
  | leave hw ht hs => exact ending_leave h hw ht hs
  | take hw ht =>
      rename_i i task tasks
      have hmoved := h.goto hw (.popped task) (by simp) (by simp) (by simp)
      refine ⟨hmoved.begun, fun hin => ?_, hmoved.roused, hmoved.joined, hmoved.finished⟩
      have hempty := (hmoved.drained hin).2
      simp [State.goto, ht] at hempty
  | start hw =>
      rename_i i task
      have hmoved := h.goto hw (.running task) (by simp) (by simp) (by simp)
      exact ⟨hmoved.begun, hmoved.drained, hmoved.roused, hmoved.joined, hmoved.finished⟩
  | done hw =>
      have hmoved := h.goto hw .locking (by simp) (by simp) (by simp)
      exact ⟨hmoved.begun, hmoved.drained, hmoved.roused, hmoved.joined, hmoved.finished⟩
  | wake hw => exact h.goto hw _ (by simp) (by simp) (by simp)
  | stop ho =>
      exact ⟨by simp, fun hin => ⟨rfl, (h.drained hin).2⟩, by simp, by simp, by simp⟩
  | wakeAll ho =>
      have hstop := h.begun.mpr (by rw [ho]; simp)
      refine ⟨by simpa [notifyAll] using hstop, fun hin => ?_, fun k hk hin => ?_, fun k hk => ?_,
        by simp⟩
      · obtain ⟨w, hw, heq⟩ := List.mem_map.mp hin
        cases w with
        | returned => exact h.drained hw
        | locking | waiting | popped | running => cases heq
      · obtain ⟨w, -, heq⟩ := List.mem_map.mp hin
        cases w <;> cases heq
      · obtain rfl := Owner.joining.inj hk
        exact fun j hj => absurd hj (Nat.not_lt_zero j)
  | join ho hw =>
      have hstop := h.begun.mpr (by rw [ho]; simp)
      refine ⟨by simpa using hstop, h.drained, fun _ _ => h.roused _ ho, fun k hk j hj => ?_,
        by simp⟩
      obtain rfl := Owner.joining.inj hk
      rcases Nat.lt_succ_iff_lt_or_eq.mp hj with hj | rfl
      · exact h.joined _ ho j hj
      · exact hw
  | destroy ho hw =>
      have hstop := h.begun.mpr (by rw [ho]; simp)
      refine ⟨by simpa using hstop, h.drained, by simp, by simp, fun _ w hin => ?_⟩
      obtain ⟨j, hj⟩ := List.getElem?_of_mem hin
      have hlt : j < s.workers.length := (List.getElem?_eq_some_iff.mp hj).1
      have hle := List.getElem?_eq_none_iff.mp hw
      exact Option.some.inj (hj.symm.trans (h.joined _ ho j (Nat.lt_of_lt_of_le hlt hle)))

theorem length_moves {s s' : State} {l : Label} (hm : Moves s l s') :
    s'.workers.length = s.workers.length := by
  cases hm <;> simp [State.record, State.goto, notifyAll]

theorem hands_returned {s : State} (h : ∀ w ∈ s.workers, w = .returned) : hands s = [] :=
  List.flatMap_eq_nil_iff.mpr fun w hw => by rw [h w hw]; rfl

theorem reachable_ending {threads : Nat} {s : State} (h : Reachable step (threadPool threads) s) :
    Ending s ∧ s.workers.length = threads := by
  have hstep : ∀ s l t, Ending s ∧ s.workers.length = threads → step s l = some t →
      Ending t ∧ t.workers.length = threads := fun s l t hs ht =>
    ⟨ending_moves hs.1 (step_moves ht), (length_moves (step_moves ht)).trans hs.2⟩
  exact h.invariant hstep ⟨initial_ending threads, by simp [threadPool]⟩

theorem taken_threadless {s s' : State} {l : Label} (h : s.workers = [] ∧ takenTasks s.log = [])
    (hm : Moves s l s') : s'.workers = [] ∧ takenTasks s'.log = [] := by
  obtain ⟨hworkers, htaken⟩ := h
  cases hm with
  | accept | refuse => exact ⟨hworkers, by simpa [State.record, takenTask] using htaken⟩
  | unheard | stop | join | destroy => exact ⟨hworkers, htaken⟩
  | wakeAll => exact ⟨by simp [notifyAll, hworkers], htaken⟩
  | notified _ hw | wait hw | leave hw | take hw | start hw | done hw | wake hw =>
      simp [hworkers] at hw

/-- When the destructor is through, every worker has returned, and unless the pool has no
threads each task that was accepted has ended; without threads none was ever taken. -/
theorem destructor_drains (threads : Nat) {s : State}
    (h : Reachable step (threadPool threads) s) (ho : s.owner = .destroyed) :
    (∀ w ∈ s.workers, w = .returned) ∧
      (threads ≠ 0 → (acceptedTasks s.log).Perm (endedTasks s.log)) ∧
        (threads = 0 → takenTasks s.log = []) := by
  obtain ⟨hend, hlength⟩ := reachable_ending h
  have hreturned := hend.finished ho
  refine ⟨hreturned, fun hne => ?_, fun hzero => ?_⟩
  · have hpos : 0 < s.workers.length := by omega
    have hfirst : .returned ∈ s.workers :=
      hreturned _ (List.getElem_mem hpos) ▸ List.getElem_mem hpos
    have hplaces := (reachable_conserved h).places
    rwa [hands_returned hreturned, (hend.drained hfirst).2, List.append_nil, List.append_nil]
      at hplaces
  · have hnone := h.invariant (fun _ _ _ hs ht => taken_threadless hs (step_moves ht))
      (I := fun s => s.workers = [] ∧ takenTasks s.log = [])
    exact (hnone ⟨by simp [threadPool, hzero], rfl⟩).2

def wholeLife : List Label :=
  [.worker 0, .enqueue, .owner, .owner, .worker 0, .worker 0, .notify none, .worker 0, .worker 0,
    .owner, .owner]

theorem destructor_drains_wholeLife :
    ∃ s, exec step (threadPool 1) wholeLife = some s ∧ s.owner = .destroyed ∧
      (acceptedTasks s.log).Perm (endedTasks s.log) :=
  ⟨_, rfl, rfl, (destructor_drains 1 (s := (exec step (threadPool 1) wholeLife).get rfl)
    ⟨wholeLife, rfl⟩ rfl).2.1 (by decide)⟩

/-- What is left to do once stop is set. A queued task costs more than its way through a
worker. -/
def weight : Worker → Nat
  | .locking => 1
  | .waiting => 2
  | .popped _ => 3
  | .running _ => 2
  | .returned => 0

def ownerRank (s : State) : Nat :=
  match s.owner with
  | .alive => s.workers.length + 3
  | .stopped => s.workers.length + 2
  | .joining i => s.workers.length - i + 1
  | .destroyed => 0

def rank (s : State) : Nat :=
  3 * s.tasks.length + (s.workers.map weight).sum + s.notifying + ownerRank s

theorem weight_goto {s : State} {i : Nat} {w : Worker} (hw : s.workers[i]? = some w)
    (w' : Worker) :
    ((s.goto i w').workers.map weight).sum + weight w = (s.workers.map weight).sum + weight w' :=
  sum_set hw w' weight

theorem weight_woken (workers : List Worker) :
    ((workers.map woken).map weight).sum ≤ (workers.map weight).sum := by
  induction workers with
  | nil => exact Nat.le_refl _
  | cons w workers ih =>
      have hw : weight (woken w) ≤ weight w := by
        cases w with
        | waiting => decide
        | locking | popped | running | returned => exact Nat.le_refl _
      simpa using Nat.add_le_add hw ih

@[simp] theorem ownerRank_goto (s : State) (i : Nat) (w : Worker) :
    ownerRank (s.goto i w) = ownerRank s := by
  simp [ownerRank, State.goto]

@[simp] theorem ownerRank_record (s : State) (e : Event) : ownerRank (s.record e) = ownerRank s :=
  rfl

def Begun (s : State) : Prop := Ending s ∧ s.owner ≠ .alive

theorem begun_moves {s s' : State} {l : Label} (h : Begun s) (hm : Moves s l s') : Begun s' := by
  refine ⟨ending_moves h.1 hm, ?_⟩
  cases hm with
  | stop | wakeAll | join | destroy => nofun
  | accept | refuse | notified | unheard | wait | leave | take | start | done | wake => exact h.2

/-- Each step but a call of enqueue brings the destructor closer to its end. -/
theorem rank_moves {s s' : State} {l : Label} (h : Begun s) (hl : l ≠ .enqueue)
    (hm : Moves s l s') : rank s' < rank s := by
  cases hm with
  | accept | refuse => exact absurd rfl hl
  | notified hn hw =>
      have hweight := weight_goto hw .locking
      simp only [rank, weight, State.goto, ownerRank, List.length_set] at hweight ⊢
      omega
  | unheard hn =>
      simp only [rank, ownerRank]
      omega
  | wait hw ht hs =>
      rw [h.1.begun.mpr h.2] at hs
      cases hs
  | leave hw =>
      have hweight := weight_goto hw .returned
      simp only [rank, weight, State.goto, ownerRank, List.length_set] at hweight ⊢
      omega
  | @take i task tasks hw ht =>
      have hweight := weight_goto hw (.popped task)
      simp only [rank, weight, State.goto, State.record, ownerRank, List.length_set, ht,
        List.length_cons] at hweight ⊢
      omega
  | @start i task hw =>
      have hweight := weight_goto hw (.running task)
      simp only [rank, weight, State.goto, State.record, ownerRank, List.length_set] at hweight ⊢
      omega
  | done hw =>
      have hweight := weight_goto hw .locking
      simp only [rank, weight, State.goto, State.record, ownerRank, List.length_set] at hweight ⊢
      omega
  | wake hw =>
      have hweight := weight_goto hw .locking
      simp only [rank, weight, State.goto, ownerRank, List.length_set] at hweight ⊢
      omega
  | stop ho => exact absurd ho h.2
  | wakeAll ho =>
      have hwoken := weight_woken s.workers
      simp only [rank, notifyAll, ownerRank, ho, List.length_map]
      omega
  | join ho hw =>
      have hlt := (List.getElem?_eq_some_iff.mp hw).1
      simp only [rank, ownerRank, ho]
      omega
  | destroy ho hw =>
      simp only [rank, ownerRank, ho]
      omega

/-- Nothing is left to happen by itself: no notification, no step of a worker or of the
owner. -/
def Settled (s : State) : Prop :=
  (∀ woken, step s (.notify woken) = none) ∧ (∀ i, step s (.worker i) = none) ∧
    step s .owner = none

/-- The destructor is never stuck: it waits for no worker that could not go on. -/
theorem destroyed_of_settled {s : State} (h : Begun s) (hs : Settled s) : s.owner = .destroyed := by
  obtain ⟨-, hworker, howner⟩ := hs
  cases ho : s.owner with
  | alive => exact absurd ho h.2
  | stopped => simp [step, destruct, ho] at howner
  | destroyed => rfl
  | joining i =>
      have hworker := hworker i
      cases hw : s.workers[i]? with
      | none => simp [step, destruct, ho, hw] at howner
      | some w =>
          cases w with
          | waiting => exact absurd (List.mem_of_getElem? hw) (h.1.roused i ho)
          | returned => simp [step, destruct, ho, hw] at howner
          | locking => simp [step, workerNext, hw] at hworker
          | popped task => simp [step, workerNext, hw] at hworker
          | running task => simp [step, workerNext, hw] at hworker

theorem settled_of_none {s : State} (h : ∀ l, l ≠ .enqueue → step s l = none) : Settled s :=
  ⟨fun _ => h _ nofun, fun _ => h _ nofun, h _ nofun⟩

/-- The destructor ends. From every reachable state in which it has set stop, each
schedule of notifications, wake-ups and steps of the workers and the owner is bounded, can
be gone on with until the destructor is through, and has it through where it cannot be
gone on with, also without spurious wake-ups. -/
theorem destructor_ends (threads : Nat) {s s' : State} {ls : List Label}
    (h : Reachable step (threadPool threads) s) (hbegun : s.owner ≠ .alive)
    (hls : .enqueue ∉ ls) (hrun : exec step s ls = some s') :
    ls.length ≤ rank s ∧ (Settled s' → s'.owner = .destroyed) ∧
      ∃ more t, .enqueue ∉ more ∧ exec step s' more = some t ∧ t.owner = .destroyed := by
  have hs : Begun s := ⟨(reachable_ending h).1, hbegun⟩
  have hkeep : ∀ s l t, Begun s → l ≠ .enqueue → step s l = some t → Begun t :=
    fun s l t hs _ ht => begun_moves hs (step_moves ht)
  have hless : ∀ s l t, Begun s → l ≠ .enqueue → step s l = some t → rank t < rank s :=
    fun s l t hs hl ht => rank_moves hs hl (step_moves ht)
  have hguard : ∀ l ∈ ls, l ≠ .enqueue := fun l hl heq => hls (heq ▸ hl)
  have hlength := length_le_of_decreasing hkeep hless hs hguard hrun
  have hs' : Begun s' := exec_of_invariant (G := fun _ _ _ => True)
    (fun s l t hs _ ht => begun_moves hs (step_moves ht)) hs along_true hrun
  obtain ⟨more, t, hmore, ht, hsettled⟩ := exists_settled hkeep hless hs'
  have hbegunt : Begun t := exec_of_invariant (G := fun _ _ _ => True)
    (fun s l t hs _ ht => begun_moves hs (step_moves ht)) hs' along_true ht
  exact ⟨Nat.le_trans (Nat.le_add_right _ _) hlength, destroyed_of_settled hs', more, t,
    fun hin => hmore _ hin rfl, ht, destroyed_of_settled hbegunt (settled_of_none hsettled)⟩

def leftQueued : List Label := [.worker 0, .enqueue, .owner]

theorem destructor_ends_leftQueued :
    ∃ s, exec step (threadPool 1) leftQueued = some s ∧ s.tasks = [0] ∧
      ∃ more t, .enqueue ∉ more ∧ exec step s more = some t ∧ t.owner = .destroyed :=
  ⟨_, rfl, rfl, (destructor_ends 1 (s := (exec step (threadPool 1) leftQueued).get rfl)
    ⟨leftQueued, rfl⟩ (by decide) List.not_mem_nil rfl).2.2⟩

end Ashe.ThreadPoolEnd
