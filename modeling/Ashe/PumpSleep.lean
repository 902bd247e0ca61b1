import Mathlib.Order.Bounds.Basic
import Ashe.PumpNesting

namespace Ashe.PumpSleep

open PriorityQueue Tasks MessageLoop LoopCalls LoopSteps LoopDrivers MessagePumpDefault PumpSteps
open PumpNesting Runs

def Flat (s : Pump) : Prop := InTurn (view s) ∧ s.stack.length ≤ 1

theorem Flat.idleInTurn {s : Pump} (h : Flat s) (l : Choice) : IdleInTurn (view s) (call s l) := by
  intro _ hdepth
  rw [runDepth_view] at hdepth
  exact absurd (hdepth.trans h.2) (by omega)

theorem Flat.rest {s : Pump} (h : Flat s) {pc : Pc} {rest : List Pc} (hs : s.stack = pc :: rest) :
    rest = [] := by
  have hl := h.2
  rw [hs, List.length_cons] at hl
  exact List.length_eq_zero_iff.mp (by omega)

theorem Flat.between {s : Pump} (h : Flat s) {pc : Pc} {rest : List Pc} (hs : s.stack = pc :: rest)
    (hpc : ∀ e, pc ≠ .inTask e) :
    s.tasks.loop.nestableTasksAllowed = true ∧ s.tasks.active = [] := by
  have hturn := h.1
  rw [InTurn, view, hs, frames_run hpc, h.rest hs] at hturn
  exact hturn.outermost List.not_mem_nil

theorem Flat.finish {s : Pump} (h : Flat s) {e : Executor} {rest : List Pc} {t : PendingTask}
    {ts : List PendingTask} (hs : s.stack = .inTask e :: rest) (ht : s.tasks.active = t :: ts) :
    rest = [] ∧ ts = [] := by
  have hturn := h.1
  rw [InTurn, view, hs, ht] at hturn
  exact ⟨h.rest hs, hturn.ends.of_allowed.1⟩

theorem woken_length (stack : List Pc) : (woken stack).length = stack.length := by
  rw [woken.eq_def]; split <;> rfl

theorem moves_flat {s s' : Pump} {l : Choice} (h : Flat s) (hl : l ≠ .nestedRun)
    (hm : Moves s l s') : Flat s' := by
  refine ⟨(drives_inTurn h.1 (h.idleInTurn l) (moves_drives hm)).1, ?_⟩
  cases hm with
  | tick | post | postQuit | signal | quit => exact h.2
  | notify | wake =>
      rw [woken_length]
      exact h.2
  | run => exact Nat.le_refl 1
  | nestedRun => exact absurd rfl hl
  | @finish e rest t ts hs ht =>
      rcases finish_stack s e rest t ts with he | he
      · rw [he, h.rest hs]; exact Nat.le_refl 1
      · rw [he, h.rest hs]; exact Nat.zero_le 1
  | @call e rest hs =>
      have hc := callStep_stack s e rest
      rw [h.rest hs] at hc ⊢
      generalize (callStep s e []).stack = stack at hc
      cases hc with
      | stops => exact Nat.zero_le 1
      | runs | again | returns => exact Nat.le_refl 1
  | choosePlain hs | chooseTimed hs | choosePast hs | enterWait hs | leave hs | timeout hs =>
      rw [h.rest hs]
      exact Nat.le_refl 1

theorem idlePump_flat (now : TimePoint) : Flat (idlePump now) :=
  ⟨.free List.not_mem_nil, Nat.zero_le 1⟩

/-- The wake-up time is null for an empty delayed queue, and otherwise the
earliest time in it. -/
def WakesForEarliest (wakeUp : TimePoint) (q : List PendingTask) : Prop :=
  (wakeUp = 0 ↔ q = []) ∧
    (q ≠ [] → IsLeast { time | ∃ t ∈ q, t.delayedRunTime = time } wakeUp)

/-- What the queues and the wake-up time have come to at each pc. -/
def Settled (m : Loop) (wakeUp : TimePoint) : Pc → Prop
  | .call .doWork | .call (.doDelayedWork true) | .inTask _ => True
  | .call (.doDelayedWork false) => m.workQueue = []
  | .call .doIdleWork => m.workQueue = [] ∧
      (m.deferredNonNestableWorkQueue = [] → WakesForEarliest wakeUp m.delayedWorkQueue)
  | _ => m.workQueue = [] ∧ m.deferredNonNestableWorkQueue = [] ∧
      WakesForEarliest wakeUp m.delayedWorkQueue

def SettledPump (s : Pump) : Prop := ∀ pc ∈ s.stack, Settled s.tasks.loop s.delayedWorkTime pc

theorem extract_wakesForEarliest {q rest : List PendingTask} {t : PendingTask}
    (hx : extract less q = some (t, rest)) (ht : t.delayedRunTime ≠ 0) :
    WakesForEarliest t.delayedRunTime q := by
  have hp := extract_perm hx
  refine ⟨⟨fun h => absurd h ht, ?_⟩, fun _ => ⟨⟨t, hp.symm.subset List.mem_cons_self, rfl⟩, ?_⟩⟩
  · rintro rfl
    exact absurd hx (by simp [extract])
  · rintro time ⟨u, hu, rfl⟩
    rcases List.mem_cons.mp (hp.subset hu) with rfl | hu
    · exact le_rfl
    · exact extract_key_le (less_run_time _) hx u hu

/-- A delegate call that returns false settles what the next pc counts on. -/
theorem delegateCall_settled {m : Loop} {now wakeUp : TimePoint} {e : Executor} {didWork : Bool}
    (h : Settled m wakeUp (.call e)) (hn : m.nestableTasksAllowed = true)
    (ho : (delegateCall m now e).outcome = .returns didWork) :
    Settled (delegateCall m now e).loop ((delegateCall m now e).wakeUp.getD wakeUp)
      (following e didWork) := by
  cases e with
  | doWork =>
      have hw := doWork_works m
      simp only [delegateCall] at ho ⊢
      generalize doWork m = c at hw ho ⊢
      cases hw with
      | refused hf => exact absurd (hf.symm.trans hn) (by simp)
      | drained hn' hwork =>
          cases ho
          exact hwork
      | again | runs => cases ho
  | doDelayedWork before =>
      have hw := doDelayedWork_works m now
      simp only [delegateCall] at ho ⊢
      generalize doDelayedWork m now = c at hw ho ⊢
      cases before with
      | true => trivial
      | false =>
          cases hw with
          | refused hf =>
              cases ho
              refine ⟨h, fun _ => ?_⟩
              have hq : m.delayedWorkQueue = [] :=
                hf.resolve_left (fun hf => absurd (hf.symm.trans hn) (by simp))
              exact ⟨iff_of_true rfl hq, fun hne => absurd hq hne⟩
          | early hn' hx ht =>
              cases ho
              exact ⟨h, fun _ => extract_wakesForEarliest hx (Nat.ne_zero_of_lt ht)⟩
          | defers =>
              cases ho
              exact ⟨h, fun hd => absurd hd (by simp)⟩
          | runs => cases ho
  | doIdleWork =>
      have hw := doIdleWork_works m
      simp only [delegateCall] at ho ⊢
      generalize doIdleWork m = c at hw ho ⊢
      cases hw with
      | idle hd =>
          cases ho
          exact ⟨h.1, hd, h.2 hd⟩
      | runs => cases ho

theorem callStep_wakeUp (s : Pump) (e : Executor) (rest : List Pc) :
    (callStep s e rest).delayedWorkTime =
      (delegateCall s.tasks.loop s.tasks.now e).wakeUp.getD s.delayedWorkTime := by
  rw [callStep]
  dsimp only
  split
  next => rfl
  next => rfl
  next => rw [resume]; split <;> rfl

theorem callStep_settled {s : Pump} {e : Executor} (hf : Flat s) (h : SettledPump s)
    (hs : s.stack = [.call e]) : SettledPump (callStep s e []) := by
  have hc := callStep_stack s e []
  have hn := (hf.between hs (by simp)).1
  have hold : Settled s.tasks.loop s.delayedWorkTime (.call e) := h _ (by rw [hs]; simp)
  rw [SettledPump, callStep_wakeUp, callStep_tasks, take_loop]
  generalize (callStep s e []).stack = stack at hc ⊢
  cases hc with
  | stops => simp
  | runs => simp [Settled]
  | again ho =>
      rw [delegateCall_again ho]
      simp [Settled]
  | returns ho =>
      intro pc hpc
      rw [List.mem_singleton.mp hpc]
      exact delegateCall_settled hold hn ho

theorem SettledPump.single {s s' : Pump} {pc pc' : Pc} {rest : List Pc} (h : SettledPump s)
    (hf : Flat s) (hs : s.stack = pc :: rest) (hs' : s'.stack = pc' :: rest)
    (hpc : Settled s.tasks.loop s.delayedWorkTime pc →
      Settled s'.tasks.loop s'.delayedWorkTime pc') : SettledPump s' := by
  intro p hp
  rw [hs', hf.rest hs, List.mem_singleton] at hp
  rw [hp]
  exact hpc (h pc (by rw [hs]; simp))

theorem woken_settled {m : Loop} {wakeUp : TimePoint} {stack : List Pc}
    (h : ∀ pc ∈ stack, Settled m wakeUp pc) : ∀ pc ∈ woken stack, Settled m wakeUp pc := by
  rw [woken.eq_def]
  split
  next rest =>
    intro pc hp
    rcases List.mem_cons.mp hp with rfl | hp
    · exact h .waiting List.mem_cons_self
    · exact h pc (List.mem_cons_of_mem _ hp)
  next rest =>
    intro pc hp
    rcases List.mem_cons.mp hp with rfl | hp
    · exact h .timedWaiting List.mem_cons_self
    · exact h pc (List.mem_cons_of_mem _ hp)
  next => exact h

theorem moves_settled {s s' : Pump} {l : Choice} (hf : Flat s) (h : SettledPump s)
    (hl : l ≠ .nestedRun) (hm : Moves s l s') : SettledPump s' := by
  cases hm with
  | tick | post | postQuit | signal | quit => exact h
  | notify | wake => exact woken_settled h
  | run => simp [SettledPump, Settled]
  | nestedRun => exact absurd rfl hl
  | @finish e rest t ts hs ht =>
      rcases finish_stack s e rest t ts with he | he
      · refine h.single hf hs he (fun _ => ?_)
        cases e <;> simp [following, Settled]
      · rw [SettledPump, he, hf.rest hs]
        simp
  | call hs =>
      have hr := hf.rest hs
      subst hr
      exact callStep_settled hf h hs
  | choosePlain hs | chooseTimed hs => exact h.single hf hs rfl id
  | choosePast hs | leave hs | timeout hs => exact h.single hf hs rfl (fun _ => trivial)
  | enterWait hs hw =>
      refine h.single hf hs rfl (fun hold => ?_)
      cases hw <;> exact hold

/-- In every run in which no task calls run, the pump goes to sleep with
nothing loaded and nothing deferred, and with its wake-up time right. -/
theorem waits_for_earliest (now : TimePoint) (ls : List Choice) (hls : .nestedRun ∉ ls) :
    Along pumpStep (fun _ l s' => StartsWait l s' →
      s'.tasks.loop.workQueue = [] ∧ s'.tasks.loop.deferredNonNestableWorkQueue = [] ∧
      WakesForEarliest s'.delayedWorkTime s'.tasks.loop.delayedWorkQueue) (idlePump now) ls := by
  have hguard : Along pumpStep (fun _ l _ => l ≠ .nestedRun) (idlePump now) ls :=
    along_of_labels (fun l hl he => hls (he ▸ hl))
  refine along_of_invariant (I := fun s => Flat s ∧ SettledPump s) ?_
    ⟨idlePump_flat now, by simp [SettledPump, idlePump]⟩ hguard
  rintro s l s' ⟨hf, h⟩ hl hs
  have hm := step_moves hs
  have h' := moves_settled hf h hl hm
  refine ⟨⟨moves_flat hf hl hm, h'⟩, ?_⟩
  rintro ⟨-, hw⟩
  rcases hw with hw | hw
  · exact h' .waiting (List.mem_of_head? hw)
  · exact h' .timedWaiting (List.mem_of_head? hw)

/-- A delayed non-nestable task and a later delayed one: the first is deferred
and run by doIdleWork, and the pump then waits for the second. -/
def deferredThenTimed : List Choice :=
  [.post 0 1 false, .post 1 9 true, .run, .advance, .advance, .tick 1000000, .advance, .advance,
    .finish, .advance, .advance, .advance, .advance, .advance]

theorem waits_for_earliest_timed :
    Along pumpStep (fun _ l s' => StartsWait l s' →
      s'.tasks.loop.workQueue = [] ∧ s'.tasks.loop.deferredNonNestableWorkQueue = [] ∧
      WakesForEarliest s'.delayedWorkTime s'.tasks.loop.delayedWorkQueue) (idlePump 1)
      deferredThenTimed ∧
    ((exec pumpStep (idlePump 1) deferredThenTimed).map
      (fun s => (s.stack, s.delayedWorkTime))) = some ([.timedWaiting], 9000001) :=
  ⟨waits_for_earliest 1 deferredThenTimed (by decide), by decide +kernel⟩

end Ashe.PumpSleep
