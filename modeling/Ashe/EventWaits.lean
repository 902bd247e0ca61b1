import Ashe.Event

namespace Ashe.EventWaits

open Crowd Event Runs

variable {s s' : State} {l : Label}

inductive Moves (s : State) : Label → State → Prop
  | wait {i : Nat} (timed : Bool) (hf : s.free i = true) :
      Moves s (.wait i timed) (s.goto i (.testing timed))
  | set {i : Nat} (hf : s.free i = true) :
      Moves s (.set i) { s.goto i .notifying with isSet := true }
  | unset {i : Nat} (hf : s.free i = true) :
      Moves s (.unset i) { s.goto i .notifying with isSet := false }
  | pass {i : Nat} {timed : Bool} (ht : s.threads[i]? = some (.testing timed))
      (hs : s.isSet = true) : Moves s (.run i) (s.goto i (.returned timed true))
  | sleep {i : Nat} {timed : Bool} (ht : s.threads[i]? = some (.testing timed))
      (hs : s.isSet = false) : Moves s (.run i) (s.goto i (.asleep timed))
  | giveUp {i : Nat} (ht : s.threads[i]? = some .expired) :
      Moves s (.run i) (s.goto i (.returned true s.isSet))
  | notifyAll {i : Nat} (ht : s.threads[i]? = some .notifying) :
      Moves s (.run i) { s with threads := (s.threads.map rouse).set i .idle }
  | spurious {i : Nat} {timed : Bool} (ht : s.threads[i]? = some (.asleep timed)) :
      Moves s (.spurious i) (s.goto i (.testing timed))
  | timeout {i : Nat} (ht : s.threads[i]? = some (.asleep true)) :
      Moves s (.timeout i) (s.goto i .expired)

theorem step_moves (h : step s l = some s') : Moves s l s' := by
  cases l with
  | wait i timed =>
      rw [step] at h
      split at h
      next hf => obtain rfl := Option.some.inj h; exact .wait timed hf
      next => cases h
  | set i =>
      rw [step] at h
      split at h
      next hf => obtain rfl := Option.some.inj h; exact .set hf
      next => cases h
  | unset i =>
      rw [step] at h
      split at h
      next hf => obtain rfl := Option.some.inj h; exact .unset hf
      next => cases h
  | run i =>
      rw [step] at h
      split at h
      next timed ht =>
        obtain rfl := Option.some.inj h
        split
        next hs => exact .pass ht hs
        next hs => exact .sleep ht (Bool.eq_false_iff.mpr hs)
      next ht => obtain rfl := Option.some.inj h; exact .giveUp ht
      next ht => obtain rfl := Option.some.inj h; exact .notifyAll ht
      next => cases h
  | spurious i =>
      rw [step] at h
      split at h
      next timed ht => obtain rfl := Option.some.inj h; exact .spurious ht
      next => cases h
  | timeout i =>
      rw [step] at h
      split at h
      next ht => obtain rfl := Option.some.inj h; exact .timeout ht
      next => cases h

theorem free_cases {i : Nat} (h : s.free i = true) :
    ∃ t, s.threads[i]? = some t ∧ (t = .idle ∨ ∃ timed result, t = .returned timed result) := by
  rw [State.free.eq_def] at h
  split at h
  next ht => exact ⟨_, ht, .inl rfl⟩
  next ht => exact ⟨_, ht, .inr ⟨_, _, rfl⟩⟩
  next => cases h

/-- While the flag is set, a thread sleeps only where a notification is to come, and a wait
without a time has given no other result than true. -/
structure Guarded (s : State) : Prop where
  notified : s.isSet = true → ∀ timed, .asleep timed ∈ s.threads → .notifying ∈ s.threads
  untimed : ∀ result, .returned false result ∈ s.threads → result = true

theorem Guarded.goto (h : Guarded s) {i : Nat} {t t' : Thread} (ht : s.threads[i]? = some t)
    (hne : t ≠ .notifying) (hsleep : ∀ timed, t' = .asleep timed → s.isSet = false)
    (hresult : ∀ result, t' = .returned false result → result = true) : Guarded (s.goto i t') := by
  refine ⟨fun hs timed hin => ?_, fun result hin => ?_⟩
  · cases List.mem_or_eq_of_mem_set hin with
    | inl hin => exact mem_set_of_ne ht (h.notified hs timed hin) hne.symm t'
    | inr heq =>
        rw [State.goto, hsleep timed heq.symm] at hs
        cases hs
  · cases List.mem_or_eq_of_mem_set hin with
    | inl hin => exact h.untimed result hin
    | inr heq => exact hresult result heq.symm

theorem Guarded.change (h : Guarded s) {i : Nat} (hf : s.free i = true) (isSet : Bool) :
    Guarded { s.goto i .notifying with isSet := isSet } := by
  obtain ⟨t, ht, -⟩ := free_cases hf
  refine ⟨fun _ _ _ => List.mem_of_getElem? (i := i) ?_, fun result hin => ?_⟩
  · obtain ⟨hi, -⟩ := List.getElem?_eq_some_iff.mp ht
    exact List.getElem?_set_self hi
  · cases List.mem_or_eq_of_mem_set hin with
    | inl hin => exact h.untimed result hin
    | inr heq => cases heq

theorem notifyAll_threads {i : Nat} {t : Thread} (h : t ∈ (s.threads.map rouse).set i .idle) :
    (∀ timed, t ≠ .asleep timed) ∧
      ∀ timed result, t = .returned timed result → t ∈ s.threads := by
  cases List.mem_or_eq_of_mem_set h with
  | inl h =>
      obtain ⟨u, hu, rfl⟩ := List.mem_map.mp h
      cases u <;> refine ⟨nofun, fun timed result heq => ?_⟩ <;> first | exact hu | cases heq
  | inr heq =>
      subst heq
      exact ⟨nofun, nofun⟩

theorem guarded_moves (h : Guarded s) (hm : Moves s l s') : Guarded s' := by
  cases hm with
  | wait timed hf =>
      obtain ⟨t, ht, hfree⟩ := free_cases hf
      refine h.goto ht (fun heq => ?_) nofun nofun
      rcases hfree with rfl | ⟨_, _, rfl⟩ <;> cases heq
  | set hf => exact h.change hf true
  | unset hf => exact h.change hf false
  | pass ht hs =>
      refine h.goto ht nofun nofun fun result heq => ?_
      injection heq with _ hr
      exact hr.symm
  | sleep ht hs => exact h.goto ht nofun (fun _ _ => hs) nofun
  | giveUp ht => exact h.goto ht nofun nofun nofun
  | notifyAll ht =>
      refine ⟨fun _ timed hin => absurd rfl ((notifyAll_threads hin).1 timed), fun result hin => ?_⟩
      exact h.untimed result ((notifyAll_threads hin).2 false result rfl)
  | spurious ht => exact h.goto ht nofun nofun nofun
  | timeout ht => exact h.goto ht nofun nofun nofun

theorem event_guarded (isSet : Bool) (threads : Nat) : Guarded (event isSet threads) := by
  refine ⟨fun _ timed hin => ?_, fun result hin => ?_⟩ <;>
    cases List.eq_of_mem_replicate hin

/-- No wake-up is lost: whenever the flag is set while a thread sleeps in wait, some thread has
yet to notify all. A wait without a time returns true and nothing else. -/
theorem wake_up_pending {isSet : Bool} {threads : Nat}
    (h : Reachable step (event isSet threads) s) :
    (s.isSet = true → ∀ timed, .asleep timed ∈ s.threads → .notifying ∈ s.threads) ∧
      ∀ result, .returned false result ∈ s.threads → result = true := by
  have hs := h.invariant (I := Guarded) (fun _ _ _ hs ht => guarded_moves hs (step_moves ht))
    (event_guarded isSet threads)
  exact ⟨hs.notified, hs.untimed⟩

def setWhileAsleep : List Label :=
  [.wait 0 false, .wait 1 true, .run 0, .run 1, .spurious 0, .run 0, .set 2]

def justSet : State := ⟨true, [.asleep false, .asleep true, .notifying]⟩

theorem justSet_reachable : Reachable step (event false 3) justSet := ⟨setWhileAsleep, rfl⟩

theorem wake_up_pending_justSet : .asleep false ∈ justSet.threads ∧ .notifying ∈ justSet.threads :=
  ⟨by decide, (wake_up_pending justSet_reachable).1 rfl false (by decide)⟩

def own : Label → Bool
  | .run _ | .spurious _ | .timeout _ => true
  | _ => false

def effort : Thread → Nat
  | .asleep _ => 2
  | .testing _ | .expired | .notifying => 1
  | _ => 0

def efforts (s : State) : Nat := (s.threads.map effort).sum

theorem efforts_goto {i : Nat} {t : Thread} (ht : s.threads[i]? = some t) (t' : Thread) :
    efforts (s.goto i t') + effort t = efforts s + effort t' := sum_set ht t' effort

theorem efforts_rouse (ts : List Thread) :
    ((ts.map rouse).map effort).sum ≤ (ts.map effort).sum := by
  induction ts with
  | nil => exact Nat.le_refl _
  | cons t ts ih =>
      have hle : effort (rouse t) ≤ effort t := by cases t <;> simp [rouse, effort]
      simp only [List.map_cons, List.sum_cons]
      omega

theorem rouse_notifying {ts : List Thread} {i : Nat} (h : ts[i]? = some .notifying) :
    (ts.map rouse)[i]? = some .notifying := by
  rw [List.getElem?_map, h]
  rfl

/-- While the event is set, each step brings the threads nearer to their ends. -/
theorem own_efforts (hs : s.isSet = true) (hl : own l = true) (hm : Moves s l s') :
    s'.isSet = true ∧ efforts s' < efforts s := by
  cases hm with
  | wait | set | unset => cases hl
  | @pass i timed ht hset =>
      have hsum := efforts_goto ht (.returned timed true)
      simp only [effort] at hsum
      exact ⟨hs, by omega⟩
  | sleep ht hset =>
      rw [hs] at hset
      cases hset
  | giveUp ht =>
      have hsum := efforts_goto ht (.returned true s.isSet)
      simp only [effort] at hsum
      exact ⟨hs, by omega⟩
  | notifyAll ht =>
      have hsum := sum_set (rouse_notifying ht) .idle effort
      have hle := efforts_rouse s.threads
      simp only [effort] at hsum
      refine ⟨hs, ?_⟩
      rw [efforts, efforts]
      dsimp only
      omega
  | @spurious i timed ht =>
      have hsum := efforts_goto ht (.testing timed)
      simp only [effort] at hsum
      exact ⟨hs, by omega⟩
  | timeout ht =>
      have hsum := efforts_goto ht .expired
      simp only [effort] at hsum
      exact ⟨hs, by omega⟩

inductive Waits (timed : Bool) : Thread → Prop
  | testing : Waits timed (.testing timed)
  | asleep : Waits timed (.asleep timed)
  | expired (h : timed = true) : Waits timed .expired
  | returned : Waits timed (.returned timed true)

theorem Waits.goto {timed : Bool} {i k : Nat} {t t' u : Thread} (hu : s.threads[k]? = some u)
    (hw : Waits timed u) (ht : s.threads[i]? = some t) (h : Waits timed t → Waits timed t') :
    ∃ u', (s.goto i t').threads[k]? = some u' ∧ Waits timed u' := by
  by_cases hik : i = k
  · subst hik
    obtain ⟨hi, -⟩ := List.getElem?_eq_some_iff.mp ht
    obtain rfl := Option.some.inj (ht.symm.trans hu)
    exact ⟨t', List.getElem?_set_self hi, h hw⟩
  · exact ⟨u, by rw [State.goto, List.getElem?_set_ne hik, hu], hw⟩

theorem own_waits (hs : s.isSet = true) (hl : own l = true) (hm : Moves s l s') {timed : Bool}
    {k : Nat} {u : Thread} (hu : s.threads[k]? = some u) (hw : Waits timed u) :
    ∃ u', s'.threads[k]? = some u' ∧ Waits timed u' := by
  cases hm with
  | wait | set | unset => cases hl
  | pass ht => exact hw.goto hu ht fun h => by cases h; exact .returned
  | sleep ht hset =>
      rw [hs] at hset
      cases hset
  | giveUp ht =>
      refine hw.goto hu ht fun h => ?_
      cases h with
      | expired h =>
          rw [hs, h]
          exact .returned
  | @notifyAll i ht =>
      have hik : i ≠ k := by
        intro hik
        subst hik
        obtain rfl := Option.some.inj (ht.symm.trans hu)
        cases hw
      refine ⟨rouse u, ?_, ?_⟩
      · rw [List.getElem?_set_ne hik, List.getElem?_map, hu]
        rfl
      · cases hw with
        | testing | asleep => exact .testing
        | expired h => exact .expired h
        | returned => exact .returned
  | spurious ht => exact hw.goto hu ht fun h => by cases h; exact .testing
  | timeout ht => exact hw.goto hu ht fun h => by cases h; exact .expired rfl

theorem exec_own {t : State} {ls : List Label} (hs : s.isSet = true) (hls : ∀ l ∈ ls, own l = true)
    (h : exec step s ls = some t) :
    t.isSet = true ∧ ls.length + efforts t ≤ efforts s ∧ ∀ (timed : Bool) (k : Nat) (u : Thread),
      s.threads[k]? = some u → Waits timed u → ∃ u', t.threads[k]? = some u' ∧ Waits timed u' := by
  induction ls generalizing s with
  | nil =>
      obtain rfl := Option.some.inj h
      exact ⟨hs, Nat.le_of_eq (Nat.zero_add _), fun timed k u hu hw => ⟨u, hu, hw⟩⟩
  | cons l ls ih =>
      obtain ⟨v, hv, h⟩ := exec_cons.mp h
      have hm := step_moves hv
      have hl := hls l List.mem_cons_self
      obtain ⟨hset, hless⟩ := own_efforts hs hl hm
      obtain ⟨ht, hle, hwaits⟩ := ih hset (fun m hin => hls m (List.mem_cons_of_mem _ hin)) h
      refine ⟨ht, by rw [List.length_cons]; omega, fun timed k u hu hw => ?_⟩
      obtain ⟨u', hu', hw'⟩ := own_waits hs hl hm hu hw
      exact hwaits timed k u' hu' hw'

/-- A set event lets everyone pass. From any reachable state in which the event is set, and as
long as nobody makes a new call, only so many steps are possible; and where none is left, each
thread that was waiting has got true, with a time or without. -/
theorem set_frees_waiters {isSet : Bool} {threads : Nat} {t : State} {ls : List Label}
    (hreach : Reachable step (event isSet threads) s) (hs : s.isSet = true)
    (hls : ∀ l ∈ ls, own l = true) (h : exec step s ls = some t) :
    ls.length ≤ efforts s ∧ ((∀ l, own l = true → step t l = none) →
      ∀ (timed : Bool) (k : Nat) (u : Thread), s.threads[k]? = some u → Waits timed u →
        t.threads[k]? = some (.returned timed true)) := by
  obtain ⟨hset, hle, hwaits⟩ := exec_own hs hls h
  have htreach : Reachable step (event isSet threads) t := by
    obtain ⟨ms, hms⟩ := hreach
    exact ⟨ms ++ ls, exec_append.mpr ⟨s, hms, h⟩⟩
  have hguarded : Guarded t := htreach.invariant
    (fun _ _ _ hs ht => guarded_moves hs (step_moves ht)) (event_guarded isSet threads)
  refine ⟨by omega, fun hstuck timed k u hu hw => ?_⟩
  obtain ⟨u', hu', hw'⟩ := hwaits timed k u hu hw
  have hrun := hstuck (.run k) rfl
  cases hw' with
  | testing => simp [step, hu'] at hrun
  | asleep =>
      have hin := hguarded.notified hset timed (List.mem_of_getElem? hu')
      obtain ⟨i, hi⟩ := List.mem_iff_getElem?.mp hin
      have hrun := hstuck (.run i) rfl
      simp [step, hi] at hrun
  | expired => simp [step, hu'] at hrun
  | returned => exact hu'

def rest : List Label := [.timeout 1, .run 2, .run 1, .run 0]

theorem set_frees_waiters_rest :
    ∃ t, exec step justSet rest = some t ∧ rest.length ≤ efforts justSet ∧
      t.threads[0]? = some (.returned false true) := by
  refine ⟨⟨true, [.returned false true, .returned true true, .idle]⟩, rfl, ?_⟩
  obtain ⟨hle, hend⟩ := set_frees_waiters justSet_reachable rfl
    (by decide : ∀ l ∈ rest, own l = true) rfl
  refine ⟨hle, hend (fun l hl => ?_) false 0 (.asleep false) rfl .asleep⟩
  cases l with
  | run i | spurious i | timeout i => rcases i with _ | _ | _ | i <;> rfl
  | wait | set | unset => cases hl

/-- Where the event is unset again at once, a thread that waits may miss it. -/
example : (exec step (event false 2) [.wait 0 false, .run 0, .set 1, .run 1, .unset 1, .run 0,
    .run 1, .run 0]).map State.threads = some [.asleep false, .idle] := by decide

end Ashe.EventWaits
