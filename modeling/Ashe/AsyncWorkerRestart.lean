import Ashe.AsyncWorkerOrder

namespace Ashe.AsyncWorkerRestart

open AsyncWorker AsyncWorkerOrder Runs

def InLoop (r : Run) : Prop := r ≠ .absent ∧ r ≠ .leaving ∧ r ≠ .returned

/-- There is a worker, and while tasks are queued it does not wait unless some invoke
has still to notify it. -/
def Served (s : State) : Prop :=
  ∃ i, s.thread = some i ∧ InLoop (s.run i) ∧
    (s.run i = .waiting → s.workQueue ≠ [] → 0 < s.notifying)

/-- The worker is there from a start that returned true to the next stop. -/
def Kept (s : State) : Prop :=
  ∀ before since, s.log = before ++ .startReturned true :: since → .stopCalled ∉ since → Served s

def Secure (s : State) : Prop :=
  ∀ ls s', (∀ l ∈ ls, ∃ i, l = .run i) → exec step s ls = some s' → Kept s'

def FreshStart (s : State) (l : Label) : Prop := l = .start true → s.exit = false

structure Placed (s : State) : Prop where
  bound : ∀ i, s.thread = some i → i < s.threads
  present : ∀ i, s.thread = some i → s.run i ≠ .absent
  loop : s.exit = false → ∀ i, s.thread = some i → InLoop (s.run i)
  thread : .startReturned true ∈ s.log → s.thread ≠ none

def Awake (s : State) : Prop :=
  ∀ i, s.run i = .waiting → s.exit = false ∧ (s.workQueue ≠ [] → 0 < s.notifying)

structure Working (s : State) : Prop where
  tidy : Tidy s
  placed : Placed s
  awake : Awake s

theorem initial_working : Working initial :=
  ⟨initial_tidy, ⟨nofun, nofun, fun _ => nofun, nofun⟩, nofun⟩

theorem Placed.goto {s : State} {i : Nat} {r : Run} (h : Placed s) (ht : s.thread = some i)
    (hpresent : r ≠ .absent) (hloop : s.exit = false → InLoop r) : Placed (s.goto i r) := by
  refine ⟨h.bound, fun j hj => ?_, fun he j hj => ?_, h.thread⟩
  · obtain rfl := Option.some.inj (ht.symm.trans hj)
    rw [s.goto_run_self]
    exact hpresent
  · obtain rfl := Option.some.inj (ht.symm.trans hj)
    rw [s.goto_run_self]
    exact hloop he

theorem Placed.record {s : State} {e : Event} (h : Placed s)
    (he : e = .startReturned true → s.thread ≠ none) : Placed (s.record e) := by
  refine ⟨h.bound, h.present, h.loop, fun hmem => ?_⟩
  cases List.mem_append.mp hmem with
  | inl hmem => exact h.thread hmem
  | inr hmem => exact he (List.mem_singleton.mp hmem).symm

theorem awake_goto {s : State} {i : Nat} {r : Run} (h : Tidy s) (ht : s.thread = some i)
    (hr : r = .waiting → s.exit = false ∧ s.workQueue = []) : Awake (s.goto i r) := by
  intro j hj
  by_cases hji : j = i
  · rw [hji, s.goto_run_self] at hj
    obtain ⟨he, hq⟩ := hr hj
    exact ⟨he, fun hne => absurd hq hne⟩
  · rw [s.goto_run_ne hji] at hj
    have hthread := h.active hj rfl
    exact absurd (Option.some.inj (hthread.symm.trans ht)) hji

theorem working_notifyOne {s s' : State} {woken : Option Nat} (htidy : Tidy s) (h : Placed s)
    (hs : notifyOne s woken = some s') : Working s' := by
  have htidy' := tidy_notifyOne htidy hs
  rcases notifyOne_cases hs with ⟨rfl, hnone⟩ | ⟨i, hr, rfl⟩
  · refine ⟨htidy, h, fun i hi => ?_⟩
    exact absurd hi (hnone i (h.bound i (htidy.active hi rfl)))
  · have ht := htidy.active hr rfl
    exact ⟨htidy', h.goto ht (by simp) (fun _ => by simp [InLoop]), awake_goto htidy ht (by simp)⟩

theorem placed_emptyQueue {s : State} (h : Placed s) : Placed (emptyQueue s) :=
  ⟨h.bound, h.present, h.loop, fun hmem =>
    h.thread (by simpa [emptyQueue, State.record] using hmem)⟩

theorem thread_of_timesOut {s : State} (h : s.timesOut = true) : s.thread ≠ none := by
  intro hthread
  rw [State.timesOut, hthread] at h
  cases h

theorem timesOut_of_active {s : State} {i : Nat} {r : Run} (h : Tidy s) (hr : s.run i = r)
    (hin : inRun r = true) : s.timesOut = true := by
  have hreturned : r ≠ .returned := by
    rintro rfl
    cases hin
  rw [State.timesOut, h.active hr hin]
  simpa [hr] using hreturned

theorem placed_launched (s : State) :
    Placed ({ s with thread := some s.threads, threads := s.threads + 1 }.goto s.threads
      .entering) := by
  refine ⟨fun i hi => ?_, fun i hi => ?_, fun _ i hi => ?_, fun _ => nofun⟩
  · obtain rfl := Option.some.inj hi
    exact Nat.lt_succ_self _
  · obtain rfl := Option.some.inj hi
    simp [State.goto]
  · obtain rfl := Option.some.inj hi
    simp [State.goto, InLoop]

theorem awake_launched {s : State} (h : Working s) (ht : s.timesOut = false) :
    Awake ({ s with thread := some s.threads, threads := s.threads + 1 }.goto s.threads
      .entering) := by
  intro i hi
  by_cases hithreads : i = s.threads
  · rw [hithreads, State.goto_run_self] at hi
    cases hi
  · rw [State.goto_run_ne _ hithreads] at hi
    exact absurd (timesOut_of_active h.tidy hi rfl) (by simp [ht])

theorem moves_working {s s' : State} {l : Label} (h : Working s) (hm : Moves s l s') :
    Working s' := by
  have htidy := moves_tidy h.tidy hm
  have hp := h.placed
  cases hm with
  | running created ho ht =>
      exact ⟨htidy, hp.record fun _ => thread_of_timesOut ht, h.awake⟩
  | launched ho ht =>
      exact ⟨htidy, (placed_launched s).record (fun _ => Option.some_ne_none _),
        awake_launched h ht⟩
  | failed => exact ⟨htidy, hp.record (by simp), h.awake⟩
  | stop woken ho hs =>
      have htidy := tidy_emptyQueue (h.tidy.record (e := .stopCalled) rfl rfl (by simp))
      have hp := placed_emptyQueue (hp.record (e := .stopCalled) (by simp))
      have hset : Tidy { emptyQueue (s.record .stopCalled) with exit := true, owner := .joining } :=
        htidy.congr rfl rfl rfl rfl rfl
      exact working_notifyOne hset ⟨hp.bound, hp.present, by simp, hp.thread⟩ hs
  | join => exact ⟨htidy, ⟨hp.bound, hp.present, hp.loop, hp.thread⟩, h.awake⟩
  | invoke =>
      refine ⟨htidy, ⟨hp.bound, hp.present, hp.loop, fun hmem => ?_⟩, fun i hi => ?_⟩
      · exact hp.thread (by simpa [invoke, State.record] using hmem)
      · exact ⟨(h.awake i hi).1, fun _ => Nat.succ_pos _⟩
  | notify woken hn hs =>
      have hless : Tidy { s with notifying := s.notifying - 1 } :=
        h.tidy.congr rfl rfl rfl rfl rfl
      exact working_notifyOne hless ⟨hp.bound, hp.present, hp.loop, hp.thread⟩ hs
  | clearTasks =>
      exact ⟨htidy, placed_emptyQueue hp, fun i hi => ⟨(h.awake i hi).1, fun hne => absurd rfl hne⟩⟩
  | enter hr =>
      have ht := h.tidy.active hr rfl
      have hp := hp.goto ht (r := .locking) (by simp) fun _ => by simp [InLoop]
      have hawake := awake_goto h.tidy ht (r := .locking) (by simp)
      exact ⟨htidy, ⟨hp.bound, hp.present, hp.loop, hp.thread⟩, hawake⟩
  | leave hr he =>
      have ht := h.tidy.active hr rfl
      have hp := hp.goto ht (r := .leaving) (by simp) fun hexit => by simp [he] at hexit
      have hawake := awake_goto h.tidy ht (r := .leaving) (by simp)
      exact ⟨htidy, ⟨hp.bound, hp.present, hp.loop, hp.thread⟩, hawake⟩
  | wait hr he hq =>
      have ht := h.tidy.active hr rfl
      exact ⟨htidy, hp.goto ht (by simp) (fun _ => by simp [InLoop]),
        awake_goto h.tidy ht fun _ => ⟨he, hq⟩⟩
  | @pop i task tasks hr he hq =>
      have ht := h.tidy.active hr rfl
      have hp := hp.goto ht (r := .popped task) (by simp) fun _ => by simp [InLoop]
      refine ⟨htidy, ⟨hp.bound, hp.present, hp.loop, hp.thread⟩, fun j hj => ?_⟩
      have hawake := awake_goto h.tidy ht (r := .popped task) (by simp) j hj
      exact ⟨hawake.1, fun _ => hawake.2 (by simp [State.goto, hq])⟩
  | @execute i task hr =>
      have ht := h.tidy.active hr rfl
      have hp := hp.goto ht (r := .executing task) (by simp) fun _ => by simp [InLoop]
      exact ⟨htidy, hp.record (by simp), awake_goto h.tidy ht (by simp)⟩
  | done hr =>
      have ht := h.tidy.active hr rfl
      have hp := hp.goto ht (r := .locking) (by simp) fun _ => by simp [InLoop]
      exact ⟨htidy, hp.record (by simp), awake_goto h.tidy ht (by simp)⟩
  | ready hr =>
      have ht := h.tidy.active hr rfl
      refine ⟨htidy, hp.goto ht (by simp) fun he => ?_, awake_goto h.tidy ht (by simp)⟩
      exact absurd hr (hp.loop he _ ht).2.1
  | wake hr =>
      have ht := h.tidy.active hr rfl
      exact ⟨htidy, hp.goto ht (by simp) (fun _ => by simp [InLoop]),
        awake_goto h.tidy ht (by simp)⟩

section Stopped

def StoppedSince (log : List Event) : Prop :=
  ∀ before since, log = before ++ .startReturned true :: since → .stopCalled ∈ since

/-- An event that is not among the later ones is in the log before them. -/
theorem log_split {log events before since : List Event} {e : Event} (he : e ∉ events)
    (heq : log ++ events = before ++ e :: since) :
    ∃ mid, log = before ++ e :: mid ∧ since = mid ++ events := by
  rcases List.append_eq_append_iff.mp heq with ⟨mid, hmid, heq⟩ | ⟨mid, hmid, heq⟩
  · exact absurd (heq ▸ List.mem_append_right _ (List.mem_cons_self ..)) he
  · cases mid with
    | nil =>
        rw [List.nil_append] at heq
        exact absurd (heq ▸ List.mem_cons_self ..) he
    | cons e mid =>
        obtain ⟨rfl, rfl⟩ := List.cons_eq_cons.mp heq
        exact ⟨mid, hmid, rfl⟩

theorem StoppedSince.append {log events : List Event} (h : StoppedSince log)
    (hevents : .startReturned true ∉ events) : StoppedSince (log ++ events) := by
  intro before since heq
  obtain ⟨mid, hmid, rfl⟩ := log_split hevents heq
  exact List.mem_append_left _ (h before mid hmid)

theorem stoppedSince_stop {log events : List Event} (hstop : .stopCalled ∈ events)
    (hevents : .startReturned true ∉ events) : StoppedSince (log ++ events) := by
  intro before since heq
  obtain ⟨mid, -, rfl⟩ := log_split hevents heq
  exact List.mem_append_right _ hstop

structure Over (s : State) : Prop where
  since : s.exit = true → StoppedSince s.log
  gone : s.exit = true → s.owner = .idle → s.timesOut = false

theorem initial_over : Over initial := ⟨nofun, nofun⟩

theorem Over.active {s s' : State} {i : Nat} {r : Run} (h : Over s) (htidy : Tidy s)
    (hr : s.run i = r) (hin : inRun r = true)
    (hexit : s'.exit = s.exit) (howner : s'.owner = s.owner) {events : List Event}
    (hlog : s'.log = s.log ++ events) (hevents : .startReturned true ∉ events) : Over s' := by
  refine ⟨fun he => ?_, fun he ho => ?_⟩
  · rw [hlog]
    exact (h.since (hexit ▸ he)).append hevents
  · have hgone := h.gone (hexit ▸ he) (howner ▸ ho)
    exact absurd (timesOut_of_active htidy hr hin) (by simp [hgone])

theorem over_notifyOne {s s' : State} {woken : Option Nat} (htidy : Tidy s) (h : Over s)
    (hs : notifyOne s woken = some s') : Over s' := by
  rcases notifyOne_cases hs with ⟨rfl, -⟩ | ⟨i, hr, rfl⟩
  · exact h
  · exact h.active htidy hr rfl rfl rfl (List.append_nil _).symm List.not_mem_nil

theorem moves_over {s s' : State} {l : Label} (htidy : Tidy s) (h : Over s)
    (hfresh : FreshStart s l) (hm : Moves s l s') : Over s' := by
  cases hm with
  | running created ho ht =>
      have hexit : s.exit ≠ true := fun he => by simp [h.gone he ho] at ht
      exact ⟨fun he => absurd he hexit, fun he => absurd he hexit⟩
  | launched =>
      have hexit : s.exit ≠ true := by simp [hfresh rfl]
      exact ⟨fun he => absurd he hexit, fun he => absurd he hexit⟩
  | failed ho ht => exact ⟨fun he => (h.since he).append (by simp), fun _ _ => ht⟩
  | stop woken ho hs =>
      have hstop : StoppedSince (s.log ++ [.stopCalled, .emptied s.workQueue]) :=
        stoppedSince_stop (by simp) (by simp)
      have hlog : (emptyQueue (s.record .stopCalled)).log =
          s.log ++ [.stopCalled, .emptied s.workQueue] := by
        simp [emptyQueue, State.record]
      rcases notifyOne_cases hs with ⟨rfl, -⟩ | ⟨i, hr, rfl⟩
      · exact ⟨fun _ => hlog ▸ hstop, fun _ howner => absurd howner (by simp)⟩
      · exact ⟨fun _ => hlog ▸ hstop, fun _ howner => absurd howner (by simp [State.goto])⟩
  | join ho ht => exact ⟨h.since, fun _ _ => ht⟩
  | invoke => exact ⟨fun he => (h.since he).append (by simp), h.gone⟩
  | notify woken hn hs =>
      have hless : Tidy { s with notifying := s.notifying - 1 } := htidy.congr rfl rfl rfl rfl rfl
      exact over_notifyOne hless ⟨h.since, h.gone⟩ hs
  | clearTasks => exact ⟨fun he => (h.since he).append (by simp), h.gone⟩
  | execute hr | done hr => exact h.active htidy hr rfl rfl rfl rfl (by simp)
  | enter hr | leave hr | wait hr | pop hr | ready hr | wake hr =>
      exact h.active htidy hr rfl rfl rfl (List.append_nil _).symm List.not_mem_nil

end Stopped

theorem kept_of_over {s : State} (h : Working s) (hover : Over s) : Kept s := by
  intro before since hlog hstop
  have hexit : s.exit = false := by
    cases he : s.exit with
    | false => rfl
    | true => exact absurd (hover.since he before since hlog) hstop
  have hstarted : .startReturned true ∈ s.log := by simp [hlog]
  obtain ⟨i, ht⟩ := Option.ne_none_iff_exists'.mp (h.placed.thread hstarted)
  exact ⟨i, ht, h.placed.loop hexit i ht, fun hwait => (h.awake i hwait).2⟩

theorem secure_of_over {s : State} (h : Working s) (hover : Over s) : Secure s := by
  intro ls s' hls hs
  have hfresh : Along step (fun s l _ => FreshStart s l) s ls := by
    refine along_of_invariant (I := fun _ => True) (fun s l _ _ hl _ => ⟨trivial, ?_⟩) trivial
      (along_of_labels hls)
    obtain ⟨i, rfl⟩ := hl
    exact nofun
  obtain ⟨hworking, hover⟩ := exec_of_invariant (I := fun s => Working s ∧ Over s)
    (fun s l t h hg hs => ⟨moves_working h.1 (step_moves hs),
      moves_over h.1.tidy h.2 hg (step_moves hs)⟩) ⟨h, hover⟩ hfresh hs
  exact kept_of_over hworking hover

section Exits

def Exits (i : Nat) (s : State) : Prop :=
  ∃ n s' events, exec step s (List.replicate n (.run i)) = some s' ∧
    s'.log = s.log ++ events ∧ .stopCalled ∉ events ∧ s'.thread = some i ∧ ¬ InLoop (s'.run i)

theorem exits_step {i : Nat} {s t : State} {events : List Event} (h : Exits i t)
    (ht : step s (.run i) = some t) (hlog : t.log = s.log ++ events)
    (hevents : .stopCalled ∉ events) : Exits i s := by
  obtain ⟨n, s', later, hexec, hlater, hnot, hthread, hout⟩ := h
  refine ⟨n + 1, s', events ++ later, ?_, ?_, ?_, hthread, hout⟩
  · rw [List.replicate_succ]
    exact exec_cons.mpr ⟨t, ht, hexec⟩
  · rw [hlater, hlog, List.append_assoc]
  · simpa using ⟨hevents, hnot⟩

/-- With the exit flag set the thread leaves its loop at the next test, and does not
sleep before it. -/
theorem exits_of_exit {i : Nat} {s : State} (he : s.exit = true) (ht : s.thread = some i)
    (habsent : s.run i ≠ .absent) (hwait : s.run i ≠ .waiting) : Exits i s := by
  have hout : ∀ s : State, s.thread = some i → ¬ InLoop (s.run i) → Exits i s := fun s ht hr =>
    ⟨0, s, [], rfl, (List.append_nil _).symm, List.not_mem_nil, ht, hr⟩
  have hlocking : ∀ s : State, s.exit = true → s.thread = some i → s.run i = .locking →
      Exits i s := by
    intro s he ht hr
    refine exits_step (t := { s with running := false }.goto i .leaving)
      (hout _ ht ?_) ?_ (List.append_nil _).symm List.not_mem_nil
    · rw [State.goto_run_self]
      exact fun h => h.2.1 rfl
    · simp only [step, runNext, hr, lockedSection, he, if_true]
  have hexecuting : ∀ (s : State) (task : Nat), s.exit = true → s.thread = some i →
      s.run i = .executing task → Exits i s := by
    intro s task he ht hr
    refine exits_step (hlocking ((s.goto i .locking).record (.ended task)) he ht ?_) ?_ rfl ?_
    · exact s.goto_run_self ..
    · simp only [step, runNext, hr]
    · simp
  cases hr : s.run i with
  | absent => exact absurd hr habsent
  | waiting => exact absurd hr hwait
  | locking => exact hlocking s he ht hr
  | executing task => exact hexecuting s task he ht hr
  | leaving => exact hout s ht (by rw [hr]; exact fun h => h.2.1 rfl)
  | returned => exact hout s ht (by rw [hr]; exact fun h => h.2.2 rfl)
  | entering =>
      refine exits_step (hlocking ({ s with running := true }.goto i .locking) he ht ?_) ?_
        (List.append_nil _).symm List.not_mem_nil
      · exact State.goto_run_self ..
      · simp only [step, runNext, hr]
  | popped task =>
      refine exits_step (hexecuting ((s.goto i (.executing task)).record (.started task)) task
        he ht ?_) ?_ rfl ?_
      · exact s.goto_run_self ..
      · simp only [step, runNext, hr]
      · simp

theorem Exits.not_secure {i : Nat} {s : State} (h : Exits i s) {log : List Event}
    (hlog : s.log = log ++ [.startReturned true]) : ¬ Secure s := by
  intro hsecure
  obtain ⟨n, s', events, hexec, hlater, hstop, hthread, hout⟩ := h
  have hkept := hsecure _ s' (fun l hl => ⟨i, List.eq_of_mem_replicate hl⟩) hexec
  have hlog' : s'.log = log ++ .startReturned true :: events := by
    rw [hlater, hlog, List.append_assoc, List.singleton_append]
  obtain ⟨j, hj, hin, -⟩ := hkept log events hlog' hstop
  obtain rfl := Option.some.inj (hthread.symm.trans hj)
  exact hout hin

end Exits

/-- The worker serves from every start to the next stop, whatever it does, exactly in the
runs in which no thread is started after a stop. -/
theorem restart_iff (ls : List Label) :
    Along step (fun _ _ s' => Secure s') initial ls ↔
      Along step (fun s l _ => FreshStart s l) initial ls := by
  constructor
  · intro hsecure
    refine along_of_invariant (I := Working) ?_ initial_working hsecure
    intro s l s' h hsecure hs
    have hworking := moves_working h (step_moves hs)
    refine ⟨hworking, ?_⟩
    rintro rfl
    cases he : s.exit with
    | false => rfl
    | true =>
        have hs' : s'.exit = true ∧ s'.log = s.log ++ [.startReturned true] := by
          cases step_moves hs with
          | running => exact ⟨he, rfl⟩
          | launched => exact ⟨he, rfl⟩
        obtain ⟨i, ht⟩ := Option.ne_none_iff_exists'.mp
          (hworking.placed.thread (by simp [hs'.2]))
        have hexits : Exits i s' := by
          refine exits_of_exit hs'.1 ht (hworking.placed.present i ht) fun hwait => ?_
          exact absurd (hs'.1.symm.trans (hworking.awake i hwait).1) nofun
        exact absurd hsecure (hexits.not_secure hs'.2)
  · intro hfresh
    refine along_of_invariant (I := fun s => Working s ∧ Over s) ?_
      ⟨initial_working, initial_over⟩ hfresh
    intro s l s' h hg hs
    have hm := step_moves hs
    have hworking := moves_working h.1 hm
    have hover := moves_over h.1.tidy h.2 hg hm
    exact ⟨⟨hworking, hover⟩, secure_of_over hworking hover⟩

/-- The thread of a start that follows a stop leaves at once. -/
theorem restarted_worker_leaves :
    ¬ Along step (fun _ _ s' => Kept s') initial
      ([.start true, .run 0, .run 0, .stop (some 0), .run 0, .run 0, .join, .start true, .run 1] ++
        [.run 1]) := by
  intro h
  have hkept := h.last rfl rfl
  obtain ⟨i, ht, hin, -⟩ :=
    hkept [.startReturned true, .stopCalled, .emptied []] [] rfl List.not_mem_nil
  obtain rfl : 1 = i := Option.some.inj ht
  exact hin.2.1 rfl

end Ashe.AsyncWorkerRestart
