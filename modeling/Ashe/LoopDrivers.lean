import Ashe.LoopSteps

namespace Ashe.LoopDrivers

open Tasks MessageLoop LoopCalls LoopSteps Runs

/-- A call of run, or the callback of a task. -/
inductive Frame
  | run
  | task
  deriving DecidableEq

/-- A message loop with the calls that its thread is in, innermost first. -/
structure Driven where
  tasks : State
  frames : List Frame

def Driven.runDepth (s : Driven) : Nat := s.frames.count .run

/-- A delegate call comes within a run, from wherever it may be, and doIdleWork from run itself. -/
def Calls (frames : List Frame) : Label → Prop
  | .doWork | .doDelayedWork => .run ∈ frames
  | .doIdleWork => frames.head? = some .run
  | _ => False

/-- A run goes on or, where it finds that it has been ended, returns. -/
def Returned (frames frames' : List Frame) : Prop := frames' = frames ∨ frames = .run :: frames'

/-- All that a driver can do, with the step of the loop that it makes. A run begins and ends
at any time: outside, in a task, or in a window procedure that a run has come to. -/
inductive Drives (s : Driven) : Option Label → Driven → Prop
  | enters : Drives s none ⟨s.tasks, .run :: s.frames⟩
  | rests {frames : List Frame} (hframes : Returned s.frames frames) :
      Drives s none ⟨s.tasks, frames⟩
  | ticks (d : Nat) : Drives s (some (.tick d)) ⟨{ s.tasks with now := s.tasks.now + d }, s.frames⟩
  | posts (quits : Bool) (delay : Int) (nestable : Bool) :
      Drives s (some (.post quits delay nestable)) ⟨post s.tasks quits delay nestable, s.frames⟩
  | starts {l : Label} {tasks : State} (hcall : Calls s.frames l)
      (hstep : step s.tasks l = some tasks) (hstarts : starts s.tasks tasks ≠ []) :
      Drives s (some l) ⟨tasks, .task :: s.frames⟩
  | returns {l : Label} {tasks : State} {frames : List Frame} (hcall : Calls s.frames l)
      (hstep : step s.tasks l = some tasks) (hstarts : starts s.tasks tasks = [])
      (hframes : Returned s.frames frames) : Drives s (some l) ⟨tasks, frames⟩
  | ends {tasks : State} {rest frames : List Frame} (hs : s.frames = .task :: rest)
      (hstep : step s.tasks .finish = some tasks) (hframes : Returned rest frames) :
      Drives s (some .finish) ⟨tasks, frames⟩

/-- A driver of message loops, whatever else its states hold. -/
structure Driver (σ ℓ : Type) where
  step : σ → ℓ → Option σ
  view : σ → Driven
  call : σ → ℓ → Option Label
  Sound : σ → Prop
  drives : ∀ {s l s'}, Sound s → step s l = some s' →
    Sound s' ∧ Drives (view s) (call s l) (view s')

theorem Drives.tasks {s s' : Driven} {l : Option Label} (h : Drives s l s') :
    s'.tasks = s.tasks ∨ ∃ k, LoopSteps.step s.tasks k = some s'.tasks := by
  cases h with
  | enters | rests => exact .inl rfl
  | ticks d => exact .inr ⟨.tick d, rfl⟩
  | posts quits delay nestable => exact .inr ⟨.post quits delay nestable, rfl⟩
  | starts _ hstep | returns _ hstep | ends _ hstep => exact .inr ⟨_, hstep⟩

theorem Drives.ordered {s s' : Driven} {l : Option Label} (h : Drives s l s')
    (ho : Ordered s.tasks) : Ordered s'.tasks := by
  rcases h.tasks with hsame | ⟨k, hk⟩
  · rw [hsame]
    exact ho
  · exact step_ordered ho hk

/-- Every task a step starts finds nestableTasksAllowed set, with no callback
active, and a task posted as non-nestable starts in the outermost run. -/
def StartsInTurn (s s' : Driven) : Prop :=
  ∀ t ∈ starts s.tasks s'.tasks, s.tasks.loop.nestableTasksAllowed = true ∧
    s.tasks.active = [] ∧ (t.nestable = false → s.runDepth = 1)

instance (s s' : Driven) : Decidable (StartsInTurn s s') :=
  inferInstanceAs (Decidable (∀ t ∈ starts s.tasks s'.tasks, _))

/-- A run within another one never meets a deferred task in doIdleWork. -/
def IdleInTurn (s : Driven) (l : Option Label) : Prop :=
  l = some .doIdleWork → 2 ≤ s.runDepth → s.tasks.loop.deferredNonNestableWorkQueue = []

/-- What a delegate call starts, and what it does to nestableTasksAllowed. Only doIdleWork does
not ask for the flag. -/
inductive Called (s : State) (l : Label) (s' : State) : Prop
  | starts {t : PendingTask} (hstarts : starts s s' = [t]) (hactive : s'.active = t :: s.active)
      (hcleared : s'.loop.nestableTasksAllowed = false)
      (hasks : s.loop.nestableTasksAllowed = true ∧ t.nestable = true ∨
        l = .doIdleWork ∧ t ∈ s.loop.deferredNonNestableWorkQueue) : Called s l s'
  | nothing (hstarts : starts s s' = []) (hactive : s'.active = s.active)
      (hsame : s'.loop.nestableTasksAllowed = s.loop.nestableTasksAllowed) : Called s l s'

theorem immediate_nestable {t : PendingTask} (h : immediate t = true) : t.nestable = true := by
  rw [immediate, Bool.and_eq_true] at h
  exact h.1

theorem step_called {s s' : State} {l : Label} {frames : List Frame} (hcall : Calls frames l)
    (h : step s l = some s') : Called s l s' := by
  cases l with
  | tick | post | finish => cases hcall
  | doWork =>
      obtain rfl := Option.some.inj h
      have hw := doWork_works s.loop
      generalize doWork s.loop = c at hw
      cases hw with
      | refused | drained => exact .nothing (starts_take ..) (take_active ..) (by rw [take_loop])
      | again hn hn' =>
          exact .nothing (starts_take ..) (take_active ..) (by rw [take_loop, hn, hn'])
      | runs hn hn' _ ht =>
          exact .starts (starts_take ..) (take_active ..) (by rw [take_loop, hn'])
            (.inl ⟨hn, immediate_nestable ht⟩)
  | doDelayedWork =>
      obtain rfl := Option.some.inj h
      have hw := doDelayedWork_works s.loop s.now
      generalize doDelayedWork s.loop s.now = c at hw
      cases hw with
      | refused | early | defers =>
          exact .nothing (starts_take ..) (take_active ..) (by rw [take_loop])
      | runs hn _ _ _ hs =>
          exact .starts (starts_take ..) (take_active ..) (by rw [take_loop]) (.inl ⟨hn, hs⟩)
  | doIdleWork =>
      obtain rfl := Option.some.inj h
      have hw := doIdleWork_works s.loop
      generalize doIdleWork s.loop = c at hw
      cases hw with
      | idle => exact .nothing (starts_take ..) (take_active ..) (by rw [take_loop])
      | runs hqueue =>
          exact .starts (starts_take ..) (take_active ..) (by rw [take_loop])
            (.inr ⟨rfl, hqueue ▸ List.mem_cons_self⟩)

/-- The calls, nestableTasksAllowed and the active callbacks as they are while no task has been
started out of turn: a callback is the only one, and a run is below it. -/
inductive Turn : List Frame → Bool → List PendingTask → Prop
  | free {frames : List Frame} (h : .task ∉ frames) : Turn frames true []
  | busy (above : List Frame) {below : List Frame} (t : PendingTask) (habove : .task ∉ above)
      (hbelow : .task ∉ below) (hrun : .run ∈ below) : Turn (above ++ .task :: below) false [t]

def InTurn (s : Driven) : Prop :=
  Turn s.frames s.tasks.loop.nestableTasksAllowed s.tasks.active

section Turns

variable {frames frames' rest : List Frame} {allowed : Bool} {active : List PendingTask}

theorem Turn.enters (h : Turn frames allowed active) : Turn (.run :: frames) allowed active := by
  cases h with
  | free h => exact .free fun hmem => h ((List.mem_cons.mp hmem).resolve_left nofun)
  | @busy above below t habove hbelow hrun =>
      exact .busy (.run :: above) t
        (fun hmem => habove ((List.mem_cons.mp hmem).resolve_left nofun)) hbelow hrun

theorem Turn.returned (h : Turn frames allowed active) (hr : Returned frames frames') :
    Turn frames' allowed active := by
  rcases hr with rfl | rfl
  · exact h
  generalize hframes : Frame.run :: frames' = frames at h
  cases h with
  | free h =>
      subst hframes
      exact .free fun hmem => h (List.mem_cons_of_mem _ hmem)
  | @busy above below t habove hbelow hrun =>
      cases above with
      | nil => exact absurd (List.cons.inj hframes).1 nofun
      | cons f above =>
          obtain ⟨-, rfl⟩ := List.cons.inj hframes
          exact .busy _ t (fun hmem => habove (List.mem_cons_of_mem _ hmem)) hbelow hrun

theorem Turn.ends {t : PendingTask} {ts : List PendingTask}
    (h : Turn (.task :: rest) allowed (t :: ts)) : Turn rest true ts := by
  generalize hframes : Frame.task :: rest = frames at h
  cases h with
  | @busy above below t habove hbelow hrun =>
      cases above with
      | nil =>
          obtain ⟨-, rfl⟩ := List.cons.inj hframes
          exact .free hbelow
      | cons f above =>
          obtain ⟨rfl, -⟩ := List.cons.inj hframes
          exact absurd List.mem_cons_self habove

theorem Turn.of_allowed (h : Turn frames true active) : active = [] ∧ .task ∉ frames := by
  cases h with
  | free h => exact ⟨rfl, h⟩

theorem Turn.outermost (h : Turn (.run :: rest) allowed active) (hrest : .run ∉ rest) :
    allowed = true ∧ active = [] := by
  generalize hframes : Frame.run :: rest = frames at h
  cases h with
  | free => exact ⟨rfl, rfl⟩
  | @busy above below t habove hbelow hrun =>
      cases above with
      | nil => exact absurd (List.cons.inj hframes).1 nofun
      | cons f above =>
          obtain ⟨-, rfl⟩ := List.cons.inj hframes
          exact absurd (List.mem_append_right _ (List.mem_cons_of_mem _ hrun)) hrest

end Turns

theorem starts_inTurn {s : Driven} {l : Label} {tasks : State} (h : InTurn s)
    (hguard : IdleInTurn s (some l)) (hcall : Calls s.frames l)
    (hstep : step s.tasks l = some tasks) (hstarts : starts s.tasks tasks ≠ []) :
    InTurn ⟨tasks, .task :: s.frames⟩ ∧ StartsInTurn s ⟨tasks, .task :: s.frames⟩ := by
  cases step_called hcall hstep with
  | nothing hnone => exact absurd hnone hstarts
  | @starts t hone hactive hcleared hasks =>
      obtain ⟨hallowed, hnone, hdepth, hrun⟩ : s.tasks.loop.nestableTasksAllowed = true ∧
          s.tasks.active = [] ∧ (t.nestable = false → s.runDepth = 1) ∧ .run ∈ s.frames := by
        rcases hasks with ⟨hallowed, hnestable⟩ | ⟨rfl, hmem⟩
        · have hrun : .run ∈ s.frames := by
            cases l with
            | tick | post | finish => cases hcall
            | doWork | doDelayedWork => exact hcall
            | doIdleWork => exact List.mem_of_mem_head? hcall
          rw [InTurn, hallowed] at h
          exact ⟨hallowed, h.of_allowed.1, fun hno => absurd (hnestable.symm.trans hno) nofun, hrun⟩
        · obtain ⟨rest, hframes⟩ := List.head?_eq_some_iff.mp hcall
          have hdepth : s.runDepth = rest.count .run + 1 := by
            rw [Driven.runDepth, hframes, List.count_cons_self]
          have hrest : rest.count .run = 0 := by
            by_contra hpos
            exact List.ne_nil_of_mem hmem (hguard rfl (by omega))
          have hout := h
          rw [InTurn, hframes] at hout
          obtain ⟨hallowed, hnone⟩ := hout.outermost (List.count_eq_zero.mp hrest)
          exact ⟨hallowed, hnone, fun _ => by rw [hdepth, hrest],
            hframes ▸ List.mem_cons_self⟩
      rw [InTurn, hallowed] at h
      refine ⟨?_, fun u hu => ?_⟩
      · rw [InTurn, hcleared, hactive, hnone]
        exact .busy [] t List.not_mem_nil h.of_allowed.2 hrun
      · rw [hone, List.mem_singleton] at hu
        subst hu
        exact ⟨hallowed, hnone, hdepth⟩

theorem drives_inTurn {s s' : Driven} {l : Option Label} (h : InTurn s) (hguard : IdleInTurn s l)
    (hd : Drives s l s') : InTurn s' ∧ StartsInTurn s s' := by
  have hnone : ∀ {s' : Driven}, starts s.tasks s'.tasks = [] → StartsInTurn s s' :=
    fun hno t ht => absurd (hno ▸ ht) List.not_mem_nil
  cases hd with
  | enters => exact ⟨h.enters, hnone (starts_self rfl)⟩
  | rests hframes => exact ⟨h.returned hframes, hnone (starts_self rfl)⟩
  | ticks | posts => exact ⟨h, hnone (starts_self rfl)⟩
  | starts hcall hstep hstarts => exact starts_inTurn h hguard hcall hstep hstarts
  | returns hcall hstep hstarts hframes =>
      refine ⟨?_, hnone hstarts⟩
      cases step_called hcall hstep with
      | starts hone => exact absurd (hone.symm.trans hstarts) nofun
      | nothing _ hactive hsame =>
          rw [InTurn, hactive, hsame]
          exact h.returned hframes
  | ends hs hstep hframes =>
      obtain ⟨t, rest, hactive, rfl⟩ := finish_some hstep
      refine ⟨?_, hnone (starts_self rfl)⟩
      rw [InTurn, hs, hactive] at h
      exact h.ends.returned hframes

/-- What doIdleWork starts in a run within another one is non-nestable. -/
theorem idleInTurn_of_starts {s s' : Driven} {l : Option Label} (ho : Ordered s.tasks)
    (hd : Drives s l s') (ht : StartsInTurn s s') : IdleInTurn s l := by
  rintro rfl hdepth
  by_contra hqueue
  obtain ⟨t, rest, hq⟩ := List.exists_cons_of_ne_nil hqueue
  have hstarts : ∀ {tasks : State}, step s.tasks .doIdleWork = some tasks →
      starts s.tasks tasks = [t] := fun hstep => by
    obtain rfl := Option.some.inj hstep
    rw [starts_take, doIdleWork, hq]
    rfl
  have hone : starts s.tasks s'.tasks = [t] := by
    cases hd with
    | starts _ hstep | returns _ hstep => exact hstarts hstep
  have hout := (ht t (hone ▸ List.mem_singleton_self t)).2.2
    (ho.deferredQueue t (hq ▸ List.mem_cons_self))
  omega

section Drivers

variable {σ ℓ : Type} (d : Driver σ ℓ)

/-- Under any driver no task starts out of turn in a run exactly when doIdleWork meets no deferred
task in a run within another one. -/
theorem Driver.turns_iff {s : σ} (hs : d.Sound s) (now : TimePoint)
    (hview : d.view s = ⟨initial now, []⟩) (ls : List ℓ) :
    Along d.step (fun s _ s' => StartsInTurn (d.view s) (d.view s')) s ls ↔
      Along d.step (fun s l _ => IdleInTurn (d.view s) (d.call s l)) s ls := by
  constructor
  · intro hturn
    refine along_of_invariant (I := fun s => d.Sound s ∧ Ordered (d.view s).tasks) ?_
      ⟨hs, by rw [hview]; exact initial_ordered now⟩ hturn
    intro s l s' hI ht hstep
    obtain ⟨hsound, hd⟩ := d.drives hI.1 hstep
    exact ⟨⟨hsound, hd.ordered hI.2⟩, idleInTurn_of_starts hI.2 hd ht⟩
  · intro hidle
    refine along_of_invariant (I := fun s => d.Sound s ∧ InTurn (d.view s)) ?_
      ⟨hs, by rw [hview]; exact .free List.not_mem_nil⟩ hidle
    intro s l s' hI hguard hstep
    obtain ⟨hsound, hd⟩ := d.drives hI.1 hstep
    obtain ⟨hturn, hstarts⟩ := drives_inTurn hI.2 hguard hd
    exact ⟨⟨hsound, hturn⟩, hstarts⟩

/-- What a driver does to its loop is a run of the loop. -/
theorem Driver.reachable {s t : σ} (hs : d.Sound s) (h : Reachable d.step s t) :
    d.Sound t ∧ Reachable LoopSteps.step (d.view s).tasks (d.view t).tasks := by
  refine h.invariant (I := fun u => d.Sound u ∧
    Reachable LoopSteps.step (d.view s).tasks (d.view u).tasks) ?_ ⟨hs, [], rfl⟩
  intro u l v hu hv
  obtain ⟨hsound, hd⟩ := d.drives hu.1 hv
  refine ⟨hsound, ?_⟩
  rcases hd.tasks with hsame | ⟨k, hk⟩
  · rw [hsame]
    exact hu.2
  · exact hu.2.snoc hk

end Drivers

end Ashe.LoopDrivers
