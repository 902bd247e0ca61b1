import Ashe.Runs
import Ashe.Threads

namespace Ashe.ThreadStart

open Threads Runs

/-- The new thread has set running_ to false for the last time. -/
def Past (m : Main) : Prop := m = .onAfterThreadRunning ∨ m = .leave ∨ m = .finished

def Awaits (c : Starter) : Prop := c = .locking ∨ c = .waiting

/-- Start is in its loop, and running_ will never be true again. -/
def Stranded (s : Thread) : Prop := Awaits s.starter ∧ Past s.main

instance (s : Thread) : Decidable (Stranded s) := by
  unfold Stranded Awaits Past
  infer_instance

/-- The new thread takes running_ back only after start has seen it set. -/
def SeenBeforeClear (s : Thread) (l : Label) : Prop :=
  l = .threadMain → s.main = .clearRunning → s.starter = .returned

inductive Moves (s : Thread) : Label → Thread → Prop
  | start (hs : s.starter = .idle) (hm : s.main = .absent) :
      Moves s .start { s with state := .starting, starter := .locking, main := .enter }
  | seen (hs : s.starter = .locking) (hr : s.running = true) :
      Moves s .test { s with state := .started, starter := .returned }
  | unseen (hs : s.starter = .locking) (hr : s.running = false) :
      Moves s .test { s with starter := .waiting }
  | wake (hs : s.starter = .waiting) : Moves s .wake { s with starter := .locking }
  | threadMain {s' : Thread} (hm : threadMain s = some s') : Moves s .threadMain s'
  | stopSoon (state : State) : Moves s .stopSoon { s with state := state }
  | join (hs : s.starter = .returned) (hm : s.main = .finished) :
      Moves s .join { s with state := .stopped, starter := .idle, main := .absent }

theorem step_moves {s s' : Thread} {l : Label} (h : step s l = some s') : Moves s l s' := by
  cases l with
  | threadMain => exact .threadMain h
  | start =>
      simp only [step] at h
      split at h
      next hc => obtain rfl := Option.some.inj h; exact .start hc.1 hc.2
      next => exact absurd h (by simp)
  | test =>
      simp only [step] at h
      split at h
      next hc =>
        obtain rfl := Option.some.inj h
        rw [testRunning]
        split
        next hr => exact .seen hc hr
        next hr => exact .unseen hc (by simpa using hr)
      next => exact absurd h (by simp)
  | wake =>
      simp only [step] at h
      split at h
      next hc => obtain rfl := Option.some.inj h; exact .wake hc
      next => exact absurd h (by simp)
  | stopSoon =>
      simp only [step] at h
      split at h
      next => obtain rfl := Option.some.inj h; exact .stopSoon s.state
      next => obtain rfl := Option.some.inj h; exact .stopSoon .stopping
  | join =>
      simp only [step] at h
      split at h
      next hc => obtain rfl := Option.some.inj h; exact .join hc.1 hc.2
      next => exact absurd h (by simp)

theorem threadMain_past {s s' : Thread} (h : threadMain s = some s') (hp : Past s'.main) :
    s'.starter = s.starter ∧ s'.running = false ∧ s.main = .clearRunning ∨
      s'.starter = s.starter ∧ s'.running = s.running ∧ Past s.main := by
  rw [threadMain] at h
  split at h
  next => cases h
  next => cases h
  next hm => obtain rfl := Option.some.inj h; rcases hp with hp | hp | hp <;> cases hp
  next hm => obtain rfl := Option.some.inj h; rcases hp with hp | hp | hp <;> cases hp
  next hm => obtain rfl := Option.some.inj h; rcases hp with hp | hp | hp <;> cases hp
  next hm => obtain rfl := Option.some.inj h; rcases hp with hp | hp | hp <;> cases hp
  next hm => obtain rfl := Option.some.inj h; rcases hp with hp | hp | hp <;> cases hp
  next hm => obtain rfl := Option.some.inj h; exact .inl ⟨rfl, rfl, hm⟩
  next hm => obtain rfl := Option.some.inj h; exact .inr ⟨rfl, rfl, .inl hm⟩
  next hm => obtain rfl := Option.some.inj h; exact .inr ⟨rfl, rfl, .inr (.inl hm)⟩

theorem moves_notStranded {s s' : Thread} {l : Label} (h : ¬ Stranded s) (hg : SeenBeforeClear s l)
    (hm : Moves s l s') : ¬ Stranded s' := by
  rintro ⟨ha, hp⟩
  cases hm with
  | start | join => rcases hp with hp | hp | hp <;> cases hp
  | seen => rcases ha with ha | ha <;> cases ha
  | unseen hs => exact h ⟨.inl hs, hp⟩
  | wake hs => exact h ⟨.inr hs, hp⟩
  | stopSoon => exact h ⟨ha, hp⟩
  | threadMain hm =>
      rcases threadMain_past hm hp with ⟨hs, -, hc⟩ | ⟨hs, -, hp⟩
      · rw [hs, hg rfl hc] at ha
        rcases ha with ha | ha <;> cases ha
      · exact h ⟨hs ▸ ha, hp⟩

/-- Without a call of start there is no thread, and once it is past its last
section it leaves running_ alone. -/
structure Paired (s : Thread) : Prop where
  idle : s.starter = .idle → s.main = .absent
  past : Past s.main → s.running = false

theorem threadMain_absent {s s' : Thread} (h : threadMain s = some s') : s.main ≠ .absent := by
  intro hm
  rw [threadMain, hm] at h
  cases h

theorem threadMain_starter {s s' : Thread} (h : threadMain s = some s') (hs : s'.starter = .idle) :
    s.starter = .idle := by
  rw [threadMain] at h
  split at h
  case h_6 =>
    obtain rfl := Option.some.inj h
    dsimp only at hs
    split at hs
    next => cases hs
    next => exact hs
  all_goals cases h <;> exact hs

theorem moves_paired {s s' : Thread} {l : Label} (h : Paired s) (hm : Moves s l s') :
    Paired s' := by
  cases hm with
  | start hs hm => exact ⟨by simp, by simp [Past]⟩
  | seen hs hr => exact ⟨by simp, h.past⟩
  | unseen | wake => exact ⟨by simp, h.past⟩
  | stopSoon => exact ⟨h.idle, h.past⟩
  | join => exact ⟨by simp, by simp [Past]⟩
  | threadMain hm =>
      constructor
      · intro hs
        exact absurd (h.idle (threadMain_starter hm hs)) (threadMain_absent hm)
      · intro hp
        rcases threadMain_past hm hp with ⟨-, hr, -⟩ | ⟨-, hr, hp⟩
        · exact hr
        · rw [hr]
          exact h.past hp

theorem initial_paired : Paired initial := ⟨fun _ => rfl, fun _ => rfl⟩

/-- Start is never left waiting in vain exactly in the runs in which it sees
running_ before the new thread takes it back. -/
theorem start_not_stranded_iff (ls : List Label) :
    Along step (fun _ _ s' => ¬ Stranded s') initial ls ↔
      Along step (fun s l _ => SeenBeforeClear s l) initial ls := by
  constructor
  · intro hfree
    refine along_of_invariant (I := Paired) ?_ initial_paired hfree
    intro s l s' hp hns hs
    refine ⟨moves_paired hp (step_moves hs), ?_⟩
    rintro rfl hclear
    obtain rfl : { s with running := false, main := .onAfterThreadRunning } = s' := by
      simpa [step, threadMain, hclear] using hs
    have hidle : s.starter ≠ .idle := by
      intro hi
      have habs := hp.idle hi
      rw [hclear] at habs
      cases habs
    cases hst : s.starter with
    | idle => exact absurd hst hidle
    | locking => exact absurd ⟨.inl hst, .inl rfl⟩ hns
    | waiting => exact absurd ⟨.inr hst, .inl rfl⟩ hns
    | returned => rfl
  · intro hseen
    refine along_of_invariant (I := fun s => ¬ Stranded s) ?_ (by decide) hseen
    intro s l s' hns hg hs
    have hns' := moves_notStranded hns hg (step_moves hs)
    exact ⟨hns', hns'⟩

theorem past_threadMain {s s' : Thread} (hp : Past s.main) (h : threadMain s = some s') :
    s'.starter = s.starter ∧ Past s'.main := by
  rw [threadMain] at h
  rcases hp with hp | hp | hp <;> rw [hp] at h
  · obtain rfl := Option.some.inj h
    exact ⟨rfl, .inr (.inl rfl)⟩
  · obtain rfl := Option.some.inj h
    exact ⟨rfl, .inr (.inr rfl)⟩
  · cases h

theorem moves_stranded {s s' : Thread} {l : Label} (h : Stranded s) (hp : Paired s)
    (hm : Moves s l s') : Stranded s' := by
  obtain ⟨ha, hpast⟩ := h
  cases hm with
  | start hs =>
      rw [hs] at ha
      rcases ha with ha | ha <;> cases ha
  | seen hs hr => exact absurd (hr.symm.trans (hp.past hpast)) (by simp)
  | unseen => exact ⟨.inr rfl, hpast⟩
  | wake => exact ⟨.inl rfl, hpast⟩
  | stopSoon => exact ⟨ha, hpast⟩
  | threadMain hm =>
      obtain ⟨hs, hp'⟩ := past_threadMain hpast hm
      exact ⟨hs ▸ ha, hp'⟩
  | join hs =>
      rw [hs] at ha
      rcases ha with ha | ha <;> cases ha

/-- A start that is left waiting never returns, whatever comes. -/
theorem stranded_never_returns {s : Thread} (h : Reachable step initial s) (hs : Stranded s)
    (ls : List Label) : Along step (fun _ _ s' => s'.starter ≠ .returned) s ls := by
  have hp : Paired s := h.invariant (fun _ _ _ hp hs => moves_paired hp (step_moves hs))
    initial_paired
  apply along_of_step (I := fun s => Stranded s ∧ Paired s) _ ⟨hs, hp⟩
  rintro s l s' ⟨hs, hp⟩ hstep
  have hs' := moves_stranded hs hp (step_moves hstep)
  refine ⟨⟨hs', moves_paired hp (step_moves hstep)⟩, ?_⟩
  intro hr
  rw [Stranded, hr] at hs'
  rcases hs'.1 with ha | ha <;> cases ha

def missedStart : List Label :=
  [.start, .test, .threadMain, .threadMain, .threadMain, .threadMain, .threadMain, .threadMain,
    .test, .threadMain, .threadMain]

theorem start_stranded : ¬ Along step (fun _ _ s' => ¬ Stranded s') initial missedStart ∧
    (exec step initial missedStart).map (fun s => (s.starter, s.main)) =
      some (.waiting, .finished) := by
  decide +kernel

end Ashe.ThreadStart
