import Ashe.ServiceBase

namespace Ashe.ServiceTurns

open ServiceBase Runs

def accessesLeft : Phase → Nat
  | .writeState => 5
  | .writeExitCode => 4
  | .readCheckPoint => 3
  | .increment _ => 2
  | .writeCheckPoint _ => 1
  | .report => 0

/-- What is left of a call of SetServiceStatus, with nothing between. -/
def finish : Nat → Service → Call → Service
  | 0, s, call => (setServiceStatus s call).1
  | n + 1, s, call => match setServiceStatus s call with
    | (s, none) => s
    | (s, some call) => finish n s call

/-- The service once the call that is under way has returned. -/
def completed (s : Service) : Service :=
  match s.mainCall, s.handlerCall with
  | some call, _ => { finish (accessesLeft call.phase) s call with mainCall := none }
  | none, some call => { finish (accessesLeft call.phase) s call with handlerCall := none }
  | none, none => s

/-- A step in which SetServiceStatus is not interrupted. -/
def turn (s : Service) (l : Label) : Option Service := (step s l).map completed

def Started (s : Service) : Prop := s.main = .finished ∧ s.mainCall = none

instance (s : Service) : Decidable (Started s) := inferInstanceAs (Decidable (_ ∧ _))

def AfterStart (s : Service) : Label → Prop
  | .control _ => Started s
  | _ => True

instance (s : Service) : (l : Label) → Decidable (AfterStart s l)
  | .control _ => inferInstanceAs (Decidable (Started s))
  | .main _ _ | .handler _ => inferInstanceAs (Decidable True)

/-- The threads are not at work at the same time. -/
def Alone (s : Service) : Prop := Started s ∨ s.handler = .idle ∧ s.handlerCall = none

def report (s : Service) (state : ServiceState) (exitCode : UInt32) : Service :=
  let checkPoint := if hasCheckPoint state then s.nextCheckPoint else 0
  { s with
    status := ⟨state, exitCode, checkPoint⟩
    nextCheckPoint := if hasCheckPoint state then s.nextCheckPoint + 1 else s.nextCheckPoint
    reports := s.reports ++ [⟨state, exitCode, checkPoint⟩] }

section Turns

variable {s s' : Service} {l : Label}

theorem finish_called (s : Service) (state : ServiceState) (exitCode : UInt32) :
    finish 5 s ⟨state, exitCode, .writeState⟩ = report s state exitCode := by
  simp only [finish, setServiceStatus, report]
  cases hasCheckPoint state <;> rfl

theorem completed_main (s : Service) (state : ServiceState) (exitCode : UInt32) (main : Main) :
    completed { s with mainCall := called state exitCode, main := main } =
      { report s state exitCode with mainCall := none, main := main } := by
  simp only [completed, called, accessesLeft, finish_called]
  rfl

theorem completed_handler (hs : s.mainCall = none) (state : ServiceState) (exitCode : UInt32)
    (handler : Handler) :
    completed { s with handlerCall := called state exitCode, handler := handler } =
      { report s state exitCode with handlerCall := none, handler := handler } := by
  obtain ⟨status, next, main, mainCall, before, handlerCall, reports⟩ := s
  obtain rfl : mainCall = none := hs
  simp only [completed, called, accessesLeft, finish_called]
  rfl

theorem completed_calm (hm : s.mainCall = none) (hh : s.handlerCall = none) : completed s = s := by
  rw [completed, hm, hh]

/-- An access of a call makes no difference to what comes out in the end. -/
theorem completed_mainCall {call : Call} (hcall : s.mainCall = some call)
    (hidle : s.handlerCall = none) :
    completed { (setServiceStatus s call).1 with mainCall := (setServiceStatus s call).2 } =
      completed s := by
  obtain ⟨status, next, main, mainCall, handler, handlerCall, reports⟩ := s
  obtain ⟨state, exitCode, phase⟩ := call
  obtain rfl : mainCall = some ⟨state, exitCode, phase⟩ := hcall
  obtain rfl : handlerCall = none := hidle
  cases phase with
  | writeState | writeExitCode | readCheckPoint =>
      simp only [completed, accessesLeft, finish, setServiceStatus]
      cases hasCheckPoint state <;> rfl
  | increment | writeCheckPoint | report => rfl

theorem completed_handlerCall {call : Call} (hcall : s.handlerCall = some call)
    (hidle : s.mainCall = none) :
    completed { (setServiceStatus s call).1 with handlerCall := (setServiceStatus s call).2 } =
      completed s := by
  obtain ⟨status, next, main, mainCall, handler, handlerCall, reports⟩ := s
  obtain ⟨state, exitCode, phase⟩ := call
  obtain rfl : handlerCall = some ⟨state, exitCode, phase⟩ := hcall
  obtain rfl : mainCall = none := hidle
  cases phase with
  | writeState | writeExitCode | readCheckPoint =>
      simp only [completed, accessesLeft, finish, setServiceStatus]
      cases hasCheckPoint state <;> rfl
  | increment | writeCheckPoint | report => rfl

theorem setServiceStatus_threads (s : Service) (call : Call) :
    (setServiceStatus s call).1.main = s.main ∧
      (setServiceStatus s call).1.mainCall = s.mainCall ∧
      (setServiceStatus s call).1.handler = s.handler ∧
      (setServiceStatus s call).1.handlerCall = s.handlerCall := by
  rw [setServiceStatus]
  split
  case h_3 => split <;> exact ⟨rfl, rfl, rfl, rfl⟩
  all_goals exact ⟨rfl, rfl, rfl, rfl⟩

/-- A thread of ServiceMain that is at work has the service to itself. -/
theorem Alone.handler_idle (h : Alone s) (hwork : s.main ≠ .finished ∨ s.mainCall ≠ none) :
    s.handler = .idle ∧ s.handlerCall = none := by
  rcases h with ⟨hmain, hcall⟩ | hidle
  · exact hwork.elim (absurd hmain) (absurd hcall)
  · exact hidle

theorem Alone.started (h : Alone s) (hwork : s.handler ≠ .idle ∨ s.handlerCall ≠ none) :
    Started s := by
  rcases h with hstarted | ⟨hidle, hcall⟩
  · exact hstarted
  · exact hwork.elim (absurd hidle) (absurd hcall)

/-- What ServiceMain does leaves the handler as it is, and what the handler does leaves
ServiceMain as it is. -/
theorem step_alone (h : Alone s) (hl : AfterStart s l) (hs : step s l = some s') : Alone s' := by
  cases l with
  | main registered outcome =>
      rw [step] at hs
      split at hs
      next hcall =>
        rw [serviceMain.eq_def] at hs
        split at hs
        next hmain =>
          obtain rfl := Option.some.inj hs
          exact .inr (h.handler_idle (.inl (by rw [hmain]; nofun)))
        next hmain =>
          obtain rfl := Option.some.inj hs
          exact .inr (h.handler_idle (.inl (by rw [hmain]; nofun)))
        next hmain =>
          obtain rfl := Option.some.inj hs
          exact .inr (h.handler_idle (.inl (by rw [hmain]; nofun)))
        next => cases hs
        next => cases hs
      next call hcall =>
        obtain rfl := Option.some.inj hs
        obtain ⟨-, -, hhandler, hhandlerCall⟩ := setServiceStatus_threads s call
        obtain ⟨hidle, hnone⟩ := h.handler_idle (.inr (by rw [hcall]; nofun))
        exact .inr ⟨hhandler.trans hidle, hhandlerCall.trans hnone⟩
  | control control =>
      rw [step] at hs
      split at hs
      next =>
        obtain rfl := Option.some.inj hs
        cases control <;> exact .inl hl
      next => cases hs
  | handler outcome =>
      rw [step] at hs
      split at hs
      next =>
        rw [handlerNext.eq_def] at hs
        split at hs
        next => cases hs
        case h_8 hhandler =>
          have hstarted := h.started (.inl (by rw [hhandler]; nofun))
          split at hs
          next =>
            obtain rfl := Option.some.inj hs
            exact .inl hstarted
          next =>
            obtain rfl := Option.some.inj hs
            exact .inl hstarted
        all_goals
          next hhandler =>
            have hstarted := h.started (.inl (by rw [hhandler]; nofun))
            obtain rfl := Option.some.inj hs
            exact .inl hstarted
      next call hcall =>
        obtain rfl := Option.some.inj hs
        obtain ⟨hmain, hmainCall, -, -⟩ := setServiceStatus_threads s call
        obtain ⟨hfinished, hnone⟩ := h.started (.inr (by rw [hcall]; nofun))
        exact .inl ⟨hmain.trans hfinished, hmainCall.trans hnone⟩

/-- While the threads are not at work at the same time, a step leads to no report or to a
whole one. -/
theorem step_completed (h : Alone s) (hl : AfterStart s l) (hs : step s l = some s') :
    completed s' = completed s ∨
      s.mainCall = none ∧ s.handlerCall = none ∧ turn s l = some (completed s') := by
  have hturn : turn s l = some (completed s') := by rw [turn, hs, Option.map_some]
  cases l with
  | main registered outcome =>
      rw [step] at hs
      split at hs
      next hcall =>
        have hwork : s.main ≠ .finished := by
          intro hmain
          rw [serviceMain.eq_def, hmain] at hs
          cases hs
        exact .inr ⟨hcall, (h.handler_idle (.inl hwork)).2, hturn⟩
      next call hcall =>
        obtain rfl := Option.some.inj hs
        exact .inl (completed_mainCall hcall (h.handler_idle (.inr (by rw [hcall]; nofun))).2)
  | control control =>
      rw [step] at hs
      split at hs
      next hidle => exact .inr ⟨hl.2, hidle.2.1, hturn⟩
      next => cases hs
  | handler outcome =>
      rw [step] at hs
      split at hs
      next hcall =>
        have hwork : s.handler ≠ .idle := by
          intro hhandler
          rw [handlerNext.eq_def, hhandler] at hs
          cases hs
        exact .inr ⟨(h.started (.inl hwork)).2, hcall, hturn⟩
      next call hcall =>
        obtain rfl := Option.some.inj hs
        exact .inl (completed_handlerCall hcall (h.started (.inr (by rw [hcall]; nofun))).2)

theorem setServiceStatus_reports (s : Service) (call : Call) :
    (setServiceStatus s call).1.reports = s.reports ∨
      (setServiceStatus s call).2 = none ∧ ∃ r, (setServiceStatus s call).1.reports =
        s.reports ++ [r] := by
  rw [setServiceStatus]
  split
  case h_3 => split <;> exact .inl rfl
  case h_6 => exact .inr ⟨rfl, _, rfl⟩
  all_goals exact .inl rfl

theorem finish_reports (n : Nat) (s : Service) (call : Call) :
    (finish n s call).reports = s.reports ∨ ∃ r, (finish n s call).reports = s.reports ++ [r] := by
  induction n generalizing s call with
  | zero => exact (setServiceStatus_reports s call).imp_right And.right
  | succ n ih =>
      have hreports := setServiceStatus_reports s call
      rw [finish]
      split
      next heq =>
        rw [heq] at hreports
        exact hreports.imp_right And.right
      next s' next heq =>
        rw [heq] at hreports
        rcases hreports with hsame | ⟨hnone, -⟩
        · dsimp only at hsame
          rw [← hsame]
          exact ih s' next
        · cases hnone

theorem finish_main (n : Nat) (s : Service) (call : Call) : (finish n s call).main = s.main := by
  induction n generalizing s call with
  | zero => exact (setServiceStatus_threads s call).1
  | succ n ih =>
      have hmain := (setServiceStatus_threads s call).1
      rw [finish]
      split
      next heq =>
        rw [heq] at hmain
        exact hmain
      next s' next heq =>
        rw [heq] at hmain
        exact (ih s' next).trans hmain

theorem completed_thread (s : Service) : (completed s).main = s.main := by
  rw [completed]
  split
  next => exact finish_main _ s _
  next => exact finish_main _ s _
  next => rfl

theorem completed_reports (s : Service) :
    (completed s).reports = s.reports ∨ ∃ r, (completed s).reports = s.reports ++ [r] := by
  rw [completed]
  split
  next => exact finish_reports _ s _
  next => exact finish_reports _ s _
  next => exact .inl rfl

end Turns

end Ashe.ServiceTurns
