import Ashe.ServiceTurns

namespace Ashe.ServiceReports

open ServiceBase ServiceTurns Runs

inductive Reported (s s' : Service) : Prop
  | none (hr : s'.reports = s.reports) (hn : s'.nextCheckPoint = s.nextCheckPoint)
  | one (state : ServiceState) (exitCode : UInt32)
      (hr : s'.reports = (report s state exitCode).reports)
      (hn : s'.nextCheckPoint = (report s state exitCode).nextCheckPoint)

theorem turn_main {s : Service} (hm : s.mainCall = none) (registered : Bool) (outcome : Outcome) :
    turn s (.main registered outcome) = (serviceMain s registered outcome).map completed := by
  rw [turn, step, hm]

theorem turn_handler {s : Service} (hh : s.handlerCall = none) (outcome : Outcome) :
    turn s (.handler outcome) = (handlerNext s outcome).map completed := by
  rw [turn, step, hh]

theorem turn_reported {s s' : Service} {l : Label} (hm : s.mainCall = none)
    (hh : s.handlerCall = none) (h : turn s l = some s') : Reported s s' := by
  cases l with
  | main registered outcome =>
      rw [turn_main hm, serviceMain.eq_def] at h
      split at h
      next =>
        obtain rfl := Option.some.inj h
        rw [completed_calm]
        · exact .none rfl rfl
        · exact hm
        · exact hh
      next =>
        obtain rfl := Option.some.inj h
        rw [completed_main]
        exact .one .startPending 0 rfl rfl
      next =>
        obtain rfl := Option.some.inj h
        cases outcome with
        | returns =>
            rw [completed_main]
            exact .one .running 0 rfl rfl
        | throws error =>
            rw [completed_main]
            exact .one .stopped error rfl rfl
        | throwsOther =>
            rw [completed_main]
            exact .one .stopped 0 rfl rfl
      next => cases h
      next => cases h
  | control control =>
      rw [turn, step] at h
      split at h
      next =>
        obtain rfl := Option.some.inj h
        rw [completed_calm] <;> cases control
        case stop | pause | resume | shutdown | interrogate => exact .none rfl rfl
        all_goals first | exact hm | exact hh
      next => cases h
  | handler outcome =>
      rw [turn_handler hh, handlerNext.eq_def] at h
      split at h
      next => cases h
      case h_8 =>
        split at h
        next =>
          obtain rfl := Option.some.inj h
          rw [completed_handler hm]
          exact .one _ _ rfl rfl
        next =>
          obtain rfl := Option.some.inj h
          rw [completed_calm]
          · exact .none rfl rfl
          · exact hm
          · exact hh
      all_goals
        obtain rfl := Option.some.inj h
        rw [completed_handler hm]
        exact .one _ _ rfl rfl

def progress (reports : List Status) : List Status := reports.filter fun r => hasCheckPoint r.state

structure Numbered (s : Service) : Prop where
  counted : (progress s.reports).map Status.checkPoint =
    (List.range (progress s.reports).length).map fun k => UInt32.ofNat (k + 1)
  next : s.nextCheckPoint = UInt32.ofNat ((progress s.reports).length + 1)
  others : ∀ r ∈ s.reports, hasCheckPoint r.state = false → r.checkPoint = 0

theorem reported_numbered {s s' : Service} (h : Numbered s) (hm : Reported s s') :
    Numbered s' := by
  cases hm with
  | none hr hn =>
      refine ⟨?_, ?_, ?_⟩
      · rw [hr]
        exact h.counted
      · rw [hr, hn]
        exact h.next
      · rw [hr]
        exact h.others
  | one state exitCode hr hn =>
      dsimp only [report] at hr hn
      cases hc : hasCheckPoint state with
      | false =>
          have hsame : progress s'.reports = progress s.reports := by
            rw [hr, progress, List.filter_append]
            simp [progress, hc]
          refine ⟨?_, ?_, fun r hin hrc => ?_⟩
          · rw [hsame]
            exact h.counted
          · rw [hsame, hn, hc]
            exact h.next
          · rw [hr] at hin
            rcases List.mem_append.mp hin with hin | hin
            · exact h.others r hin hrc
            · rw [List.mem_singleton.mp hin]
              simp [hc]
      | true =>
          have hmore : progress s'.reports =
              progress s.reports ++ [⟨state, exitCode, s.nextCheckPoint⟩] := by
            rw [hr, progress, List.filter_append]
            simp [progress, hc]
          refine ⟨?_, ?_, fun r hin hrc => ?_⟩
          · rw [hmore, List.map_append, h.counted, List.length_append, List.length_singleton,
              List.range_succ, List.map_append, h.next]
            rfl
          · rw [hmore, hn, hc, List.length_append, List.length_singleton, UInt32.ofNat_add, h.next]
            rfl
          · rw [hr] at hin
            rcases List.mem_append.mp hin with hin | hin
            · exact h.others r hin hrc
            · rw [List.mem_singleton.mp hin, hc] at hrc
              cases hrc

theorem Numbered.of_concat {s : Service} {reports : List Status} (h : Numbered s)
    (hr : s.reports = reports ∨ ∃ r, s.reports = reports ++ [r]) :
    (progress reports).map Status.checkPoint =
        (List.range (progress reports).length).map (fun k => UInt32.ofNat (k + 1)) ∧
      ∀ r ∈ reports, hasCheckPoint r.state = false → r.checkPoint = 0 := by
  have hstart : reports <+: s.reports := by
    rcases hr with hr | ⟨r, hr⟩
    · exact hr ▸ List.prefix_refl _
    · exact ⟨[r], hr.symm⟩
  have hprogress : progress reports <+: progress s.reports := hstart.filter _
  refine ⟨?_, fun r hin => h.others r (hstart.subset hin)⟩
  have htake := congrArg (List.take (progress reports).length) h.counted
  rw [← List.map_take, ← List.map_take, ← List.prefix_iff_eq_take.mp hprogress, List.take_range,
    Nat.min_eq_left hprogress.length_le] at htake
  exact htake

def wholeLife : List Label :=
  List.replicate 14 (.main true .returns) ++
    .control .pause :: List.replicate 14 (.handler .returns) ++
    .control .resume :: List.replicate 14 (.handler .throwsOther) ++
    .control .stop :: List.replicate 13 (.handler .returns)

/-- A stop that comes in the middle of the start: both threads read the same check point. -/
example : (exec step serviceBase (List.replicate 5 (.main true .returns) ++
    .control .stop :: List.replicate 4 (.handler .returns) ++
    List.replicate 3 (.main true .returns) ++ List.replicate 3 (.handler .returns))).map
      (fun s => s.reports.map Status.checkPoint) = some [1, 1] := by decide

/-- A control comes once the start is over, and not to a service that has stopped. -/
def Orderly (s : Service) : Label → Prop
  | .control _ => Started s ∧ s.status.state ≠ .stopped
  | _ => True

instance (s : Service) : (l : Label) → Decidable (Orderly s l)
  | .control _ => inferInstanceAs (Decidable (Started s ∧ s.status.state ≠ .stopped))
  | .main _ _ | .handler _ => inferInstanceAs (Decidable True)

def isSettled (state : ServiceState) : Bool :=
  state = .running || state = .paused || state = .stopped

def original : Handler → Option ServiceState
  | .stopping state | .inOnStop state => some state
  | _ => none

structure Ordered (s : Service) : Prop where
  early : s.main ≠ .finished → s.handler = .idle
  unreported : s.main ≠ .finished → s.main ≠ .inOnStart → s.reports = []
  pending : s.main ≠ .finished → s.status.state = .startPending
  busy : s.handler ≠ .idle → s.status.state ≠ .stopped
  settled : s.main = .finished → s.handler = .idle → isSettled s.status.state = true
  back : ∀ state, original s.handler = some state → isSettled state = true
  shutdown : s.handler = .inOnShutdown → isSettled s.status.state = true
  last : ∀ r, s.reports.getLast? = some r → r = s.status
  before : ∀ r ∈ s.reports.dropLast, r.state ≠ .stopped

section Ordered

variable {s s' : Service}

theorem Ordered.open (h : Ordered s) (hs : s.status.state ≠ .stopped) :
    ∀ r ∈ s.reports, r.state ≠ .stopped := by
  intro r hr
  rcases List.eq_nil_or_concat s.reports with hnil | ⟨before, last, hreports⟩
  · rw [hnil] at hr
    cases hr
  · rw [List.concat_eq_append] at hreports
    have hlast := h.last last (by rw [hreports, List.getLast?_concat])
    have hbefore := h.before
    rw [hreports, List.dropLast_concat] at hbefore
    rw [hreports] at hr
    rcases List.mem_append.mp hr with hr | hr
    · exact hbefore r hr
    · rw [List.mem_singleton.mp hr, hlast]
      exact hs

theorem Ordered.last_report (h : Ordered s) (state : ServiceState) (exitCode : UInt32)
    (hopen : s.reports = [] ∨ s.status.state ≠ .stopped) :
    (∀ r, (report s state exitCode).reports.getLast? = some r →
      r = (report s state exitCode).status) ∧
      ∀ r ∈ (report s state exitCode).reports.dropLast, r.state ≠ .stopped := by
  dsimp only [report]
  refine ⟨fun r hlast => ?_, fun r hin => ?_⟩
  · rw [List.getLast?_concat] at hlast
    exact (Option.some.inj hlast).symm
  · rw [List.dropLast_concat] at hin
    rcases hopen with hnil | hne
    · rw [hnil] at hin
      cases hin
    · exact h.open hne r hin

/-- OnStart is over, and the state is reported that it leads to. -/
theorem started_ordered (h : Ordered s) (hmain : s.main = .inOnStart) (state : ServiceState)
    (exitCode : UInt32) (hs : isSettled state = true) :
    Ordered { report s state exitCode with mainCall := none, main := .finished } := by
  have hidle := h.early (by rw [hmain]; nofun)
  have hne : s.status.state ≠ .stopped := by
    rw [h.pending (by rw [hmain]; nofun)]
    nofun
  obtain ⟨hlast, hbefore⟩ := h.last_report state exitCode (.inr hne)
  exact ⟨fun _ => hidle, fun hf => absurd rfl hf, fun hf => absurd rfl hf,
    fun hb => absurd hidle hb, fun _ _ => hs, h.back, fun hd => absurd (hidle.symm.trans hd) nofun,
    hlast, hbefore⟩

theorem main_ordered (h : Ordered s) (hm : s.mainCall = none) (hh : s.handlerCall = none)
    {registered : Bool} {outcome : Outcome}
    (ht : turn s (.main registered outcome) = some s') : Ordered s' := by
  rw [turn_main hm, serviceMain.eq_def] at ht
  split at ht
  next hmain =>
    obtain rfl := Option.some.inj ht
    have hidle := h.early (by simp [hmain])
    have hnil := h.unreported (by simp [hmain]) (by simp [hmain])
    have hpending := h.pending (by simp [hmain])
    rw [completed_calm]
    · cases registered <;>
        exact ⟨fun _ => hidle, fun _ _ => hnil, fun _ => hpending, fun hb => absurd hidle hb,
          by simp, h.back, h.shutdown, h.last, h.before⟩
    · exact hm
    · exact hh
  next hmain =>
    obtain rfl := Option.some.inj ht
    have hidle := h.early (by simp [hmain])
    have hnil := h.unreported (by simp [hmain]) (by simp [hmain])
    obtain ⟨hlast, hbefore⟩ := h.last_report .startPending 0 (.inl hnil)
    rw [completed_main]
    exact ⟨fun _ => hidle, fun _ hne => absurd rfl hne, fun _ => rfl, fun hb => absurd hidle hb,
      by simp, h.back, fun hd => absurd (hidle.symm.trans hd) (by simp), hlast, hbefore⟩
  next hmain =>
    obtain rfl := Option.some.inj ht
    cases outcome with
    | returns =>
        rw [completed_main]
        exact started_ordered h hmain .running 0 rfl
    | throws error =>
        rw [completed_main]
        exact started_ordered h hmain .stopped error rfl
    | throwsOther =>
        rw [completed_main]
        exact started_ordered h hmain .stopped 0 rfl
  next => cases ht
  next => cases ht

/-- A control is over, and the state is reported that it leads to. -/
theorem handled_ordered (h : Ordered s) (hbusy : s.handler ≠ .idle) (state : ServiceState)
    (hs : isSettled state = true) :
    Ordered { report s state 0 with handlerCall := none, handler := .idle } := by
  have hmain : s.main = .finished := by
    by_contra hne
    exact hbusy (h.early hne)
  obtain ⟨hlast, hbefore⟩ := h.last_report state 0 (.inr (h.busy hbusy))
  exact ⟨fun _ => rfl, fun hf => absurd hmain hf, fun hf => absurd hmain hf,
    fun hb => absurd rfl hb, fun _ _ => hs, nofun, nofun, hlast, hbefore⟩

theorem pending_ordered (h : Ordered s) (hbusy : s.handler ≠ .idle) (state : ServiceState)
    (hs : state ≠ .stopped) {handler : Handler} (hidle : handler ≠ .idle)
    (hback : ∀ o, original handler = some o → isSettled o = true)
    (hshut : handler ≠ .inOnShutdown) :
    Ordered { report s state 0 with handlerCall := none, handler := handler } := by
  have hmain : s.main = .finished := by
    by_contra hne
    exact hbusy (h.early hne)
  obtain ⟨hlast, hbefore⟩ := h.last_report state 0 (.inr (h.busy hbusy))
  exact ⟨fun hf => absurd hmain hf, fun hf => absurd hmain hf, fun hf => absurd hmain hf,
    fun _ => hs, fun _ hi => absurd hi hidle, hback, fun hd => absurd hd hshut, hlast, hbefore⟩

theorem handler_ordered (h : Ordered s) (hm : s.mainCall = none) (hh : s.handlerCall = none)
    {outcome : Outcome} (ht : turn s (.handler outcome) = some s') : Ordered s' := by
  rw [turn_handler hh, handlerNext.eq_def] at ht
  split at ht
  next => cases ht
  next state hhandler =>
    obtain rfl := Option.some.inj ht
    rw [completed_handler hm]
    refine pending_ordered h (by simp [hhandler]) .stopPending (by simp) (by simp) ?_ (by simp)
    intro o ho
    exact h.back o (by rw [hhandler]; exact ho)
  next state hhandler =>
    obtain rfl := Option.some.inj ht
    rw [completed_handler hm]
    refine handled_ordered h (by simp [hhandler]) _ ?_
    split
    next => rfl
    next => exact h.back state (by rw [hhandler]; rfl)
  next hhandler =>
    obtain rfl := Option.some.inj ht
    rw [completed_handler hm]
    exact pending_ordered h (by simp [hhandler]) .pausePending (by simp) (by simp)
      (by simp [original]) (by simp)
  next hhandler =>
    obtain rfl := Option.some.inj ht
    rw [completed_handler hm]
    exact handled_ordered h (by simp [hhandler]) _ (by split <;> rfl)
  next hhandler =>
    obtain rfl := Option.some.inj ht
    rw [completed_handler hm]
    exact pending_ordered h (by simp [hhandler]) .continuePending (by simp) (by simp)
      (by simp [original]) (by simp)
  next hhandler =>
    obtain rfl := Option.some.inj ht
    rw [completed_handler hm]
    exact handled_ordered h (by simp [hhandler]) _ (by split <;> rfl)
  next hhandler =>
    split at ht
    next =>
      obtain rfl := Option.some.inj ht
      rw [completed_handler hm]
      exact handled_ordered h (by simp [hhandler]) .stopped rfl
    next =>
      obtain rfl := Option.some.inj ht
      have hmain : s.main = .finished := by
        by_contra hne
        exact absurd (hhandler.symm.trans (h.early hne)) (by simp)
      rw [completed_calm]
      · exact ⟨fun _ => rfl, fun hf => absurd hmain hf, fun hf => absurd hmain hf,
          fun hb => absurd rfl hb, fun _ _ => h.shutdown hhandler, by simp [original], by simp,
          h.last, h.before⟩
      · exact hm
      · exact hh

theorem control_ordered (h : Ordered s) (hidle : s.handler = .idle) (hmain : s.main = .finished)
    (hne : s.status.state ≠ .stopped) (control : Control) :
    Ordered (serviceCtrlHandler s control) := by
  have hsettled := h.settled hmain hidle
  have hfin : ∀ {p : Prop}, s.main ≠ .finished → p := fun hf => absurd hmain hf
  cases control with
  | stop =>
      refine ⟨hfin, fun hf => hfin hf, hfin, fun _ => hne, nofun, fun o ho => ?_, nofun, h.last,
        h.before⟩
      rw [← Option.some.inj ho]
      exact hsettled
  | pause | resume =>
      exact ⟨hfin, fun hf => hfin hf, hfin, fun _ => hne, nofun, nofun, nofun, h.last, h.before⟩
  | shutdown =>
      exact ⟨hfin, fun hf => hfin hf, hfin, fun _ => hne, nofun, nofun, fun _ => hsettled,
        h.last, h.before⟩
  | interrogate => exact h

theorem turn_ordered {l : Label} (h : Ordered s) (hm : s.mainCall = none)
    (hh : s.handlerCall = none) (hl : Orderly s l) (ht : turn s l = some s') : Ordered s' := by
  cases l with
  | main registered outcome => exact main_ordered h hm hh ht
  | control control =>
      rw [turn, step] at ht
      split at ht
      next hidle =>
        obtain rfl := Option.some.inj ht
        obtain ⟨hstarted, hne⟩ := hl
        have hordered := control_ordered h hidle.1 hstarted.1 hne control
        rw [completed_calm]
        · exact hordered
        · cases control <;> exact hm
        · cases control <;> exact hh
      next => cases ht
  | handler outcome => exact handler_ordered h hm hh ht

end Ordered

theorem serviceBase_ordered : Ordered serviceBase := by
  constructor <;> simp [serviceBase, original]

/-- A stop that comes while OnStart runs: the service is reported as running once it has
stopped. -/
example : (exec step serviceBase (List.replicate 8 (.main true .returns) ++
    .control .stop :: List.replicate 13 (.handler .returns) ++
    List.replicate 6 (.main true .returns))).map (fun s => s.reports.map Status.state) =
    some [.startPending, .stopPending, .stopped, .running] := by decide

/-- Where that stop fails, the service stays as if it had not started. -/
example : (exec step serviceBase (List.replicate 8 (.main true .returns) ++
    .control .stop :: List.replicate 7 (.handler .returns) ++
    List.replicate 6 (.main true .returns) ++ List.replicate 7 (.handler .throwsOther))).map
      (fun s => s.reports.map Status.state) =
    some [.startPending, .stopPending, .running, .startPending] := by decide

end Ashe.ServiceReports
