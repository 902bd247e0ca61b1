import Ashe.TimerManager

namespace Ashe.TimerSteps

open TimerManager

inductive Moves (s : State) : Label → State → Prop
  | tick (d : Nat) : Moves s (.tick d) { s with now := s.now + d }
  | init (hw : s.worker = .absent) : Moves s .init { s with worker := .blocked }
  | destory : Moves s .destory { s with done := true }
  | add (when period : Int) : Moves s (.add when period) (TimerManager.add s when period).1
  | remove (id : Nat) : Moves s (.remove id) (TimerManager.remove s id).1
  | wake (hw : s.worker = .blocked) : Moves s .wake (turn s)
  | startHandler {te : TimeEvent} {e : TimerData} (hw : s.worker = .fired te)
      (he : s.events[te.ref]? = some e) : Moves s .startHandler { s with
        worker := .inHandler te, started := s.started ++ [e.handler] }
  | endHandler {te : TimeEvent} (throws : Bool) (hw : s.worker = .inHandler te) :
      Moves s (.endHandler throws) { s with worker := .returned te }
  | relock {te : TimeEvent} {t : State} (hw : s.worker = .returned te) (ht : settle s te = some t) :
      Moves s .relock (turn t)

theorem step_moves {s s' : State} {l : Label} (h : step s l = some s') : Moves s l s' := by
  cases l with
  | tick d => obtain rfl := Option.some.inj h; exact .tick d
  | destory => obtain rfl := Option.some.inj h; exact .destory
  | add when period => obtain rfl := Option.some.inj h; exact .add when period
  | remove id => obtain rfl := Option.some.inj h; exact .remove id
  | init =>
      simp only [step] at h
      split at h
      next hw => obtain rfl := Option.some.inj h; exact .init hw
      next => exact absurd h (by simp)
  | wake =>
      simp only [step] at h
      split at h
      next hw => obtain rfl := Option.some.inj h; exact .wake hw
      next => exact absurd h (by simp)
  | startHandler =>
      simp only [step] at h
      split at h
      next te hw =>
        obtain ⟨e, he, rfl⟩ := Option.map_eq_some_iff.mp h
        exact .startHandler hw he
      next => exact absurd h (by simp)
  | endHandler throws =>
      simp only [step] at h
      split at h
      next te hw => obtain rfl := Option.some.inj h; exact .endHandler throws hw
      next => exact absurd h (by simp)
  | relock =>
      simp only [step] at h
      split at h
      next te hw =>
        obtain ⟨t, ht, rfl⟩ := Option.map_eq_some_iff.mp h
        exact .relock hw ht
      next => exact absurd h (by simp)

theorem insertEvent_refs (te : TimeEvent) (timeEvents : List TimeEvent) :
    ((insertEvent te timeEvents).map TimeEvent.ref).Perm (te.ref :: timeEvents.map TimeEvent.ref) :=
  (List.perm_orderedInsert _ te timeEvents).map TimeEvent.ref

theorem mem_insertEvent {te te' : TimeEvent} {timeEvents : List TimeEvent}
    (h : te ∈ insertEvent te' timeEvents) : te = te' ∨ te ∈ timeEvents :=
  List.mem_cons.mp ((List.perm_orderedInsert _ _ _).subset h)

@[simp] theorem invalidate_length (events : List TimerData) (id : Nat) :
    (invalidate events id).length = events.length := List.length_modify ..

theorem invalidate_getElem? (events : List TimerData) (id i : Nat) :
    (invalidate events id)[i]? =
      (events[i]?).map (fun e => if id = i then { e with valid := false } else e) := by
  rw [invalidate, List.getElem?_modify]
  by_cases hi : id = i <;> simp [hi]

theorem add_fields (s : State) (when period : Int) :
    (add s when period).1.added = s.added + 1 ∧ (add s when period).1.worker = s.worker ∧
      (add s when period).1.started = s.started ∧ (add s when period).1.timeEvents =
        insertEvent ⟨when, (add s when period).2⟩ s.timeEvents := by
  rw [add]
  split <;> exact ⟨rfl, rfl, rfl, rfl⟩

theorem add_getElem? {s : State} {when period : Int} {i : Nat} {e : TimerData}
    (h : (add s when period).1.events[i]? = some e) :
    (i = (add s when period).2 ∧ e.handler = s.added ∧ e.start = when ∧ e.period = period) ∨
      i ≠ (add s when period).2 ∧ s.events[i]? = some e := by
  rw [add] at h ⊢
  split at h
  next hfree =>
    dsimp only at h ⊢
    rw [List.getElem?_append] at h
    split at h
    next hi => exact .inr ⟨Nat.ne_of_lt hi, h⟩
    next hi =>
      obtain ⟨hk, he⟩ := List.getElem?_eq_some_iff.mp h
      have hz : i - s.events.length = 0 := by simpa using hk
      refine .inl ⟨by omega, ?_⟩
      rw [← he]
      simp
  next id rest hfree =>
    dsimp only at h ⊢
    rw [List.getElem?_set] at h
    split at h
    next hi =>
      split at h
      next =>
        obtain rfl := Option.some.inj h
        exact .inl ⟨hi.symm, rfl, rfl, rfl⟩
      next => exact absurd h (by simp)
    next hi => exact .inr ⟨Ne.symm hi, h⟩

theorem remove_cases (s : State) (id : Nat) :
    remove s id = (s, false) ∨
    (id < s.events.length ∧ (∀ te ∈ s.timeEvents, te.ref ≠ id) ∧
      remove s id = ({ s with events := invalidate s.events id }, true)) ∨
    ∃ before te after, id < s.events.length ∧ te.ref = id ∧
      s.timeEvents = before ++ te :: after ∧
      remove s id = ({ s with
        events := invalidate s.events id
        freeIds := id :: s.freeIds
        timeEvents := before ++ after }, true) := by
  rw [remove]
  split
  next => exact .inl rfl
  next hlen =>
    have hid : id < s.events.length := by
      simp only [Bool.or_eq_true, decide_eq_true_eq, not_or, Nat.not_le] at hlen
      exact hlen.2
    dsimp only
    split
    next te hfind =>
      have hte := List.find?_some hfind
      obtain ⟨te', before, after, hnone, hte', hsplit, herase⟩ :=
        List.exists_of_eraseP (p := fun te => te.ref == id) (List.mem_of_find?_eq_some hfind) hte
      rw [beq_iff_eq] at hte hte'
      refine .inr (.inr ⟨before, te', after, hid, hte', hsplit, ?_⟩)
      rw [herase, hte]
    next hfind =>
      refine .inr (.inl ⟨hid, ?_, rfl⟩)
      intro te hmem
      simpa using List.find?_eq_none.mp hfind te hmem

theorem turn_cases (s : State) :
    (∃ w, (w = .blocked ∨ w = .exited) ∧ turn s = { s with worker := w }) ∨
    ∃ te rest, s.timeEvents = te :: rest ∧
      turn s = { s with timeEvents := rest, worker := .fired te } := by
  rw [turn]
  split
  next => exact .inl ⟨.exited, .inr rfl, rfl⟩
  next =>
    split
    next => exact .inl ⟨.blocked, .inl rfl, rfl⟩
    next te rest hcons =>
      split
      next => exact .inr ⟨te, rest, hcons, rfl⟩
      next => exact .inl ⟨.blocked, .inl rfl, rfl⟩

/-- An entry goes back if its timer is periodic and has not been removed. -/
theorem settle_cases {s t : State} {te : TimeEvent} (h : settle s te = some t) :
    ∃ e, s.events[te.ref]? = some e ∧
      ((e.valid = true ∧ 0 < e.period ∧ t = { s with
          timeEvents := insertEvent { te with next := plusPeriod te.next e.period }
            s.timeEvents }) ∨
        t = { s with
          events := invalidate s.events te.ref, freeIds := te.ref :: s.freeIds }) := by
  obtain ⟨e, he, rfl⟩ := Option.map_eq_some_iff.mp h
  refine ⟨e, he, ?_⟩
  split
  next hv =>
    simp only [Bool.and_eq_true, decide_eq_true_eq] at hv
    exact .inl ⟨hv.1, hv.2, rfl⟩
  next => exact .inr rfl

end Ashe.TimerSteps
