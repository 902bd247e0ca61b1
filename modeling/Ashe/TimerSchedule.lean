import Mathlib.Algebra.Group.Int.Defs
import Ashe.TimerOrder

namespace Ashe.TimerSchedule

open TimerManager TimerSteps TimerIds TimerRemoval TimerOrder Runs

def firingsOf (firings : List Firing) (k : Nat) : List Firing :=
  firings.filter (fun f => f.handler = k)

def times (firings : List Firing) (k : Nat) : Nat := (firingsOf firings k).length

/-- The entry is for the deadline that comes next when its handler has been
called n times. -/
def Due (s : State) (n : Nat → Nat) (te : TimeEvent) : Prop :=
  ∀ e, s.events[te.ref]? = some e → te.next = e.start + n e.handler * (1000 * e.period)

def Past (s : State) (n : Nat → Nat) (te : TimeEvent) : Prop :=
  ∀ e, s.events[te.ref]? = some e →
    te.next + 1000 * e.period = e.start + n e.handler * (1000 * e.period)

/-- The counts that are computed for the entry that a step puts back. -/
def sums (s : State) : Label → List Int
  | .relock =>
      match s.worker with
      | .returned te =>
          ((s.events[te.ref]?).filter fun e => e.valid && 0 < e.period).toList.flatMap
            fun e => [1000 * e.period, te.next + 1000 * e.period]
      | _ => []
  | _ => []

/-- The period and the next deadline are counts of 64 bits. -/
def InRange (b : Book) (l : Label) : Prop :=
  ∀ n ∈ sums b.timers l, -2 ^ 63 ≤ n ∧ n < 2 ^ 63

instance (b : Book) (l : Label) : Decidable (InRange b l) :=
  inferInstanceAs (Decidable (∀ n ∈ sums b.timers l, -2 ^ 63 ≤ n ∧ n < 2 ^ 63))

theorem wrap_fits {n : Int} (h : -2 ^ 63 ≤ n ∧ n < 2 ^ 63) : wrap n = n := by
  rw [wrap]
  apply Int.bmod_eq_of_le <;> omega

theorem InRange.plusPeriod {b : Book} (h : InRange b .relock) {te : TimeEvent} {e : TimerData}
    (hw : b.timers.worker = .returned te) (he : b.timers.events[te.ref]? = some e)
    (hv : e.valid = true) (hp : 0 < e.period) :
    TimerManager.plusPeriod te.next e.period = te.next + 1000 * e.period := by
  have hsums : sums b.timers .relock = [1000 * e.period, te.next + 1000 * e.period] := by
    simp [sums, hw, he, hv, hp, Option.filter]
  rw [InRange, hsums] at h
  have hperiod := h (1000 * e.period) (by simp)
  have hsum := h (te.next + 1000 * e.period) (by simp)
  rw [TimerManager.plusPeriod, wrap_fits hperiod, wrap_fits hsum]

def Revised (s s' : State) : Prop :=
  ∀ (i : Nat) e', s'.events[i]? = some e' → ∃ e, s.events[i]? = some e ∧
    e'.handler = e.handler ∧ e'.start = e.start ∧ e'.period = e.period

structure OnSchedule (b : Book) : Prop where
  calls : b.calls.length = b.timers.added
  data : ∀ (i : Nat) e, b.timers.events[i]? = some e →
    b.calls[e.handler]? = some (e.start, e.period)
  pending : ∀ te ∈ b.timers.timeEvents, Due b.timers (times b.firings) te
  fired : ∀ te, b.timers.worker = .fired te → Due b.timers (times b.firings) te
  called : ∀ te, b.timers.worker = .inHandler te ∨ b.timers.worker = .returned te →
    Past b.timers (times b.firings) te
  logged : b.firings.map Firing.handler = b.timers.started
  deadlines : ∀ (k i : Nat) f, (firingsOf b.firings k)[i]? = some f →
    ∃ w p, b.calls[k]? = some (w, p) ∧ f.deadline = w + i * (1000 * p)

theorem revised_same {s s' : State} (h : s'.events = s.events) : Revised s s' := by
  intro i e' he
  rw [h] at he
  exact ⟨e', he, rfl, rfl, rfl⟩

theorem revised_invalidate {s s' : State} {id : Nat} (h : s'.events = invalidate s.events id) :
    Revised s s' := by
  intro i e' he
  rw [h, invalidate_getElem?] at he
  obtain ⟨e, hold, rfl⟩ := Option.map_eq_some_iff.mp he
  refine ⟨e, hold, ?_⟩
  split <;> exact ⟨rfl, rfl, rfl⟩

theorem Due.revised {s s' : State} {n : Nat → Nat} {te : TimeEvent} (h : Due s n te)
    (hr : Revised s s') : Due s' n te := by
  intro e' he'
  obtain ⟨e, he, hh, hs, hp⟩ := hr _ e' he'
  rw [hh, hs, hp]
  exact h e he

theorem Past.revised {s s' : State} {n : Nat → Nat} {te : TimeEvent} (h : Past s n te)
    (hr : Revised s s') : Past s' n te := by
  intro e' he'
  obtain ⟨e, he, hh, hs, hp⟩ := hr _ e' he'
  rw [hh, hs, hp]
  exact h e he

theorem OnSchedule.same {b b' : Book} (h : OnSchedule b) (hc : b'.calls = b.calls)
    (hf : b'.firings = b.firings) (ha : b'.timers.added = b.timers.added)
    (hs : b'.timers.started = b.timers.started) (hr : Revised b.timers b'.timers)
    (hp : ∀ te ∈ b'.timers.timeEvents, Due b.timers (times b.firings) te)
    (hw : ∀ te, b'.timers.worker = .fired te → Due b.timers (times b.firings) te)
    (hl : ∀ te, b'.timers.worker = .inHandler te ∨ b'.timers.worker = .returned te →
      Past b.timers (times b.firings) te) : OnSchedule b' := by
  have ht : times b'.firings = times b.firings := by rw [hf]
  refine ⟨?_, ?_, ?_, ?_, ?_, ?_, ?_⟩
  · rw [hc, ha, h.calls]
  · intro i e' he'
    obtain ⟨e, he, hh, hstart, hperiod⟩ := hr i e' he'
    rw [hc, hh, hstart, hperiod]
    exact h.data i e he
  · rw [ht]
    exact fun te hte => (hp te hte).revised hr
  · rw [ht]
    exact fun te hte => (hw te hte).revised hr
  · rw [ht]
    exact fun te hte => (hl te hte).revised hr
  · rw [hf, hs, h.logged]
  · rw [hf, hc]
    exact h.deadlines

/-- A turn, after a step that adds no timer and calls no handler. -/
theorem turn_onSchedule {b b' : Book} (h : OnSchedule b) {s : State} (ht : b'.timers = turn s)
    (hc : b'.calls = b.calls) (hf : b'.firings = b.firings) (ha : s.added = b.timers.added)
    (hs : s.started = b.timers.started) (hr : Revised b.timers s)
    (hp : ∀ te ∈ s.timeEvents, Due b.timers (times b.firings) te) : OnSchedule b' := by
  obtain ⟨-, hevents, hadded, hsub⟩ := turn_keeps s
  have hrevised : Revised b.timers b'.timers := by
    intro i e' he'
    rw [ht, hevents] at he'
    exact hr i e' he'
  refine h.same hc hf (by rw [ht, hadded, ha]) (by rw [ht, turn_started, hs]) hrevised ?_ ?_ ?_
  · rw [ht]
    exact fun te hte => hp te (hsub.subset hte)
  · intro te hw
    rw [ht] at hw
    rcases turn_cases s with ⟨w, hno, he⟩ | ⟨first, rest, hcons, he⟩
    · rw [he] at hw
      rcases hno with rfl | rfl <;> cases hw
    · rw [he] at hw
      obtain rfl := Worker.fired.inj hw
      apply hp
      rw [hcons]
      exact List.mem_cons_self
  · intro te hw
    rw [ht] at hw
    rcases turn_cases s with ⟨w, hno, he⟩ | ⟨first, rest, hcons, he⟩
    · rw [he] at hw
      rcases hno with rfl | rfl <;> rcases hw with hw | hw <;> cases hw
    · rw [he] at hw
      rcases hw with hw | hw <;> cases hw

theorem OnSchedule.times_added {b : Book} (h : OnSchedule b) :
    times b.firings b.timers.added = 0 := by
  apply Nat.eq_zero_of_not_pos
  intro hpos
  have hget := List.getElem?_eq_getElem hpos
  obtain ⟨w, p, hcall, -⟩ := h.deadlines _ _ _ hget
  have hlt := (List.getElem?_eq_some_iff.mp hcall).1
  rw [h.calls] at hlt
  omega

theorem add_onSchedule {b : Book} (h : OnSchedule b) (hp : Partition b.timers)
    (when period : Int) : OnSchedule ⟨(add b.timers when period).1,
      insertedAfter b (.add when period), serialAfter b (.add when period),
      callsAfter b (.add when period), firingsAfter b (.add when period)⟩ := by
  obtain ⟨hadded, hworker, hstarted, htime⟩ := add_fields b.timers when period
  obtain ⟨hpending, hheld⟩ := hp.add_fresh when period
  have hold : ∀ (te : TimeEvent) e, te.ref ∈ refs b.timers ++ held b.timers →
      (add b.timers when period).1.events[te.ref]? = some e →
      b.timers.events[te.ref]? = some e := by
    intro te e hmem he
    rcases add_getElem? he with ⟨hid, -⟩ | ⟨-, he⟩
    · rw [hid] at hmem
      exact ((List.mem_append.mp hmem).elim hpending hheld).elim
    · exact he
  have hcalls : ∀ {k : Nat} {c : Int × Int}, b.calls[k]? = some c →
      (b.calls ++ [(when, period)])[k]? = some c := by
    intro k c hk
    rw [List.getElem?_append_left (List.getElem?_eq_some_iff.mp hk).1, hk]
  refine ⟨?_, ?_, ?_, ?_, ?_, ?_, ?_⟩
  · dsimp only [callsAfter]
    rw [List.length_append, List.length_singleton, h.calls, hadded]
  · intro i e he
    dsimp only [callsAfter] at he ⊢
    rcases add_getElem? he with ⟨-, hhandler, hstart, hperiod⟩ | ⟨-, he⟩
    · rw [hhandler, hstart, hperiod, ← h.calls, List.getElem?_append_right (Nat.le_refl _),
        Nat.sub_self]
      rfl
    · exact hcalls (h.data i e he)
  · intro te hte e he
    dsimp only at hte he
    rw [htime] at hte
    rcases mem_insertEvent hte with rfl | hte
    · rcases add_getElem? he with ⟨-, hhandler, hstart, -⟩ | ⟨hne, -⟩
      · have hzero : times b.firings b.timers.added = 0 := h.times_added
        change when = e.start + (times b.firings e.handler : Int) * (1000 * e.period)
        rw [hhandler, hstart, hzero]
        omega
      · exact absurd rfl hne
    · have hmem : te.ref ∈ refs b.timers ++ held b.timers :=
        List.mem_append_left _ (List.mem_map_of_mem hte)
      exact h.pending te hte e (hold te e hmem he)
  · intro te hw e he
    dsimp only at hw he
    rw [hworker] at hw
    have hmem : te.ref ∈ refs b.timers ++ held b.timers := by
      rw [held, hw]
      simp
    exact h.fired te hw e (hold te e hmem he)
  · intro te hw e he
    dsimp only at hw he
    rw [hworker] at hw
    have hmem : te.ref ∈ refs b.timers ++ held b.timers := by
      rcases hw with hw | hw <;>
      · rw [held, hw]
        simp
    exact h.called te hw e (hold te e hmem he)
  · dsimp only [firingsAfter]
    rw [h.logged, hstarted]
  · intro k i f hf
    obtain ⟨w, p, hcall, hdeadline⟩ := h.deadlines k i f hf
    exact ⟨w, p, hcalls hcall, hdeadline⟩

theorem firingsOf_append (firings : List Firing) (f : Firing) (k : Nat) :
    firingsOf (firings ++ [f]) k =
      if f.handler = k then firingsOf firings k ++ [f] else firingsOf firings k := by
  rw [firingsOf, List.filter_append]
  split
  next h => simp [firingsOf, h]
  next h => simp [firingsOf, h]

theorem start_onSchedule {b : Book} (h : OnSchedule b) (hp : Partition b.timers)
    (hreg : Registered b.timers) {te : TimeEvent} {e : TimerData}
    (hw : b.timers.worker = .fired te) (he : b.timers.events[te.ref]? = some e) :
    OnSchedule ⟨{ b.timers with
        worker := .inHandler te, started := b.timers.started ++ [e.handler] },
      b.inserted, b.serial, b.calls, b.firings ++ [⟨e.handler, te.next, b.timers.now⟩]⟩ := by
  have hdue := h.fired te hw e he
  have hnot : te.ref ∉ refs b.timers := by
    apply held_not_pending hp
    rw [held, hw]
    exact List.mem_singleton_self _
  have htimes : ∀ k, times (b.firings ++ [⟨e.handler, te.next, b.timers.now⟩]) k =
      if e.handler = k then times b.firings k + 1 else times b.firings k := by
    intro k
    rw [times, firingsOf_append]
    split
    next => rw [List.length_append, List.length_singleton, times]
    next => rw [times]
  refine ⟨h.calls, h.data, ?_, by simp, ?_, ?_, ?_⟩
  · intro te' hte' e' he'
    have hne : e.handler ≠ e'.handler := by
      intro heq
      have href := hreg.injective te.ref te'.ref e'.handler (by rw [handlerOf, he, ← heq]; rfl)
        (by rw [handlerOf, he']; rfl)
      exact hnot (href ▸ List.mem_map_of_mem hte')
    have hcount := htimes e'.handler
    rw [if_neg hne] at hcount
    have hold := h.pending te' hte' e' he'
    rw [← hcount] at hold
    exact hold
  · rintro te' (hw' | hw')
    · obtain rfl := Worker.inHandler.inj hw'
      intro e' he'
      obtain rfl := Option.some.inj (he.symm.trans he')
      have hcount := htimes e.handler
      rw [if_pos rfl] at hcount
      dsimp only
      rw [hcount, hdue, Int.natCast_add, Int.add_mul]
      omega
    · cases hw'
  · simp [h.logged]
  · intro k i f hf
    dsimp only at hf ⊢
    rw [firingsOf_append] at hf
    split at hf
    next hk =>
      by_cases hi : i < (firingsOf b.firings k).length
      · rw [List.getElem?_append_left hi] at hf
        exact h.deadlines k i f hf
      · rw [List.getElem?_append_right (by omega)] at hf
        obtain ⟨hlt, hget⟩ := List.getElem?_eq_some_iff.mp hf
        rw [List.length_singleton] at hlt
        rw [List.getElem_singleton] at hget
        have hcount : i = times b.firings k := by
          rw [times]
          omega
        subst hk
        refine ⟨e.start, e.period, h.data _ e he, ?_⟩
        rw [← hget, hcount]
        exact hdue
    next => exact h.deadlines k i f hf

theorem step_onSchedule {b b' : Book} {l : Label} (hp : Partition b.timers)
    (hreg : Registered b.timers) (h : OnSchedule b) (hrange : InRange b l)
    (hs : TimerOrder.step b l = some b') : OnSchedule b' := by
  obtain ⟨s, ht, rfl⟩ := Option.map_eq_some_iff.mp hs
  have hm := step_moves ht
  cases hm with
  | tick | destory =>
      exact h.same rfl rfl rfl rfl (revised_same rfl) h.pending h.fired h.called
  | init hw =>
      exact h.same rfl rfl rfl rfl (revised_same rfl) h.pending (by simp) (by simp)
  | @endHandler te throws hw =>
      refine h.same rfl rfl rfl rfl (revised_same rfl) h.pending (by simp) ?_
      rintro te' (hw' | hw')
      · cases hw'
      · obtain rfl := Worker.returned.inj hw'
        exact h.called te (.inl hw)
  | remove id =>
      obtain ⟨hsub, -, hworker, hadded, hevents⟩ := remove_keeps b.timers id
      have hrevised : Revised b.timers (remove b.timers id).1 := by
        rcases hevents with he | he
        · exact revised_same he
        · exact revised_invalidate he
      have hstarted : (remove b.timers id).1.started = b.timers.started := by
        rcases remove_cases b.timers id with he | ⟨-, -, he⟩ | ⟨_, _, _, -, -, -, he⟩ <;> rw [he]
      refine h.same rfl rfl hadded hstarted hrevised ?_ ?_ ?_
      · exact fun te hte => h.pending te (hsub.subset hte)
      · dsimp only
        rw [hworker]
        exact h.fired
      · dsimp only
        rw [hworker]
        exact h.called
  | add when period => exact add_onSchedule h hp when period
  | wake hw => exact turn_onSchedule h rfl rfl rfl rfl rfl (revised_same rfl) h.pending
  | @startHandler te e hw he =>
      have hstart := start_onSchedule h hp hreg hw he
      have hfirings : firingsAfter b .startHandler =
          b.firings ++ [⟨e.handler, te.next, b.timers.now⟩] := by
        rw [firingsAfter, hw]
        dsimp only
        rw [he]
        rfl
      rw [hfirings]
      exact hstart
  | @relock te t hw hsettle =>
      obtain ⟨e, he, ⟨hvalid, hperiod, rfl⟩ | rfl⟩ := settle_cases hsettle
      · -- the entry in hand goes back for the deadline after the one it was for
        have hpending : ∀ te' ∈ insertEvent { te with next := plusPeriod te.next e.period }
            b.timers.timeEvents, Due b.timers (times b.firings) te' := by
          intro te' hte'
          rcases mem_insertEvent hte' with rfl | hte'
          · intro e' he'
            obtain rfl := Option.some.inj (he.symm.trans he')
            exact (hrange.plusPeriod hw he hvalid hperiod).trans (h.called te (.inr hw) e he)
          · exact h.pending te' hte'
        exact turn_onSchedule h rfl rfl rfl rfl rfl (revised_same rfl) hpending
      · exact turn_onSchedule h rfl rfl rfl rfl rfl (revised_invalidate rfl) h.pending

theorem empty_onSchedule (now : Int) : OnSchedule (empty now) := by
  refine ⟨rfl, ?_, ?_, ?_, ?_, rfl, ?_⟩
  · intro i e he
    simp [empty, initial] at he
  · intro te hte
    simp [empty, initial] at hte
  · intro te hw
    simp [empty, initial] at hw
  · intro te hw
    simp [empty, initial] at hw
  · intro k i f hf
    simp [empty, firingsOf] at hf

theorem exec_onSchedule {now : Int} {ls : List Label} {b : Book}
    (hrange : Along TimerOrder.step (fun b l _ => InRange b l) (empty now) ls)
    (h : exec TimerOrder.step (empty now) ls = some b) : OnSchedule b := by
  have hstep : ∀ b l b', Partition b.timers ∧ Registered b.timers ∧ OnSchedule b →
      InRange b l → TimerOrder.step b l = some b' →
      Partition b'.timers ∧ Registered b'.timers ∧ OnSchedule b' := by
    rintro b l b' ⟨hp, hr, ho⟩ hi hs
    have hm := step_timers hs
    exact ⟨moves_partition hp hm, moves_registered hr hm, step_onSchedule hp hr ho hi hs⟩
  have hregistered : Registered (initial now) := reachable_registered ⟨[], rfl⟩
  exact (exec_of_invariant hstep ⟨initial_partition now, hregistered, empty_onSchedule now⟩ hrange
    h).2.2

/-- The handlers are called when they are due, in the order of their deadlines
and insertions, and each for one deadline after the other. -/
structure FiresInOrder (b : Book) : Prop where
  logged : b.firings.map Firing.handler = b.timers.started
  late : ∀ f ∈ b.firings, f.deadline ≤ f.time
  taken : ∀ l b', l = .wake ∨ l = .relock → TimerOrder.step b l = some b' →
    ∀ te, b'.timers.worker = .fired te → ∀ te' ∈ b'.timers.timeEvents, Before b'.serial te te'
  deadlines : ∀ (k i : Nat) f, (firingsOf b.firings k)[i]? = some f →
    ∃ w p, b.calls[k]? = some (w, p) ∧ f.deadline = w + i * (1000 * p)

theorem taken_first {b b' : Book} {l : Label} (hp : Partition b.timers) (h : InOrder b)
    (hl : l = .wake ∨ l = .relock) (hs : TimerOrder.step b l = some b') {te : TimeEvent}
    (hw : b'.timers.worker = .fired te) :
    ∀ te' ∈ b'.timers.timeEvents, Before b'.serial te te' := by
  obtain ⟨s, ht, rfl⟩ := Option.map_eq_some_iff.mp hs
  have hm := step_moves ht
  cases hm with
  | wake hblocked => exact (turn_takes h.sorted hw).2
  | @relock te' t hreturned hsettle =>
      have hpending : te'.ref ∉ refs b.timers := by
        apply held_not_pending hp
        rw [held, hreturned]
        exact List.mem_singleton_self _
      obtain ⟨e, he, ⟨hback, rfl⟩ | ⟨hback, rfl⟩⟩ := settle_reinserted hreturned hsettle
      · obtain ⟨hserial, -⟩ := @after_insert b .relock _ hback
        refine (turn_takes ?_ hw).2
        dsimp only
        rw [hserial]
        exact (insert_inOrder h { te' with next := plusPeriod te'.next e.period } hpending).1
      · obtain ⟨hserial, -⟩ := @after_none b .relock hback
        refine (turn_takes ?_ hw).2
        dsimp only
        rw [hserial]
        exact h.sorted
  | tick | init | destory | add | remove | startHandler | endHandler => simp at hl

/-- The timers fire in order and without drift in every run whose deadlines the
clock can count. -/
theorem inRange_firesInOrder (now : Int) (ls : List Label) (b : Book)
    (hrange : Along TimerOrder.step (fun b l _ => InRange b l) (empty now) ls)
    (h : exec TimerOrder.step (empty now) ls = some b) : FiresInOrder b := by
  have hschedule := exec_onSchedule hrange h
  have hreachable : Reachable TimerOrder.step (empty now) b := ⟨ls, h⟩
  have hpartition := reachable_partition (reachable_timers hreachable)
  refine ⟨hschedule.logged, (reachable_inOrder hreachable).late, ?_, hschedule.deadlines⟩
  intro l b' hl hs te hw
  exact taken_first hpartition (reachable_inOrder hreachable) hl hs hw

/-- A periodic timer that is called late twice, and one added for the same time
as its second deadline. -/
def lateTwice : List Label :=
  [.init, .add 0 5, .tick 7000, .wake, .startHandler, .add 5000 0, .endHandler true, .relock,
    .startHandler, .endHandler false, .relock, .startHandler]

theorem inRange_firesInOrder_lateTwice : ∃ b,
    exec TimerOrder.step (empty 0) lateTwice = some b ∧
    b.firings = [⟨0, 0, 7000⟩, ⟨1, 5000, 7000⟩, ⟨0, 5000, 7000⟩] ∧ FiresInOrder b := by
  refine ⟨_, rfl, by decide +kernel, ?_⟩
  exact inRange_firesInOrder 0 lateTwice _ (by decide +kernel) rfl

/-- The longest period there is in microseconds, which has no count in
nanoseconds: the second deadline is before the first one. -/
theorem longest_period_early : ¬ ∀ now b, Reachable TimerOrder.step (empty now) b →
    FiresInOrder b := by
  intro h
  have hrun : exec TimerOrder.step (empty 0) [.init, .add 0 9223372036854775807, .wake,
    .startHandler, .endHandler false, .relock, .startHandler] = some _ := rfl
  have horder := h 0 _ ⟨_, hrun⟩
  obtain ⟨w, p, hcall, hdeadline⟩ := horder.deadlines 0 1 ⟨0, -1000, 0⟩ (by decide +kernel)
  obtain ⟨rfl, rfl⟩ : (0 : Int) = w ∧ 9223372036854775807 = p :=
    Prod.mk.inj (Option.some.inj hcall)
  exact absurd hdeadline (by decide)

end Ashe.TimerSchedule
