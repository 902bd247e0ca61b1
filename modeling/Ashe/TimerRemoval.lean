import Ashe.TimerIds

namespace Ashe.TimerRemoval

open TimerManager TimerSteps TimerIds Runs

def Executing (s : State) (id : Nat) : Prop := ∃ te, s.worker = .inHandler te ∧ te.ref = id

/-- The worker has taken the timer out of time_events_ and given up the lock,
and is about to call its handler. -/
def AboutToCall (s : State) (id : Nat) : Prop := ∃ te, s.worker = .fired te ∧ te.ref = id

def handlerOf (s : State) (id : Nat) : Option Nat := (s.events[id]?).map TimerData.handler

/-- Different ids have different handlers, and none is one that a later add
will register. -/
structure Registered (s : State) : Prop where
  injective : ∀ i j k, handlerOf s i = some k → handlerOf s j = some k → i = j
  bound : ∀ i k, handlerOf s i = some k → k < s.added

/-- Nothing pending or fired leads to the handler, and should it be in the
worker's hands then it is not put back. -/
structure Silenced (s : State) (k : Nat) : Prop where
  bound : k < s.added
  pending : ∀ te ∈ s.timeEvents, handlerOf s te.ref ≠ some k
  fired : ∀ te, s.worker = .fired te → handlerOf s te.ref ≠ some k
  settles : ∀ te, s.worker = .inHandler te ∨ s.worker = .returned te →
    ∀ e, s.events[te.ref]? = some e → e.handler = k → e.valid = false

theorem invalidate_handlerOf {s t : State} {id : Nat} (ht : t.events = invalidate s.events id) :
    handlerOf t = handlerOf s := by
  funext i
  rw [handlerOf, handlerOf, ht, invalidate_getElem?, Option.map_map]
  congr 1
  funext e
  by_cases hi : id = i <;> simp [hi]

theorem add_handlerOf {s : State} {when period : Int} {i k : Nat}
    (h : handlerOf (add s when period).1 i = some k) :
    (i = (add s when period).2 ∧ k = s.added) ∨ handlerOf s i = some k := by
  obtain ⟨e, he, rfl⟩ := Option.map_eq_some_iff.mp h
  rcases add_getElem? he with ⟨hid, hnew, -⟩ | ⟨-, hold⟩
  · exact .inl ⟨hid, hnew⟩
  · exact .inr (Option.map_eq_some_iff.mpr ⟨e, hold, rfl⟩)

theorem Registered.congr {s t : State} (h : Registered s) (hk : handlerOf t = handlerOf s)
    (ha : t.added = s.added) : Registered t := by
  refine ⟨?_, ?_⟩
  · rw [hk]
    exact h.injective
  · rw [hk, ha]
    exact h.bound

theorem add_registered {s : State} (h : Registered s) (when period : Int) :
    Registered (add s when period).1 := by
  refine ⟨?_, ?_⟩
  · intro i j k hi hj
    rcases add_handlerOf hi with ⟨rfl, hk⟩ | hi
    · rcases add_handlerOf hj with ⟨rfl, -⟩ | hj
      · rfl
      · exact absurd (h.bound j k hj) (by omega)
    · rcases add_handlerOf hj with ⟨rfl, hk⟩ | hj
      · exact absurd (h.bound i k hi) (by omega)
      · exact h.injective i j k hi hj
  · intro i k hi
    rw [(add_fields s when period).1]
    rcases add_handlerOf hi with ⟨-, rfl⟩ | hi
    · exact Nat.lt_succ_self _
    · exact Nat.lt_succ_of_lt (h.bound i k hi)

theorem remove_registered {s : State} (h : Registered s) (id : Nat) :
    Registered (remove s id).1 := by
  rcases remove_cases s id with he | ⟨-, -, he⟩ | ⟨before, te, after, -, -, -, he⟩
  · rw [he]
    exact h
  · rw [he]
    exact h.congr (invalidate_handlerOf rfl) rfl
  · rw [he]
    exact h.congr (invalidate_handlerOf rfl) rfl

theorem turn_registered {s : State} (h : Registered s) : Registered (turn s) := by
  rcases turn_cases s with ⟨w, -, he⟩ | ⟨te, rest, -, he⟩ <;>
  · rw [he]
    exact h.congr rfl rfl

theorem settle_registered {s t : State} {te : TimeEvent} (h : Registered s)
    (ht : settle s te = some t) : Registered t := by
  obtain ⟨e, -, ⟨-, -, rfl⟩ | rfl⟩ := settle_cases ht
  · exact h.congr rfl rfl
  · exact h.congr (invalidate_handlerOf rfl) rfl

theorem moves_registered {s s' : State} {l : Label} (h : Registered s) (hm : Moves s l s') :
    Registered s' := by
  cases hm with
  | add when period => exact add_registered h when period
  | remove id => exact remove_registered h id
  | tick | destory | init | startHandler | endHandler => exact h.congr rfl rfl
  | wake => exact turn_registered h
  | relock _ ht => exact turn_registered (settle_registered h ht)

theorem reachable_registered {now : Int} {s : State} (h : Reachable step (initial now) s) :
    Registered s :=
  h.invariant (fun _ _ _ hr hs => moves_registered hr (step_moves hs))
    ⟨by simp [handlerOf, initial], by simp [handlerOf, initial]⟩

theorem add_silenced {s : State} {k : Nat} (h : Silenced s k) (when period : Int) :
    Silenced (add s when period).1 k := by
  obtain ⟨hadded, hworker, -, htime⟩ := add_fields s when period
  have hold : ∀ i (e : TimerData), (add s when period).1.events[i]? = some e → e.handler = k →
      i ≠ (add s when period).2 ∧ s.events[i]? = some e := by
    intro i e he hk
    rcases add_getElem? he with ⟨-, hnew, -⟩ | hold
    · exact absurd h.bound (by omega)
    · exact hold
  have hof : ∀ i, handlerOf (add s when period).1 i = some k →
      i ≠ (add s when period).2 ∧ handlerOf s i = some k := by
    intro i hi
    obtain ⟨e, he, hk⟩ := Option.map_eq_some_iff.mp hi
    obtain ⟨hne, he⟩ := hold i e he hk
    exact ⟨hne, Option.map_eq_some_iff.mpr ⟨e, he, hk⟩⟩
  refine ⟨?_, ?_, ?_, ?_⟩
  · rw [hadded]
    exact Nat.lt_succ_of_lt h.bound
  · intro te hte hk
    rw [htime] at hte
    rcases mem_insertEvent hte with rfl | hte
    · exact (hof _ hk).1 rfl
    · exact h.pending te hte (hof _ hk).2
  · intro te hte hk
    exact h.fired te (hworker ▸ hte) (hof _ hk).2
  · intro te hte e he hk
    exact h.settles te (hworker ▸ hte) e (hold _ e he hk).2 hk

/-- What remove and settle do to the timers only makes more of them invalid. -/
theorem invalidate_settles {s t : State} {id k : Nat} (h : Silenced s k)
    (ht : t.events = invalidate s.events id) {te : TimeEvent} (hw : s.worker = .inHandler te ∨
      s.worker = .returned te) {e : TimerData} (he : t.events[te.ref]? = some e)
    (hk : e.handler = k) : e.valid = false := by
  rw [ht, invalidate_getElem?] at he
  obtain ⟨d, hd, rfl⟩ := Option.map_eq_some_iff.mp he
  split at hk
  next hid => rw [if_pos hid]
  next hid =>
    rw [if_neg hid]
    exact h.settles te hw d hd hk

theorem remove_silenced {s : State} {k : Nat} (h : Silenced s k) (id : Nat) :
    Silenced (remove s id).1 k := by
  rcases remove_cases s id with he | ⟨-, -, he⟩ | ⟨before, te, after, -, -, hsplit, he⟩
  · rw [he]
    exact h
  · rw [he]
    refine ⟨h.bound, ?_, ?_, fun te hw e => invalidate_settles h rfl hw⟩
    · rw [invalidate_handlerOf rfl]
      exact h.pending
    · rw [invalidate_handlerOf rfl]
      exact h.fired
  · rw [he]
    refine ⟨h.bound, ?_, ?_, fun te hw e => invalidate_settles h rfl hw⟩
    · intro te' hmem
      rw [invalidate_handlerOf rfl]
      refine h.pending te' ?_
      rw [hsplit]
      rcases List.mem_append.mp hmem with hmem | hmem
      · exact List.mem_append_left _ hmem
      · exact List.mem_append_right _ (List.mem_cons_of_mem _ hmem)
    · rw [invalidate_handlerOf rfl]
      exact h.fired

/-- The first entry is the only one that a turn brings nearer to a call. -/
theorem turn_silenced {s : State} {k : Nat} (hb : k < s.added)
    (h : ∀ te ∈ s.timeEvents, handlerOf s te.ref ≠ some k) : Silenced (turn s) k := by
  rcases turn_cases s with ⟨w, hw, he⟩ | ⟨te, rest, hcons, he⟩
  · rw [he]
    refine ⟨hb, h, ?_, ?_⟩
    · intro te hte
      rcases hw with rfl | rfl <;> cases hte
    · intro te hte
      rcases hw with rfl | rfl <;> rcases hte with hte | hte <;> cases hte
  · rw [he]
    rw [hcons] at h
    refine ⟨hb, fun te' hmem => h te' (List.mem_cons_of_mem _ hmem), ?_, ?_⟩
    · intro te' hte
      obtain rfl := Worker.fired.inj hte
      exact h te List.mem_cons_self
    · intro te' hte
      rcases hte with hte | hte <;> cases hte

theorem settle_silenced {s t : State} {k : Nat} {te : TimeEvent} (h : Silenced s k)
    (hw : s.worker = .returned te) (ht : settle s te = some t) :
    k < t.added ∧ ∀ te ∈ t.timeEvents, handlerOf t te.ref ≠ some k := by
  obtain ⟨e, he, ⟨hv, -, rfl⟩ | rfl⟩ := settle_cases ht
  · refine ⟨h.bound, fun te' hmem => ?_⟩
    rcases mem_insertEvent hmem with rfl | hmem
    · intro hk
      obtain ⟨d, hd, hk⟩ := Option.map_eq_some_iff.mp hk
      obtain rfl : e = d := Option.some.inj (he.symm.trans hd)
      have hno := h.settles te (.inr hw) e he hk
      exact absurd (hv.symm.trans hno) (by simp)
    · exact h.pending te' hmem
  · refine ⟨h.bound, ?_⟩
    rw [invalidate_handlerOf rfl]
    exact h.pending

theorem Silenced.congr {s t : State} {k : Nat} (h : Silenced s k) (hev : t.events = s.events)
    (ha : t.added = s.added) (htime : t.timeEvents = s.timeEvents)
    (hf : ∀ te, t.worker = .fired te → s.worker = .fired te)
    (hr : ∀ te, t.worker = .inHandler te ∨ t.worker = .returned te →
      handlerOf s te.ref = some k → s.worker = .inHandler te ∨ s.worker = .returned te) :
    Silenced t k := by
  have hof : handlerOf t = handlerOf s := by
    funext i
    rw [handlerOf, handlerOf, hev]
  refine ⟨by rw [ha]; exact h.bound, ?_, ?_, ?_⟩
  · rw [htime, hof]
    exact h.pending
  · intro te hw
    rw [hof]
    exact h.fired te (hf te hw)
  · intro te hw e he hk
    rw [hev] at he
    exact h.settles te (hr te hw (Option.map_eq_some_iff.mpr ⟨e, he, hk⟩)) e he hk

theorem moves_silenced {s s' : State} {l : Label} {k : Nat} (h : Silenced s k)
    (hm : Moves s l s') : Silenced s' k := by
  cases hm with
  | tick | destory => exact h.congr rfl rfl rfl (fun _ => id) (fun _ hw _ => hw)
  | add when period => exact add_silenced h when period
  | remove id => exact remove_silenced h id
  | init hw => exact h.congr rfl rfl rfl (by simp) (by simp)
  | wake => exact turn_silenced h.bound h.pending
  | @startHandler te e hw he =>
      refine h.congr rfl rfl rfl (by simp) ?_
      rintro te' (hw' | hw') hk
      · obtain rfl := Worker.inHandler.inj hw'
        exact absurd hk (h.fired te hw)
      · cases hw'
  | @endHandler te throws hw =>
      refine h.congr rfl rfl rfl (by simp) ?_
      rintro te' (hw' | hw') -
      · cases hw'
      · obtain rfl := Worker.returned.inj hw'
        exact .inl hw
  | relock hw ht =>
      obtain ⟨hb, hp⟩ := settle_silenced h hw ht
      exact turn_silenced hb hp

theorem not_starts {s s' : State} {k : Nat} (h : s'.started = s.started) : k ∉ starts s s' := by
  rw [starts, h, List.drop_length]
  simp

theorem turn_started (s : State) : (turn s).started = s.started := by
  rcases turn_cases s with ⟨w, -, he⟩ | ⟨te, rest, -, he⟩ <;> rw [he]

theorem moves_starts {s s' : State} {l : Label} {k : Nat} (h : Silenced s k)
    (hm : Moves s l s') : k ∉ starts s s' := by
  cases hm with
  | tick | destory | init | endHandler => exact not_starts rfl
  | add when period => exact not_starts (add_fields s when period).2.2.1
  | remove id =>
      apply not_starts
      rcases remove_cases s id with he | ⟨-, -, he⟩ | ⟨before, te, after, -, -, -, he⟩ <;> rw [he]
  | wake => exact not_starts (turn_started s)
  | @startHandler te e hw he =>
      intro hk
      simp only [starts, List.drop_left, List.mem_singleton] at hk
      exact h.fired te hw (by rw [handlerOf, he, hk]; rfl)
  | relock _ ht =>
      apply not_starts
      rw [turn_started]
      obtain ⟨e, -, ⟨-, -, rfl⟩ | rfl⟩ := settle_cases ht <;> rfl

/-- Unless the worker is about to call it, a successful remove silences the
handler that is registered for the id. -/
theorem remove_silences {s t : State} (hp : Partition s) (hr : Registered s) {id k : Nat}
    (hk : handlerOf s id = some k) (hrem : remove s id = (t, true)) (hcall : ¬ AboutToCall s id) :
    Silenced t k := by
  have honly : ∀ i, handlerOf s i = some k → i = id := fun i hi => hr.injective i id k hi hk
  have hsettles : ∀ (te : TimeEvent) (e : TimerData), (invalidate s.events id)[te.ref]? = some e →
      e.handler = k → e.valid = false := by
    intro te e he hek
    rw [invalidate_getElem?] at he
    obtain ⟨d, hd, rfl⟩ := Option.map_eq_some_iff.mp he
    have hid : id = te.ref := by
      refine (honly te.ref (Option.map_eq_some_iff.mpr ⟨d, hd, ?_⟩)).symm
      split at hek <;> exact hek
    rw [if_pos hid]
  have hfired : ∀ te, s.worker = .fired te → handlerOf s te.ref ≠ some k :=
    fun te hw hi => hcall ⟨te, hw, honly _ hi⟩
  rcases remove_cases s id with he | ⟨-, hnone, he⟩ | ⟨before, te, after, -, hte, hsplit, he⟩
  · rw [he] at hrem
    cases hrem
  · rw [he] at hrem
    cases hrem
    refine ⟨hr.bound id k hk, ?_, ?_, fun te _ e => hsettles te e⟩
    · intro te hmem hi
      rw [invalidate_handlerOf rfl] at hi
      exact hnone te hmem (honly _ hi)
    · rw [invalidate_handlerOf rfl]
      exact hfired
  · rw [he] at hrem
    cases hrem
    have hnd : (refs s).Nodup := hp.nodup.of_append_left.of_append_right
    rw [refs, hsplit, List.map_append, List.map_cons, hte] at hnd
    have hout : id ∉ before.map TimeEvent.ref ++ after.map TimeEvent.ref :=
      (List.nodup_middle.mp hnd).notMem
    refine ⟨hr.bound id k hk, ?_, ?_, fun te _ e => hsettles te e⟩
    · intro te' hmem hi
      rw [invalidate_handlerOf rfl] at hi
      refine hout ?_
      rw [← List.map_append, ← honly _ hi]
      exact List.mem_map_of_mem hmem
    · rw [invalidate_handlerOf rfl]
      exact hfired

/-- After a remove that returned true, by any thread and at any moment but the
one between taking the timer out and calling its handler, the handler is never
started again. -/
theorem removed_never_starts (now : Int) (ls ms : List Label) (s t : State) (id k : Nat)
    (hs : exec step (initial now) ls = some s) (hk : handlerOf s id = some k)
    (hrem : remove s id = (t, true)) (hcall : ¬ AboutToCall s id) :
    Along step (fun s _ s' => k ∉ starts s s') t ms := by
  have hsil : Silenced t k := remove_silences (reachable_partition ⟨ls, hs⟩)
    (reachable_registered ⟨ls, hs⟩) hk hrem hcall
  apply along_of_step (I := fun s => Silenced s k) _ hsil
  intro s l s' h hs
  exact ⟨moves_silenced h (step_moves hs), moves_starts h (step_moves hs)⟩

/-- A periodic timer removed while it waits for its next turn. -/
def firedOnce : List Label :=
  [.init, .add 0 5, .wake, .startHandler, .endHandler false, .relock]

theorem removed_never_starts_firedOnce : ∃ s t, exec step (initial 0) firedOnce = some s ∧
    remove s 0 = (t, true) ∧
    Along step (fun s _ s' => 0 ∉ starts s s') t [.tick 5, .wake, .startHandler] := by
  refine ⟨_, _, rfl, rfl, ?_⟩
  exact removed_never_starts 0 firedOnce _ _ _ 0 0 rfl rfl rfl (by rintro ⟨te, hw, -⟩; cases hw)

/-- The worker has the due timer in hand, without the lock, when another thread
removes it. -/
theorem removed_timer_starts : ¬ ∀ (now : Int) (ls ms : List Label) (s t : State) (id k : Nat),
    exec step (initial now) ls = some s → handlerOf s id = some k → ¬ Executing s id →
    remove s id = (t, true) → Along step (fun s _ s' => k ∉ starts s s') t ms := by
  intro h
  have hquiet := h 0 [.init, .add 0 0, .wake] [.startHandler] _ _ 0 0 rfl rfl
    (by rintro ⟨te, hw, -⟩; cases hw) rfl
  exact (hquiet _ rfl).1 (by decide +kernel)

end Ashe.TimerRemoval
