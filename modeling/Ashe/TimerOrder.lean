import Ashe.TimerRemoval

namespace Ashe.TimerOrder

open TimerManager TimerSteps TimerIds TimerRemoval Runs

/-- A call of a handler: the deadline of the entry it comes from, and the clock. -/
structure Firing where
  handler : Nat
  deadline : Int
  time : Int
  deriving DecidableEq

/-- The timers with their history. Serial tells for each id which of the
insertions into time_events_ its last entry came from, and calls has the first
time and the period that each call of add was given. -/
structure Book where
  timers : State
  inserted : Nat
  serial : Nat → Nat
  calls : List (Int × Int)
  firings : List Firing

def empty (now : Int) : Book := ⟨initial now, 0, fun _ => 0, [], []⟩

def reinserted (s : State) : Option Nat :=
  match s.worker with
  | .returned te =>
      if (s.events[te.ref]?).any (fun e => e.valid && 0 < e.period) then some te.ref else none
  | _ => none

def insertedId (s : State) : Label → Option Nat
  | .add when period => some (add s when period).2
  | .relock => reinserted s
  | _ => none

def insertedAfter (b : Book) (l : Label) : Nat :=
  match insertedId b.timers l with
  | some _ => b.inserted + 1
  | none => b.inserted

def serialAfter (b : Book) (l : Label) : Nat → Nat :=
  match insertedId b.timers l with
  | some id => Function.update b.serial id b.inserted
  | none => b.serial

def callsAfter (b : Book) : Label → List (Int × Int)
  | .add when period => b.calls ++ [(when, period)]
  | _ => b.calls

def firingsAfter (b : Book) : Label → List Firing
  | .startHandler =>
      match b.timers.worker with
      | .fired te => b.firings ++
          ((b.timers.events[te.ref]?).map (fun e => ⟨e.handler, te.next, b.timers.now⟩)).toList
      | _ => b.firings
  | _ => b.firings

def step (b : Book) (l : Label) : Option Book :=
  (TimerManager.step b.timers l).map fun s =>
    ⟨s, insertedAfter b l, serialAfter b l, callsAfter b l, firingsAfter b l⟩

/-- Of two entries the one that is due earlier, and of those due at the same
time the one that was inserted earlier. -/
def Before (serial : Nat → Nat) (l r : TimeEvent) : Prop :=
  l.next < r.next ∨ l.next = r.next ∧ serial l.ref < serial r.ref

/-- The pending entries stand in order, what the worker has taken out is due,
and no handler has been called too early. -/
structure InOrder (b : Book) : Prop where
  sorted : b.timers.timeEvents.Pairwise (Before b.serial)
  serials : ∀ te ∈ b.timers.timeEvents, b.serial te.ref < b.inserted
  ripe : ∀ te, b.timers.worker = .fired te → te.next ≤ b.timers.now
  late : ∀ f ∈ b.firings, f.deadline ≤ f.time

theorem step_timers {b b' : Book} {l : Label} (h : step b l = some b') :
    Moves b.timers l b'.timers := by
  obtain ⟨s, hs, rfl⟩ := Option.map_eq_some_iff.mp h
  exact step_moves hs

theorem reachable_timers {now : Int} {b : Book} (h : Reachable step (empty now) b) :
    Reachable TimerManager.step (initial now) b.timers := by
  apply h.map (f := Book.timers)
  intro s l t hs
  obtain ⟨s', hs', rfl⟩ := Option.map_eq_some_iff.mp hs
  exact .inr ⟨l, hs'⟩

theorem after_insert {b : Book} {l : Label} {id : Nat} (h : insertedId b.timers l = some id) :
    serialAfter b l = Function.update b.serial id b.inserted ∧
      insertedAfter b l = b.inserted + 1 := by
  rw [serialAfter, insertedAfter, h]
  exact ⟨rfl, rfl⟩

theorem after_none {b : Book} {l : Label} (h : insertedId b.timers l = none) :
    serialAfter b l = b.serial ∧ insertedAfter b l = b.inserted := by
  rw [serialAfter, insertedAfter, h]
  exact ⟨rfl, rfl⟩

theorem insertEvent_sorted {serial : Nat → Nat} {te : TimeEvent} {timeEvents : List TimeEvent}
    (h : timeEvents.Pairwise (Before serial))
    (hlast : ∀ te' ∈ timeEvents, serial te'.ref < serial te.ref) :
    (insertEvent te timeEvents).Pairwise (Before serial) := by
  induction timeEvents with
  | nil => exact List.pairwise_singleton _ te
  | cons te' rest ih =>
      obtain ⟨hfirst, hrest⟩ := List.pairwise_cons.mp h
      rw [insertEvent, List.orderedInsert]
      split
      next hlt =>
        refine List.pairwise_cons.mpr ⟨?_, h⟩
        intro te'' hmem
        rcases List.mem_cons.mp hmem with rfl | hmem
        · exact .inl hlt
        · have hle := hfirst te'' hmem
          rw [Before] at hle
          exact .inl (by omega)
      next hge =>
        refine List.pairwise_cons.mpr ⟨?_, ih hrest fun t ht => hlast t (.tail te' ht)⟩
        intro te'' hmem
        rcases mem_insertEvent hmem with rfl | hmem
        · have hserial := hlast te' (.head rest)
          rw [Before]
          omega
        · exact hfirst te'' hmem

/-- The order of entries does not change when another id gets a new number. -/
theorem sorted_update {serial : Nat → Nat} {timeEvents : List TimeEvent} {id : Nat} (n : Nat)
    (hid : id ∉ timeEvents.map TimeEvent.ref) (h : timeEvents.Pairwise (Before serial)) :
    timeEvents.Pairwise (Before (Function.update serial id n)) := by
  apply h.imp_of_mem
  intro l r hl hr hlr
  have hne : ∀ te ∈ timeEvents, te.ref ≠ id := fun te hte he =>
    hid (List.mem_map.mpr ⟨te, hte, he⟩)
  rw [Before, Function.update_of_ne (hne l hl), Function.update_of_ne (hne r hr)]
  exact hlr

/-- An entry with a new number goes in, for an id that is not pending. -/
theorem insert_inOrder {b : Book} (h : InOrder b) (te : TimeEvent) (hid : te.ref ∉ refs b.timers) :
    (insertEvent te b.timers.timeEvents).Pairwise
        (Before (Function.update b.serial te.ref b.inserted)) ∧
      ∀ te' ∈ insertEvent te b.timers.timeEvents,
        Function.update b.serial te.ref b.inserted te'.ref < b.inserted + 1 := by
  have hne : ∀ te' ∈ b.timers.timeEvents, te'.ref ≠ te.ref := fun te' hte he =>
    hid (List.mem_map.mpr ⟨te', hte, he⟩)
  constructor
  · apply insertEvent_sorted (sorted_update b.inserted hid h.sorted)
    intro te' hte
    rw [Function.update_self, Function.update_of_ne (hne te' hte)]
    exact h.serials te' hte
  · intro te' hte
    rcases mem_insertEvent hte with rfl | hte
    · rw [Function.update_self]
      exact Nat.lt_succ_self _
    · rw [Function.update_of_ne (hne te' hte)]
      exact Nat.lt_succ_of_lt (h.serials te' hte)

theorem turn_takes {s : State} {te : TimeEvent} {serial : Nat → Nat}
    (h : s.timeEvents.Pairwise (Before serial)) (ht : (turn s).worker = .fired te) :
    te.next ≤ s.now ∧ ∀ te' ∈ (turn s).timeEvents, Before serial te te' := by
  rw [turn] at ht ⊢
  split at ht
  next => cases ht
  next =>
    split at ht
    next => cases ht
    next first rest hcons =>
      split at ht
      next hdue =>
        obtain rfl := Worker.fired.inj ht
        rw [hcons] at h
        refine ⟨hdue, ?_⟩
        simp only [*, Bool.false_eq_true, if_false, if_true]
        exact (List.pairwise_cons.mp h).1
      next => cases ht

theorem turn_keeps (s : State) : (turn s).now = s.now ∧ (turn s).events = s.events ∧
    (turn s).added = s.added ∧ (turn s).timeEvents.Sublist s.timeEvents := by
  rcases turn_cases s with ⟨w, -, he⟩ | ⟨te, rest, hcons, he⟩
  · rw [he]
    exact ⟨rfl, rfl, rfl, List.Sublist.refl _⟩
  · rw [he, hcons]
    exact ⟨rfl, rfl, rfl, List.sublist_cons_self te rest⟩

theorem turn_inOrder {b' : Book} {s : State} (ht : b'.timers = turn s)
    (hsorted : s.timeEvents.Pairwise (Before b'.serial))
    (hserials : ∀ te ∈ s.timeEvents, b'.serial te.ref < b'.inserted)
    (hlate : ∀ f ∈ b'.firings, f.deadline ≤ f.time) : InOrder b' := by
  obtain ⟨hnow, -, -, hsub⟩ := turn_keeps s
  refine ⟨?_, ?_, ?_, hlate⟩
  · rw [ht]
    exact hsorted.sublist hsub
  · rw [ht]
    exact fun te hte => hserials te (hsub.subset hte)
  · rw [ht, hnow]
    exact fun te hw => (turn_takes hsorted hw).1

/-- Settle puts the entry back, one period later, or frees its id. -/
theorem settle_reinserted {s t : State} {te : TimeEvent} (hw : s.worker = .returned te)
    (h : settle s te = some t) : ∃ e, s.events[te.ref]? = some e ∧
      (reinserted s = some te.ref ∧ t = { s with
          timeEvents := insertEvent { te with next := plusPeriod te.next e.period } s.timeEvents } ∨
        reinserted s = none ∧ t = { s with
          events := invalidate s.events te.ref, freeIds := te.ref :: s.freeIds }) := by
  obtain ⟨e, he, rfl⟩ := Option.map_eq_some_iff.mp h
  refine ⟨e, he, ?_⟩
  rw [reinserted, hw]
  dsimp only
  rw [he, Option.any_some]
  split
  next => exact .inl ⟨rfl, rfl⟩
  next => exact .inr ⟨rfl, rfl⟩

theorem held_not_pending {s : State} {te : TimeEvent} (h : Partition s) (hw : te.ref ∈ held s) :
    te.ref ∉ refs s := by
  intro hmem
  have hnd := h.nodup
  rw [List.nodup_append] at hnd
  exact hnd.2.2 _ (List.mem_append_right _ hmem) _ hw rfl

theorem InOrder.same {b b' : Book} (h : InOrder b) (hs : b'.serial = b.serial)
    (hi : b'.inserted = b.inserted) (hsub : b'.timers.timeEvents.Sublist b.timers.timeEvents)
    (hnow : b.timers.now ≤ b'.timers.now)
    (hw : ∀ te, b'.timers.worker = .fired te → b.timers.worker = .fired te)
    (hlate : ∀ f ∈ b'.firings, f.deadline ≤ f.time) : InOrder b' := by
  refine ⟨?_, ?_, ?_, hlate⟩
  · rw [hs]
    exact h.sorted.sublist hsub
  · rw [hs, hi]
    exact fun te hte => h.serials te (hsub.subset hte)
  · exact fun te hte => Int.le_trans (h.ripe te (hw te hte)) hnow

theorem add_now (s : State) (when period : Int) : (add s when period).1.now = s.now := by
  rw [add]
  split <;> rfl

/-- Removing takes at most one entry out, and leaves the clock and the worker. -/
theorem remove_keeps (s : State) (id : Nat) :
    (remove s id).1.timeEvents.Sublist s.timeEvents ∧ (remove s id).1.now = s.now ∧
      (remove s id).1.worker = s.worker ∧ (remove s id).1.added = s.added ∧
      ((remove s id).1.events = s.events ∨ (remove s id).1.events = invalidate s.events id) := by
  rcases remove_cases s id with he | ⟨-, -, he⟩ | ⟨before, te, after, -, -, hsplit, he⟩
  · rw [he]
    exact ⟨List.Sublist.refl _, rfl, rfl, rfl, .inl rfl⟩
  · rw [he]
    exact ⟨List.Sublist.refl _, rfl, rfl, rfl, .inr rfl⟩
  · rw [he, hsplit]
    refine ⟨?_, rfl, rfl, rfl, .inr rfl⟩
    exact (List.Sublist.refl before).append (List.sublist_cons_self te after)

theorem step_inOrder {b b' : Book} {l : Label} (hp : Partition b.timers) (h : InOrder b)
    (hs : step b l = some b') : InOrder b' := by
  obtain ⟨s, ht, rfl⟩ := Option.map_eq_some_iff.mp hs
  have hm := step_moves ht
  cases hm with
  | tick d =>
      have hlater : b.timers.now ≤ b.timers.now + d := by omega
      exact h.same rfl rfl (List.Sublist.refl _) hlater (fun _ => id) h.late
  | destory => exact h.same rfl rfl (List.Sublist.refl _) (Int.le_refl _) (fun _ => id) h.late
  | init hw => exact h.same rfl rfl (List.Sublist.refl _) (Int.le_refl _) (by simp) h.late
  | @startHandler te e hw he =>
      refine h.same rfl rfl (List.Sublist.refl _) (Int.le_refl _) (by simp) ?_
      intro f hf
      simp only [firingsAfter, hw, he, Option.map_some, Option.toList_some, List.mem_append,
        List.mem_singleton] at hf
      rcases hf with hf | rfl
      · exact h.late f hf
      · exact h.ripe te hw
  | endHandler throws hw =>
      exact h.same rfl rfl (List.Sublist.refl _) (Int.le_refl _) (by simp) h.late
  | remove id =>
      obtain ⟨hsub, hnow, hworker, -, -⟩ := remove_keeps b.timers id
      refine h.same rfl rfl hsub (Int.le_of_eq hnow.symm) ?_ h.late
      intro te hte
      rw [← hworker]
      exact hte
  | add when period =>
      obtain ⟨-, hworker, -, htime⟩ := add_fields b.timers when period
      obtain ⟨hserial, hinserted⟩ := @after_insert b (.add when period) _ rfl
      obtain ⟨hsorted, hserials⟩ := insert_inOrder h ⟨when, (add b.timers when period).2⟩
        (hp.add_fresh when period).1
      refine ⟨?_, ?_, ?_, h.late⟩
      · rw [hserial, htime]
        exact hsorted
      · rw [hserial, hinserted, htime]
        exact hserials
      · rw [hworker, add_now]
        exact h.ripe
  | wake hw => exact turn_inOrder rfl h.sorted h.serials h.late
  | @relock te t hw hsettle =>
      have hpending : te.ref ∉ refs b.timers := by
        apply held_not_pending hp
        rw [held, hw]
        exact List.mem_singleton_self _
      obtain ⟨e, he, ⟨hback, rfl⟩ | ⟨hback, rfl⟩⟩ := settle_reinserted hw hsettle
      · obtain ⟨hserial, hinserted⟩ := @after_insert b .relock _ hback
        obtain ⟨hsorted, hserials⟩ :=
          insert_inOrder h { te with next := plusPeriod te.next e.period } hpending
        refine turn_inOrder rfl ?_ ?_ h.late
        · rw [hserial]
          exact hsorted
        · rw [hserial, hinserted]
          exact hserials
      · obtain ⟨hserial, hinserted⟩ := @after_none b .relock hback
        refine turn_inOrder rfl ?_ ?_ h.late
        · rw [hserial]
          exact h.sorted
        · rw [hserial, hinserted]
          exact h.serials

theorem reachable_inOrder {now : Int} {b : Book} (h : Reachable step (empty now) b) :
    InOrder b := by
  have hstart : InOrder (empty now) :=
    ⟨List.Pairwise.nil, fun _ hte => absurd hte List.not_mem_nil,
      fun _ hw => by simp [empty, initial] at hw, fun _ hf => absurd hf List.not_mem_nil⟩
  have hstep : ∀ b l b', Partition b.timers ∧ InOrder b → step b l = some b' →
      Partition b'.timers ∧ InOrder b' := by
    rintro b l b' ⟨hp, hi⟩ hs
    exact ⟨moves_partition hp (step_timers hs), step_inOrder hp hi hs⟩
  exact (h.invariant hstep ⟨initial_partition now, hstart⟩).2

end Ashe.TimerOrder
