import Ashe.TimerIds

namespace Ashe.TimerNames

open TimerManager TimerSteps TimerIds Runs

/-- The timers, the ids that add has given out, and for each id that names a timer
whether this is a periodic one. -/
structure Book where
  timers : State
  issued : List Nat
  named : Nat → Option Bool

def empty (now : Int) : Book := ⟨initial now, [], fun _ => none⟩

def issuedAfter (b : Book) : Label → List Nat
  | .add when period => (add b.timers when period).2 :: b.issued
  | _ => b.issued

/-- An id names a timer from the add that gave it out to its removal, or to the time when
the worker is done with it and it is not periodic. -/
def namedAfter (b : Book) : Label → Nat → Option Bool
  | .add when period =>
      Function.update b.named (add b.timers when period).2 (some (decide (0 < period)))
  | .remove id => Function.update b.named id none
  | .relock =>
      match b.timers.worker with
      | .returned te =>
          if b.named te.ref = some true then b.named else Function.update b.named te.ref none
      | _ => b.named
  | _ => b.named

def step (b : Book) (l : Label) : Option Book :=
  (TimerManager.step b.timers l).map fun s => ⟨s, issuedAfter b l, namedAfter b l⟩

/-- Remove returns true for the ids that name a timer, and for no other. -/
def Truthful (b : Book) (id : Nat) : Prop :=
  (remove b.timers id).2 = true ↔ (b.named id).isSome

theorem remove_true_iff (s : State) (id : Nat) :
    (remove s id).2 = true ↔ id < s.events.length := by
  rw [remove]
  split
  next h =>
    have h : id < s.events.length → False := by
      intro hlt
      rw [Bool.or_eq_true, List.isEmpty_iff, decide_eq_true_eq] at h
      cases h with
      | inl hnil => simp [hnil] at hlt
      | inr hle => omega
    simpa using h
  next h =>
    have hlt : id < s.events.length := by
      simp only [Bool.or_eq_true, decide_eq_true_eq, not_or, Nat.not_le] at h
      exact h.2
    dsimp only
    split <;> simpa using hlt

def entry (s : State) (id : Nat) : Option Bool :=
  (s.events[id]?).bind fun e => if e.valid then some (decide (0 < e.period)) else none

theorem add_entry {s : State} (h : Partition s) (when period : Int) (i : Nat) :
    entry (add s when period).1 i =
      if i = (add s when period).2 then some (decide (0 < period)) else entry s i := by
  rw [entry, add]
  split
  next hfree =>
    dsimp only
    by_cases hi : i = s.events.length
    · simp [hi]
    · rw [if_neg hi, entry]
      by_cases hlt : i < s.events.length
      · rw [List.getElem?_append_left hlt]
      · rw [List.getElem?_eq_none (by simp; omega), List.getElem?_eq_none (by omega)]
  next id rest hfree =>
    dsimp only
    have hid : id < s.events.length := by
      have hmem : id ∈ s.freeIds ++ refs s ++ held s := by simp [hfree]
      exact List.mem_range.mp (h.subset hmem)
    by_cases hi : i = id
    · simp [hi, hid]
    · rw [if_neg hi, entry, List.getElem?_set_ne (Ne.symm hi)]

theorem invalidate_entry {s t : State} {id : Nat} (ht : t.events = invalidate s.events id) :
    entry t = Function.update (entry s) id none := by
  funext i
  rw [entry, ht, invalidate_getElem?]
  by_cases hi : i = id
  · subst hi
    cases he : s.events[i]? <;> simp
  · rw [Function.update_of_ne hi, entry]
    cases he : s.events[i]? <;> simp [Ne.symm hi]

structure Kept (b : Book) : Prop where
  ids : Partition b.timers
  issued : ∀ id, id ∈ b.issued ↔ id < b.timers.events.length
  named : b.named = entry b.timers
  free : ∀ id ∈ b.timers.freeIds, b.named id = none
  pending : ∀ id ∈ refs b.timers, b.named id ≠ none

theorem empty_kept (now : Int) : Kept (empty now) :=
  ⟨initial_partition now, fun _ => ⟨nofun, nofun⟩, funext fun _ => rfl, nofun, nofun⟩

/-- The worker may take an entry out of time_events_, and nothing else changes. -/
theorem Kept.same {b : Book} {s : State} (h : Kept b) (hp : Partition s)
    (hev : s.events = b.timers.events) (hfree : s.freeIds = b.timers.freeIds)
    (hrefs : ∀ id ∈ refs s, id ∈ refs b.timers) : Kept { b with timers := s } := by
  refine ⟨hp, ?_, ?_, ?_, fun id hid => h.pending id (hrefs id hid)⟩
  · rw [hev]
    exact h.issued
  · rw [h.named]
    exact funext fun id => by rw [entry, entry, hev]
  · rw [hfree]
    exact h.free

theorem turn_refs (s : State) : ∀ id ∈ refs (turn s), id ∈ refs s := by
  rcases turn_cases s with ⟨w, -, he⟩ | ⟨te, rest, hcons, he⟩
  · rw [he]
    exact fun _ h => h
  · rw [he, refs, refs, hcons]
    exact fun id hid => List.mem_cons_of_mem _ hid

theorem turn_events (s : State) : (turn s).events = s.events ∧ (turn s).freeIds = s.freeIds := by
  rcases turn_cases s with ⟨w, -, he⟩ | ⟨te, rest, -, he⟩ <;> rw [he] <;> exact ⟨rfl, rfl⟩

theorem add_length {s : State} (h : Partition s) (when period : Int) (i : Nat) :
    i < (add s when period).1.events.length ↔
      i = (add s when period).2 ∨ i < s.events.length := by
  rw [add]
  split
  next hfree =>
    dsimp only
    rw [List.length_append, List.length_singleton]
    omega
  next id rest hfree =>
    have hid : id < s.events.length := by
      have hmem : id ∈ s.freeIds ++ refs s ++ held s := by simp [hfree]
      exact List.mem_range.mp (h.subset hmem)
    dsimp only
    rw [List.length_set]
    exact ⟨.inr, fun hi => hi.elim (fun he => he ▸ hid) fun hlt => hlt⟩

theorem add_free {s : State} (h : Partition s) (when period : Int) {i : Nat}
    (hi : i ∈ (add s when period).1.freeIds) : i ≠ (add s when period).2 ∧ i ∈ s.freeIds := by
  rw [add] at hi ⊢
  split at hi
  next hfree =>
    dsimp only at hi
    rw [hfree] at hi
    cases hi
  next id rest hfree =>
    have hnd := h.nodup
    rw [hfree, List.cons_append, List.cons_append, List.nodup_cons] at hnd
    refine ⟨fun he => hnd.1 ?_, by rw [hfree]; exact List.mem_cons_of_mem _ hi⟩
    dsimp only at he
    rw [← he]
    exact List.mem_append_left _ (List.mem_append_left _ hi)

theorem add_kept {b : Book} (h : Kept b) (when period : Int) :
    Kept ⟨(add b.timers when period).1, issuedAfter b (.add when period),
      namedAfter b (.add when period)⟩ := by
  refine ⟨add_partition h.ids when period, fun i => ?_, funext fun i => ?_, fun i hi => ?_,
    fun i hi => ?_⟩
  · rw [add_length h.ids, ← h.issued]
    exact List.mem_cons
  · rw [add_entry h.ids, ← h.named]
    exact Function.update_apply ..
  · obtain ⟨hne, hfree⟩ := add_free h.ids when period hi
    exact (Function.update_of_ne hne ..).trans (h.free i hfree)
  · dsimp only [namedAfter]
    by_cases hne : i = (add b.timers when period).2
    · rw [hne, Function.update_self]
      exact Option.some_ne_none _
    · rw [Function.update_of_ne hne]
      rw [refs, (add_fields b.timers when period).2.2.2] at hi
      exact h.pending i ((List.mem_cons.mp ((insertEvent_refs _ _).subset hi)).resolve_left hne)

theorem Kept.drop {b : Book} {s : State} {id : Nat} (h : Kept b) (hp : Partition s)
    (hev : s.events = invalidate b.timers.events id)
    (hfree : ∀ i ∈ s.freeIds, i = id ∨ i ∈ b.timers.freeIds)
    (hrefs : ∀ i ∈ refs s, i ≠ id ∧ i ∈ refs b.timers) :
    Kept ⟨s, b.issued, Function.update b.named id none⟩ := by
  refine ⟨hp, ?_, ?_, fun i hi => ?_, fun i hi => ?_⟩
  · rw [hev, invalidate_length]
    exact h.issued
  · rw [invalidate_entry hev, h.named]
  · by_cases hid : i = id
    · rw [hid]
      exact Function.update_self ..
    · exact (Function.update_of_ne hid ..).trans (h.free i ((hfree i hi).resolve_left hid))
  · obtain ⟨hid, hi⟩ := hrefs i hi
    dsimp only
    rw [Function.update_of_ne hid]
    exact h.pending i hi

theorem remove_kept {b : Book} (h : Kept b) (id : Nat) :
    Kept ⟨(remove b.timers id).1, b.issued, Function.update b.named id none⟩ := by
  have hp := remove_partition h.ids id
  rcases remove_cases b.timers id with he | ⟨-, hnone, he⟩ | ⟨before, te, after, -, hte, hsplit, he⟩
  · have hlen : ¬ id < b.timers.events.length := by
      rw [← remove_true_iff, he]
      exact Bool.false_ne_true
    have hid : b.named id = none := by
      rw [h.named, entry, List.getElem?_eq_none (Nat.not_lt.mp hlen)]
      rfl
    rw [he, ← hid, Function.update_eq_self]
    exact h
  · rw [he] at hp ⊢
    refine h.drop hp rfl (fun i hi => .inr hi) fun i hi => ⟨?_, hi⟩
    rintro rfl
    obtain ⟨te, hte, hid⟩ := List.mem_map.mp hi
    exact hnone te hte hid
  · rw [he] at hp ⊢
    refine h.drop hp rfl (fun i hi => List.mem_cons.mp hi) fun i hi => ?_
    have hnd := hp.nodup
    rw [List.append_assoc, List.cons_append, List.nodup_cons] at hnd
    refine ⟨fun hid => hnd.1 ?_, ?_⟩
    · rw [← hid]
      exact List.mem_append_right _ (List.mem_append_left _ hi)
    · rw [refs, hsplit, List.map_append, List.map_cons]
      rw [refs, List.map_append] at hi
      exact (List.mem_append.mp hi).elim (List.mem_append_left _)
        fun hi => List.mem_append_right _ (List.mem_cons_of_mem _ hi)

theorem relock_kept {b : Book} {te : TimeEvent} {s : State} (h : Kept b)
    (hw : b.timers.worker = .returned te) (hs : settle b.timers te = some s) :
    Kept ⟨turn s, b.issued, namedAfter b .relock⟩ := by
  have hp := moves_partition h.ids (.relock hw hs)
  obtain ⟨e, he, rfl⟩ := Option.map_eq_some_iff.mp hs
  have hnamed : b.named te.ref = if e.valid then some (decide (0 < e.period)) else none := by
    rw [h.named, entry, he]
    rfl
  have hnot : te.ref ∉ refs b.timers := fun hmem => by
    have hnd := h.ids.nodup
    rw [held, hw, List.nodup_append] at hnd
    exact hnd.2.2 _ (List.mem_append_right _ hmem) _ (List.mem_singleton_self _) rfl
  have hafter : namedAfter b .relock = if b.named te.ref = some true then b.named
      else Function.update b.named te.ref none := by
    rw [namedAfter, hw]
  by_cases hv : (e.valid && decide (0 < e.period)) = true
  · rw [if_pos hv] at hp ⊢
    rw [Bool.and_eq_true] at hv
    rw [hv.1, hv.2, if_pos rfl] at hnamed
    rw [hafter, if_pos hnamed]
    refine ⟨hp, ?_, ?_, ?_, fun id hid => ?_⟩
    · rw [(turn_events _).1]
      exact h.issued
    · rw [h.named]
      exact funext fun id => by rw [entry, entry, (turn_events _).1]
    · rw [(turn_events _).2]
      exact h.free
    · have hid := turn_refs _ id hid
      rcases List.mem_cons.mp ((insertEvent_refs _ _).subset hid) with rfl | hid
      · dsimp only
        rw [hnamed]
        exact Option.some_ne_none _
      · exact h.pending id hid
  · rw [if_neg hv] at hp ⊢
    have hfalse : b.named te.ref ≠ some true := by
      rw [hnamed]
      cases hvalid : e.valid with
      | false => simp
      | true => simpa [hvalid] using hv
    rw [hafter, if_neg hfalse]
    refine h.drop hp (turn_events _).1 (fun i hi => ?_) fun i hi => ?_
    · rw [(turn_events _).2] at hi
      exact List.mem_cons.mp hi
    · have hi := turn_refs _ i hi
      exact ⟨fun hid => hnot (hid ▸ hi), hi⟩

theorem step_kept {b b' : Book} {l : Label} (h : Kept b) (hs : step b l = some b') : Kept b' := by
  obtain ⟨s, ht, rfl⟩ := Option.map_eq_some_iff.mp hs
  have hm := step_moves ht
  have hp := moves_partition h.ids hm
  cases hm with
  | tick | init | destory | startHandler | endHandler =>
      exact h.same hp rfl rfl fun _ hid => hid
  | wake => exact h.same hp (turn_events _).1 (turn_events _).2 (turn_refs _)
  | add when period => exact add_kept h when period
  | remove id => exact remove_kept h id
  | relock hw hsettle => exact relock_kept h hw hsettle

theorem exec_kept {now : Int} {ls : List Label} {b : Book}
    (h : exec step (empty now) ls = some b) : Kept b :=
  exec_of_invariant (G := fun _ _ _ => True) (fun _ _ _ h _ hs => step_kept h hs) (empty_kept now)
    along_true h

/-- The ids that name a timer are those that are pending, and the one the worker has in
hand as long as it has not been removed. -/
theorem named_pending_or_held {now : Int} {ls : List Label} {b : Book}
    (h : exec step (empty now) ls = some b) (id : Nat) :
    (id ∈ refs b.timers → (b.named id).isSome) ∧
      ((b.named id).isSome → id ∈ refs b.timers ∨ id ∈ held b.timers) := by
  have h := exec_kept h
  refine ⟨fun hid => Option.isSome_iff_ne_none.mpr (h.pending id hid), fun hid => ?_⟩
  have hlt : id < b.timers.events.length := by
    rw [h.named] at hid
    by_contra hlen
    rw [entry, List.getElem?_eq_none (Nat.not_lt.mp hlen)] at hid
    cases hid
  have hmem := h.ids.symm.subset (List.mem_range.mpr hlt)
  rw [List.mem_append, List.mem_append] at hmem
  rcases hmem with (hfree | hpending) | hheld
  · rw [h.free id hfree] at hid
    cases hid
  · exact .inl hpending
  · exact .inr hheld

/-- After every history, what remove returns for an id is true to the timers exactly where
the id has never been given out or names a timer. -/
theorem remove_truthful_iff {now : Int} {ls : List Label} {b : Book}
    (h : exec step (empty now) ls = some b) (id : Nat) :
    Truthful b id ↔ (id ∈ b.issued → (b.named id).isSome) := by
  have h := exec_kept h
  rw [Truthful, remove_true_iff, ← h.issued]
  refine ⟨Iff.mp, fun hcond => ⟨hcond, fun hid => ?_⟩⟩
  rw [h.issued]
  by_contra hlen
  rw [h.named, entry, List.getElem?_eq_none (Nat.not_lt.mp hlen)] at hid
  cases hid

/-- A periodic timer that is pending again, and one that is executed once and done. -/
def oneDone : List Label :=
  [.init, .add 0 5, .add 0 0, .wake, .startHandler, .endHandler false, .relock, .startHandler,
    .endHandler false, .relock]

theorem remove_truthful_iff_oneDone : ∃ b, exec step (empty 0) oneDone = some b ∧
    (Truthful b 0 ↔ (0 ∈ b.issued → (b.named 0).isSome)) ∧ b.named 0 = some true ∧
    b.named 1 = none := by
  have hb : exec step (empty 0) oneDone = some _ := rfl
  exact ⟨_, hb, remove_truthful_iff hb 0, by decide +kernel, by decide +kernel⟩

/-- Remove returns true for the id of a timer that was executed once and is done. -/
theorem remove_untrue : ¬ ∀ (now : Int) (ls : List Label) (b : Book) (id : Nat),
    exec step (empty now) ls = some b → Truthful b id := by
  intro h
  have htruthful := h 0 oneDone _ 1 rfl
  exact absurd (htruthful.mp rfl) (by decide +kernel)

end Ashe.TimerNames
