import Ashe.AtExit
import Mathlib.Data.List.Count
import Mathlib.Data.List.Nodup

namespace Ashe.AtExitOrder

open AtExit
open scoped List

/-- Every callback is run once, before the end of the destruction of its manager, and
those of one manager in reverse order. -/
structure RunsAll (events : List Event) : Prop where
  once : ∀ m c, .registered m c ∈ events → events.count (.ran c) = 1
  inTime : ∀ m c, .registered m c ∈ events → [.ran c, .destroyed m] <+ events
  reversed : ∀ m c c', [.registered m c, .registered m c'] <+ events →
    [.ran c', .ran c] <+ events

def Leaf : Calls → Prop
  | .done => True
  | .registerCallback rest => Leaf rest
  | .manager _ _ => False

/-- No callback is registered by the calls but in the lifetimes of other managers, and
in these either no callback is registered or no manager constructed. -/
def Quiet : Calls → Prop
  | .done => True
  | .registerCallback _ => False
  | .manager body rest => (Leaf body ∨ Quiet body) ∧ Quiet rest

theorem pair_sublist_append {α : Type} {x y : α} {l l' : List α} :
    [x, y] <+ l ++ l' ↔ [x, y] <+ l ∨ (x ∈ l ∧ y ∈ l') ∨ [x, y] <+ l' := by
  rw [List.sublist_append_iff]
  constructor
  · rintro ⟨r, r', h, hr, hr'⟩
    match r, r' with
    | [], r' => exact .inr (.inr (by rwa [h]))
    | [z], r' =>
        obtain ⟨rfl, rfl⟩ : x = z ∧ [y] = r' := List.cons_eq_cons.mp h
        exact .inr (.inl ⟨List.singleton_sublist.mp hr, List.singleton_sublist.mp hr'⟩)
    | z :: w :: r, r' =>
        simp only [List.cons_append, List.cons.injEq, List.nil_eq_append_iff] at h
        obtain ⟨rfl, rfl, rfl, -⟩ := h
        exact .inl hr
  · rintro (h | ⟨hx, hy⟩ | h)
    · exact ⟨[x, y], [], rfl, h, List.nil_sublist _⟩
    · exact ⟨[x], [y], rfl, List.singleton_sublist.mpr hx, List.singleton_sublist.mpr hy⟩
    · exact ⟨[], [x, y], rfl, List.nil_sublist _, h⟩

def Between (s s' : State) : Event → Prop
  | .constructed m => s.managers ≤ m ∧ m < s'.managers
  | .registered m c => s.managers ≤ m ∧ m < s'.managers ∧ s.callbacks ≤ c ∧ c < s'.callbacks
  | .ran c => s.callbacks ≤ c ∧ c < s'.callbacks
  | .destroyed m => s.managers ≤ m ∧ m < s'.managers

theorem RunsAll.append {s s' s'' : State} {l l' : List Event} (h : RunsAll l) (h' : RunsAll l')
    (hl : ∀ e ∈ l, Between s s' e) (hl' : ∀ e ∈ l', Between s' s'' e) : RunsAll (l ++ l') := by
  constructor
  · intro m c hc
    rw [List.count_append]
    cases List.mem_append.mp hc with
    | inl hc =>
        have hlt := hl _ hc
        have hnot : Event.ran c ∉ l' := fun hr => by
          have := hl' _ hr
          simp only [Between] at hlt this
          omega
        rw [h.once m c hc, List.count_eq_zero_of_not_mem hnot]
    | inr hc =>
        have hle := hl' _ hc
        have hnot : Event.ran c ∉ l := fun hr => by
          have := hl _ hr
          simp only [Between] at hle this
          omega
        rw [h'.once m c hc, List.count_eq_zero_of_not_mem hnot]
  · intro m c hc
    cases List.mem_append.mp hc with
    | inl hc => exact (h.inTime m c hc).trans (List.sublist_append_left ..)
    | inr hc => exact (h'.inTime m c hc).trans (List.sublist_append_right ..)
  · intro m c c' hcc
    rcases pair_sublist_append.mp hcc with hcc | ⟨hc, hc'⟩ | hcc
    · exact (h.reversed m c c' hcc).trans (List.sublist_append_left ..)
    · have hlt := hl _ hc
      have hle := hl' _ hc'
      simp only [Between] at hlt hle
      omega
    · exact (h'.reversed m c c' hcc).trans (List.sublist_append_right ..)

theorem runsAll_nil : RunsAll [] :=
  ⟨fun _ _ h => absurd h List.not_mem_nil, fun _ _ h => absurd h List.not_mem_nil,
    fun _ _ _ h => absurd h (by simp)⟩

theorem processLoop_eq (ran stack : List Nat) : processLoop ran stack = ran ++ stack := by
  induction stack generalizing ran with
  | nil => rw [processLoop, List.append_nil]
  | cons cb stack ih => rw [processLoop, ih, List.append_assoc, List.singleton_append]

theorem destruct_top (s : State) : (destruct s).2.top = none := by
  rw [destruct]
  split
  next h => exact h
  next => rfl

theorem runsAll_around (m : Nat) {l : List Event} (h : RunsAll l) :
    RunsAll (.constructed m :: (l ++ [.destroyed m])) := by
  have hin : l <+ .constructed m :: (l ++ [.destroyed m]) :=
    (List.sublist_append_left l _).cons _
  constructor
  · intro m' c hc
    have hc : Event.registered m' c ∈ l := by simpa using hc
    simpa [List.count_append] using h.once m' c hc
  · intro m' c hc
    have hc : Event.registered m' c ∈ l := by simpa using hc
    exact (h.inTime m' c hc).trans hin
  · intro m' c c' hcc
    have hcc : [Event.registered m' c, .registered m' c'] <+ l ++ [.destroyed m] := by
      simpa [List.sublist_cons_iff] using hcc
    rcases pair_sublist_append.mp hcc with hcc | ⟨-, hc'⟩ | hcc
    · exact (h.reversed m' c c' hcc).trans hin
    · exact absurd hc' (by simp)
    · exact absurd (hcc.subset (List.mem_cons_self ..)) (by simp)

section Leaf

theorem exec_leaf {body : Calls} (hbody : Leaf body) (m : Nat) {s : State} (htop : s.top = some m) :
    ∃ k, exec body m s = ((List.range' s.callbacks k).map (.registered m),
      { s with
        stack := Function.update s.stack m ((List.range' s.callbacks k).reverse ++ s.stack m)
        callbacks := s.callbacks + k }) := by
  induction body generalizing s with
  | done =>
      refine ⟨0, ?_⟩
      simp [exec]
  | registerCallback rest ih =>
      have hnext : registerCallback s =
          { s with
            stack := Function.update s.stack m (s.callbacks :: s.stack m)
            callbacks := s.callbacks + 1 } := by
        rw [registerCallback, htop]
      obtain ⟨k, hk⟩ := ih hbody (s := registerCallback s) (by rw [hnext]; exact htop)
      refine ⟨k + 1, ?_⟩
      rw [exec, hk, hnext, List.range'_succ]
      simp [Nat.add_comm, Nat.add_left_comm]
  | manager body rest _ _ => exact absurd hbody not_false

def registeredCallback : Event → Option Nat
  | .registered _ c => some c
  | _ => none

theorem runsAll_leaf (m n k : Nat) :
    RunsAll (.constructed m :: ((List.range' n k).map (.registered m) ++
      ((List.range' n k).reverse.map .ran ++ [.destroyed m]))) := by
  have hran : (List.range' n k).reverse.map Event.ran <+
      .constructed m :: ((List.range' n k).map (.registered m) ++
        ((List.range' n k).reverse.map .ran ++ [.destroyed m])) :=
    ((List.sublist_append_left _ _).trans (List.sublist_append_right _ _)).cons _
  constructor
  · intro m' c hc
    have hc : c ∈ (List.range' n k).reverse := by
      simp at hc
      simpa using hc.1
    have hone := List.count_eq_one_of_mem (List.nodup_reverse.mpr List.nodup_range') hc
    rw [← List.count_map_of_injective _ Event.ran fun _ _ h => Event.ran.inj h] at hone
    have hregistered : List.count (Event.ran c) ((List.range' n k).map (.registered m)) = 0 :=
      List.count_eq_zero.mpr (by simp)
    simpa [List.count_append, hregistered] using hone
  · intro m' c hc
    obtain ⟨hc, rfl⟩ : (n ≤ c ∧ c < n + k) ∧ m = m' := by simpa using hc
    have hc : c ∈ (List.range' n k).reverse := by simpa using hc
    exact (((List.singleton_sublist.mpr (List.mem_map_of_mem hc)).append
      (List.Sublist.refl [Event.destroyed m])).trans (List.sublist_append_right _ _)).cons _
  · intro m' c c' hcc
    have hregistered : ((List.range' n k).map (Event.registered m)).filterMap registeredCallback =
        List.range' n k := by
      rw [List.filterMap_map]
      exact List.filterMap_some
    have hothers : ((List.range' n k).reverse.map Event.ran ++
        [Event.destroyed m]).filterMap registeredCallback = [] := by
      simp [List.filterMap_eq_nil_iff, registeredCallback]
    have hcc := hcc.filterMap registeredCallback
    rw [List.filterMap_cons_none (a := Event.constructed m) rfl, List.filterMap_append,
      hregistered, hothers] at hcc
    have hcc : [c, c'] <+ List.range' n k := by simpa [registeredCallback] using hcc
    exact (hcc.reverse.map Event.ran).trans hran

end Leaf

structure Drains (l : List Event) (s s' : State) : Prop where
  runsAll : RunsAll l
  between : ∀ e ∈ l, Between s s' e
  managers : s.managers ≤ s'.managers
  callbacks : s.callbacks ≤ s'.callbacks

theorem Between.mono {s₀ s s' s₁ : State} (hm : s₀.managers ≤ s.managers)
    (hc : s₀.callbacks ≤ s.callbacks) (hm' : s'.managers ≤ s₁.managers)
    (hc' : s'.callbacks ≤ s₁.callbacks) {e : Event} (he : Between s s' e) : Between s₀ s₁ e := by
  cases e <;> simp only [Between] at he ⊢ <;> omega

theorem drains_nil (s : State) : Drains [] s s :=
  ⟨runsAll_nil, fun _ h => absurd h List.not_mem_nil, (Nat.le_refl _), (Nat.le_refl _)⟩

theorem Drains.append {s s' s'' : State} {l l' : List Event} (h : Drains l s s')
    (h' : Drains l' s' s'') : Drains (l ++ l') s s'' := by
  refine ⟨h.runsAll.append h'.runsAll h.between h'.between, ?_,
    Nat.le_trans h.managers h'.managers, Nat.le_trans h.callbacks h'.callbacks⟩
  intro e he
  cases List.mem_append.mp he with
  | inl he => exact (h.between e he).mono (Nat.le_refl _) (Nat.le_refl _) h'.managers h'.callbacks
  | inr he => exact (h'.between e he).mono h.managers h.callbacks (Nat.le_refl _) (Nat.le_refl _)

theorem drains_leaf {body : Calls} (hbody : Leaf body) (s : State) :
    Drains (lifetime (exec body) s).1 s (lifetime (exec body) s).2 := by
  obtain ⟨k, hk⟩ := exec_leaf hbody s.managers (s := construct s) rfl
  have hevents : lifetime (exec body) s =
      (.constructed s.managers :: ((List.range' s.callbacks k).map (.registered s.managers) ++
        ((List.range' s.callbacks k).reverse.map .ran ++ [.destroyed s.managers])),
      { construct s with
        top := none
        callbacks := s.callbacks + k }) := by
    simp only [lifetime, hk]
    simp [destruct, construct, processCallbacksNow, processLoop_eq]
  rw [hevents]
  refine ⟨runsAll_leaf _ _ _, ?_, Nat.le_succ _, Nat.le_add_right _ _⟩
  intro e he
  cases e with
  | constructed m =>
      obtain rfl : m = s.managers := by simpa using he
      exact ⟨Nat.le_refl _, Nat.lt_succ_self _⟩
  | registered m c =>
      obtain ⟨⟨hc, hck⟩, rfl⟩ : (s.callbacks ≤ c ∧ c < s.callbacks + k) ∧ s.managers = m := by
        simpa using he
      exact ⟨Nat.le_refl _, Nat.lt_succ_self _, hc, hck⟩
  | ran c =>
      have hc : s.callbacks ≤ c ∧ c < s.callbacks + k := by simpa using he
      exact hc
  | destroyed m =>
      obtain rfl : m = s.managers := by simpa using he
      exact ⟨Nat.le_refl _, Nat.lt_succ_self _⟩

/-- A destructor has nothing to run where there is no top manager, or nothing on its
stack. -/
theorem destruct_empty {s : State} (h : ∀ m, s.top = some m → s.stack m = []) :
    (destruct s).1 = [] ∧ (destruct s).2.managers = s.managers ∧
      (destruct s).2.callbacks = s.callbacks := by
  rw [destruct]
  split
  next => exact ⟨rfl, rfl, rfl⟩
  next m htop => simp [processCallbacksNow, htop, h m htop, processLoop]

theorem drains_around {body : Calls} {s : State}
    (h : Drains (exec body s.managers (construct s)).1 (construct s)
      (exec body s.managers (construct s)).2)
    (htop : ∀ m, (exec body s.managers (construct s)).2.top = some m →
      (exec body s.managers (construct s)).2.stack m = []) :
    Drains (lifetime (exec body) s).1 s (lifetime (exec body) s).2 := by
  obtain ⟨hran, hmanagers, hcallbacks⟩ := destruct_empty htop
  have hlt : s.managers < (destruct (exec body s.managers (construct s)).2).2.managers := by
    rw [hmanagers]
    exact h.managers
  simp only [lifetime, hran, List.map_nil, List.nil_append]
  refine ⟨runsAll_around _ h.runsAll, ?_, Nat.le_of_lt hlt, by rw [hcallbacks]; exact h.callbacks⟩
  intro e he
  rcases List.mem_cons.mp he with rfl | he
  · exact ⟨Nat.le_refl _, hlt⟩
  cases List.mem_append.mp he with
  | inl he =>
      have hle : s.managers ≤ (construct s).managers := Nat.le_succ _
      exact (h.between e he).mono hle (Nat.le_refl _) (Nat.le_of_eq hmanagers.symm)
        (Nat.le_of_eq hcallbacks.symm)
  | inr he =>
      obtain rfl := List.mem_singleton.mp he
      exact ⟨Nat.le_refl _, hlt⟩

theorem drains_quiet {body : Calls} (hbody : Quiet body) (m : Nat) (s : State) :
    Drains (exec body m s).1 s (exec body m s).2 ∧
      ((exec body m s).2 = s ∨ (exec body m s).2.top = none) := by
  induction body generalizing m s with
  | done => exact ⟨drains_nil s, .inl rfl⟩
  | registerCallback rest _ => exact absurd hbody not_false
  | manager inner rest ihInner ihRest =>
      obtain ⟨hinner, hrest⟩ := hbody
      have hlifetime : Drains (lifetime (exec inner) s).1 s (lifetime (exec inner) s).2 := by
        cases hinner with
        | inl hleaf => exact drains_leaf hleaf s
        | inr hquiet =>
            obtain ⟨hdrains, hend⟩ := ihInner hquiet s.managers (construct s)
            refine drains_around hdrains fun m' htop => ?_
            cases hend with
            | inl hsame =>
                rw [hsame] at htop ⊢
                obtain rfl := Option.some.inj htop
                exact Function.update_self ..
            | inr hnone => exact absurd (hnone.symm.trans htop) (by simp)
      obtain ⟨hdrains, hend⟩ := ihRest hrest m (lifetime (exec inner) s).2
      refine ⟨hlifetime.append hdrains, .inr ?_⟩
      cases hend with
      | inl hsame =>
          show (exec rest m (lifetime (exec inner) s).2).2.top = none
          rw [hsame]
          exact destruct_top _
      | inr hnone => exact hnone

theorem drains_lifetime {body : Calls} (hbody : Leaf body ∨ Quiet body) (s : State) :
    Drains (lifetime (exec body) s).1 s (lifetime (exec body) s).2 := by
  have hquiet : Quiet (.manager body .done) := ⟨hbody, trivial⟩
  have h := (drains_quiet hquiet 0 s).1
  rw [exec] at h
  simpa [exec] using h

theorem drains_session {bodies : List Calls} (h : ∀ body ∈ bodies, Leaf body ∨ Quiet body)
    (s : State) : Drains (session bodies s).1 s (session bodies s).2 := by
  induction bodies generalizing s with
  | nil => exact drains_nil s
  | cons body bodies ih =>
      rw [List.forall_mem_cons] at h
      exact (drains_lifetime h.1 s).append (ih h.2 _)

section Lost

def Lost (c : Nat) (s : State) : Prop :=
  c < s.callbacks ∧ ∀ m, s.top = some m → c ∉ s.stack m

theorem lost_construct {c : Nat} {s : State} (hc : c < s.callbacks) : Lost c (construct s) := by
  refine ⟨hc, fun m hm => ?_⟩
  obtain rfl := Option.some.inj hm
  simp [construct]

theorem lost_registerCallback {c : Nat} {s : State} (h : Lost c s) :
    Lost c (registerCallback s) := by
  rw [registerCallback]
  split
  next => exact ⟨Nat.lt_succ_of_lt h.1, h.2⟩
  next m htop =>
    refine ⟨Nat.lt_succ_of_lt h.1, fun m' hm' => ?_⟩
    obtain rfl := Option.some.inj (htop.symm.trans hm')
    simpa using ⟨Nat.ne_of_lt h.1, h.2 m htop⟩

theorem lost_destruct {c : Nat} {s : State} (h : Lost c s) :
    c ∉ (destruct s).1 ∧ Lost c (destruct s).2 := by
  rw [destruct]
  split
  next => exact ⟨List.not_mem_nil, h⟩
  next m htop =>
    rw [processCallbacksNow, htop]
    simpa [processLoop_eq] using ⟨h.2 m htop, h.1, fun _ => nofun⟩

def Loses (c : Nat) (run : List Event × State) : Prop := .ran c ∉ run.1 ∧ Lost c run.2

theorem loses_around {c : Nat} {body : Calls} {s : State}
    (h : Loses c (exec body s.managers (construct s))) : Loses c (lifetime (exec body) s) := by
  obtain ⟨hran, hlost⟩ := lost_destruct h.2
  simpa [Loses, lifetime, hlost] using ⟨h.1, hran⟩

theorem loses_exec {c : Nat} (body : Calls) (m : Nat) {s : State} (h : Lost c s) :
    Loses c (exec body m s) := by
  induction body generalizing m s with
  | done => exact ⟨List.not_mem_nil, h⟩
  | registerCallback rest ih =>
      obtain ⟨hran, hlost⟩ := ih m (lost_registerCallback h)
      exact ⟨by simpa [exec] using hran, hlost⟩
  | manager inner rest ihInner ihRest =>
      obtain ⟨hinner, hlost⟩ := loses_around (ihInner s.managers (lost_construct h.1))
      obtain ⟨hrest, hlost⟩ := ihRest m hlost
      exact ⟨by simpa [exec] using ⟨hinner, hrest⟩, hlost⟩

theorem loses_lifetime {c : Nat} (body : Calls) {s : State} (hc : c < s.callbacks) :
    Loses c (lifetime (exec body) s) :=
  loses_around (loses_exec body s.managers (lost_construct hc))

theorem loses_session {c : Nat} (bodies : List Calls) {s : State} (h : Lost c s) :
    Loses c (session bodies s) := by
  induction bodies generalizing s with
  | nil => exact ⟨List.not_mem_nil, h⟩
  | cons body bodies ih =>
      obtain ⟨hbody, hlost⟩ := loses_lifetime body h.1
      obtain ⟨hbodies, hlost⟩ := ih hlost
      exact ⟨by simpa [session] using ⟨hbody, hbodies⟩, hlost⟩

/-- A callback that is registered before a manager is constructed is lost with it. -/
theorem loses_shadowed {c : Nat} {body : Calls} (hbody : ¬ Leaf body) (m : Nat) {s : State}
    (hc : c < s.callbacks) : Loses c (exec body m s) := by
  induction body generalizing s with
  | done => exact absurd trivial hbody
  | registerCallback rest ih =>
      have hc : c < (registerCallback s).callbacks := by
        rw [registerCallback]
        split <;> exact Nat.lt_succ_of_lt hc
      obtain ⟨hran, hlost⟩ := ih hbody hc
      exact ⟨by simpa [exec] using hran, hlost⟩
  | manager inner rest _ _ =>
      obtain ⟨hinner, hlost⟩ := loses_lifetime inner hc
      obtain ⟨hrest, hlost⟩ := loses_exec rest m hlost
      exact ⟨by simpa [exec] using ⟨hinner, hrest⟩, hlost⟩

end Lost

def Known (s : State) : Prop := ∀ m, s.top = some m → ∀ c ∈ s.stack m, c < s.callbacks

/-- What any calls do: only callbacks that have been registered are run. -/
structure Numbered (run : List Event × State) (s : State) : Prop where
  known : Known run.2
  callbacks : s.callbacks ≤ run.2.callbacks
  ran : ∀ c, .ran c ∈ run.1 → c < run.2.callbacks

theorem known_construct (s : State) : Known (construct s) := by
  intro m hm
  obtain rfl := Option.some.inj hm
  simp [construct]

theorem numbered_registerCallback {s : State} (h : Known s) (m : Nat) :
    Numbered ([.registered m s.callbacks], registerCallback s) s := by
  have hnone : ∀ c, .ran c ∉ [Event.registered m s.callbacks] := by simp
  rw [registerCallback]
  split
  next htop =>
    exact ⟨fun m' hm' => absurd (htop.symm.trans hm') (by simp), Nat.le_succ _,
      fun c hc => absurd hc (hnone c)⟩
  next m' htop =>
    refine ⟨fun m'' hm'' c hc => ?_, Nat.le_succ _, fun c hc => absurd hc (hnone c)⟩
    obtain rfl := Option.some.inj (htop.symm.trans hm'')
    have hc : c = s.callbacks ∨ c ∈ s.stack m' := by simpa using hc
    cases hc with
    | inl hc => exact hc ▸ Nat.lt_succ_self _
    | inr hc => exact Nat.lt_succ_of_lt (h m' htop c hc)

theorem Numbered.append {l l' : List Event} {s s' s'' : State} (h : Numbered (l, s') s)
    (h' : Numbered (l', s'') s') : Numbered (l ++ l', s'') s := by
  refine ⟨h'.known, Nat.le_trans h.callbacks h'.callbacks, fun c hc => ?_⟩
  cases List.mem_append.mp hc with
  | inl hc => exact Nat.lt_of_lt_of_le (h.ran c hc) h'.callbacks
  | inr hc => exact h'.ran c hc

theorem numbered_around {body : Calls} {s : State}
    (h : Numbered (exec body s.managers (construct s)) (construct s)) :
    Numbered (lifetime (exec body) s) s := by
  generalize hrun : exec body s.managers (construct s) = run at h
  obtain ⟨l, s'⟩ := run
  have hcallbacks : (destruct s').2.callbacks = s'.callbacks ∧
      ∀ c ∈ (destruct s').1, c < s'.callbacks := by
    rw [destruct]
    split
    next => exact ⟨rfl, fun _ h => absurd h List.not_mem_nil⟩
    next m htop =>
      rw [processCallbacksNow, htop]
      exact ⟨rfl, by simpa [processLoop_eq] using h.known m htop⟩
  simp only [lifetime, hrun]
  refine ⟨fun m hm => absurd ((destruct_top s').symm.trans hm) (by simp), ?_, fun c hc => ?_⟩
  · rw [hcallbacks.1]
    exact h.callbacks
  · show c < (destruct s').2.callbacks
    rw [hcallbacks.1]
    have hc : .ran c ∈ l ∨ c ∈ (destruct s').1 := by simpa using hc
    exact hc.elim (h.ran c) (hcallbacks.2 c)

theorem numbered_exec (body : Calls) (m : Nat) {s : State} (h : Known s) :
    Numbered (exec body m s) s := by
  induction body generalizing m s with
  | done => exact ⟨h, Nat.le_refl _, fun _ h => absurd h List.not_mem_nil⟩
  | registerCallback rest ih =>
      have hfirst := numbered_registerCallback h m
      exact hfirst.append (ih m hfirst.known)
  | manager inner rest ihInner ihRest =>
      have hinner := numbered_around (ihInner s.managers (known_construct s))
      exact hinner.append (ihRest m hinner.known)

theorem numbered_lifetime (body : Calls) (s : State) : Numbered (lifetime (exec body) s) s :=
  numbered_around (numbered_exec body s.managers (known_construct s))

def Misses (run : List Event × State) (s : State) : Prop :=
  ∃ m c, .registered m c ∈ run.1 ∧ s.callbacks ≤ c ∧ Loses c run

theorem Misses.before {l l' : List Event} {s s' s'' : State} (h : Misses (l', s'') s')
    (hl : Numbered (l, s') s) : Misses (l ++ l', s'') s := by
  obtain ⟨m, c, hmem, hle, hran, hlost⟩ := h
  refine ⟨m, c, List.mem_append_right _ hmem, Nat.le_trans hl.callbacks hle, ?_, hlost⟩
  rintro hc
  cases List.mem_append.mp hc with
  | inl hc => exact absurd (hl.ran c hc) (Nat.not_lt.mpr hle)
  | inr hc => exact hran hc

theorem Misses.after {l l' : List Event} {s s' s'' : State} (h : Misses (l, s') s)
    (hl' : ∀ c, Lost c s' → Loses c (l', s'')) : Misses (l ++ l', s'') s := by
  obtain ⟨m, c, hmem, hle, hran, hlost⟩ := h
  obtain ⟨hran', hlost⟩ := hl' c hlost
  exact ⟨m, c, List.mem_append_left _ hmem, hle, by simpa using ⟨hran, hran'⟩, hlost⟩

theorem misses_around {body : Calls} {s : State}
    (h : Misses (exec body s.managers (construct s)) (construct s)) :
    Misses (lifetime (exec body) s) s := by
  obtain ⟨m, c, hmem, hle, hloses⟩ := h
  exact ⟨m, c, by simpa [lifetime] using hmem, hle, loses_around hloses⟩

theorem misses_registered {rest : Calls} {m : Nat} {s : State}
    (h : Loses s.callbacks (exec rest m (registerCallback s))) :
    Misses (exec (.registerCallback rest) m s) s :=
  ⟨m, s.callbacks, List.mem_cons_self .., Nat.le_refl _, by simpa [exec] using h.1, h.2⟩

/-- Where calls that are not quiet meet no top manager, or take it away. -/
theorem misses_exec {body : Calls} (hbody : ¬ Quiet body) (m : Nat) {s : State} (hs : Known s)
    (h : s.top = none ∨ ¬ Leaf body) : Misses (exec body m s) s := by
  induction body generalizing m s with
  | done => exact absurd trivial hbody
  | registerCallback rest _ =>
      refine misses_registered ?_
      cases h with
      | inl htop =>
          refine loses_exec rest m ?_
          rw [registerCallback, htop]
          exact ⟨Nat.lt_succ_self _, fun _ => nofun⟩
      | inr hrest =>
          have hrest : ¬ Leaf rest := hrest
          refine loses_shadowed hrest m ?_
          rw [registerCallback]
          split <;> exact Nat.lt_succ_self _
  | manager inner rest ihInner ihRest =>
      by_cases hinner : Leaf inner ∨ Quiet inner
      · have hrest : ¬ Quiet rest := fun hrest => hbody ⟨hinner, hrest⟩
        have hlifetime := numbered_lifetime inner s
        exact (ihRest hrest m hlifetime.known (.inl (destruct_top _))).before hlifetime
      · obtain ⟨hleaf, hquiet⟩ := not_or.mp hinner
        have hmisses := ihInner hquiet s.managers (known_construct s) (.inr hleaf)
        exact (misses_around hmisses).after fun c hc => loses_exec rest m hc

theorem misses_session {bodies : List Calls} (h : ¬ ∀ body ∈ bodies, Leaf body ∨ Quiet body)
    (s : State) : Misses (session bodies s) s := by
  induction bodies generalizing s with
  | nil => exact absurd (fun _ h => absurd h List.not_mem_nil) h
  | cons body bodies ih =>
      by_cases hbody : Leaf body ∨ Quiet body
      · have hbodies : ¬ ∀ body ∈ bodies, Leaf body ∨ Quiet body := fun hbodies =>
          h (List.forall_mem_cons.mpr ⟨hbody, hbodies⟩)
        exact (ih hbodies _).before (numbered_lifetime body s)
      · obtain ⟨hleaf, hquiet⟩ := not_or.mp hbody
        have hmisses := misses_exec hquiet s.managers (known_construct s) (.inr hleaf)
        exact (misses_around hmisses).after fun c hc => loses_session bodies hc

/-- All callbacks are run as they should be exactly where no manager that is constructed
in the lifetime of another takes the callbacks of that one with it. -/
theorem callbacks_run (bodies : List Calls) :
    RunsAll (events bodies) ↔ ∀ body ∈ bodies, Leaf body ∨ Quiet body := by
  constructor
  · intro h
    by_contra hbodies
    obtain ⟨m, c, hmem, -, hran, -⟩ := misses_session hbodies .initial
    have hone := h.once m c hmem
    rw [events, List.count_eq_zero.mpr hran] at hone
    exact absurd hone (by decide)
  · intro h
    exact (drains_session h .initial).runsAll

/-- The callback of the outer manager is not run after an inner manager is destroyed. -/
theorem shadowed_callback_lost :
    ¬ RunsAll (events [.registerCallback (.manager .done .done)]) := by
  intro h
  have hone := h.once 0 0 (by decide)
  exact absurd hone (by decide)

end Ashe.AtExitOrder
