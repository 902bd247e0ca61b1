import Ashe.Runs
import Ashe.SingletonProcess

namespace Ashe.SingletonLock

open SingletonProcess Runs

def HasLock (s : System) (o : Instance) : Prop := o.pidFile ≠ none ∧ s.lock = o.pidFile

/-- Of the processes whose call of markAndCheckStartup has returned, and which can ask
isPrimary, one at most is primary, and it has the lock. -/
structure Exclusive (s : System) : Prop where
  one : ∀ p q o o', s.instances p = some o → s.instances q = some o' → o.call = .returned →
    o'.call = .returned → o.isPrimary = true → o'.isPrimary = true → p = q
  refused : ∀ p o, s.instances p = some o → o.call = .returned → ¬ HasLock s o →
    o.isPrimary = false

/-- The name is not empty, and flock grants the lock. -/
def Granted (name : String) : Label → Prop
  | .mark _ => name ≠ ""
  | .flock _ rc => rc = .granted
  | _ => True

inductive Moves (name : String) (s : System) : Label → System → Prop
  | construct {p : Nat} (hp : s.instances p = none) :
      Moves name s (.construct p) (s.put p constructed)
  | mark {p : Nat} {o : Instance} (ho : s.instances p = some o)
      (hc : o.call = .before ∨ o.call = .returned) :
      Moves name s (.mark p) (s.put p (markAndCheckStartup name o))
  | opened {p : Nat} {o : Instance} (ho : s.instances p = some o) (hc : o.call = .opening) :
      Moves name s (.openFile p true) ({ s with opened := s.opened + 1 }.put p
        { o with pidFile := some s.opened, call := .locking })
  | unopened {p : Nat} {o : Instance} (ho : s.instances p = some o) (hc : o.call = .opening) :
      Moves name s (.openFile p false) (s.put p { o with pidFile := none, call := .locking })
  | granted {p : Nat} {o : Instance} {d : Nat} (ho : s.instances p = some o)
      (hc : o.call = .locking) (hd : o.pidFile = some d) (hl : s.lock = none ∨ s.lock = some d) :
      Moves name s (.flock p .granted)
        ({ s with lock := some d }.put p (checkLocked .granted o))
  | refused {p : Nat} {o : Instance} {rc : Flock} (ho : s.instances p = some o)
      (hc : o.call = .locking) (hrc : rc ≠ .granted) :
      Moves name s (.flock p rc) (s.put p (checkLocked rc o))
  | exit {p : Nat} {o : Instance} (ho : s.instances p = some o) :
      Moves name s (.exit p) (SingletonProcess.exit p o s)

theorem step_moves {name : String} {s s' : System} {l : Label} (h : step name s l = some s') :
    Moves name s l s' := by
  cases l with
  | construct p =>
      simp only [step, Option.ite_none_right_eq_some, Option.some.injEq] at h
      obtain ⟨hp, rfl⟩ := h
      exact .construct hp
  | mark p =>
      rw [step, Option.bind_eq_some_iff] at h
      obtain ⟨o, ho, h⟩ := h
      simp only [Option.ite_none_right_eq_some, Option.some.injEq] at h
      obtain ⟨hc, rfl⟩ := h
      exact .mark ho hc
  | openFile p ok =>
      rw [step, Option.bind_eq_some_iff] at h
      obtain ⟨o, ho, h⟩ := h
      simp only [Option.ite_none_right_eq_some, Option.some.injEq] at h
      obtain ⟨hc, rfl⟩ := h
      cases ok with
      | true => exact .opened ho hc
      | false => exact .unopened ho hc
  | flock p rc =>
      rw [step, Option.bind_eq_some_iff] at h
      obtain ⟨o, ho, h⟩ := h
      rw [Option.ite_none_right_eq_some] at h
      obtain ⟨hc, h⟩ := h
      unfold flock at h
      split at h
      next d hd =>
        rw [Option.ite_none_right_eq_some] at h
        obtain rfl := Option.some.inj h.2
        exact .granted ho hc hd h.1
      next d hd =>
        rw [Option.ite_none_right_eq_some] at h
        obtain rfl := Option.some.inj h.2
        exact .refused ho hc nofun
      next =>
        obtain rfl := Option.some.inj h
        exact .refused ho hc nofun
      next => cases h
  | exit p =>
      rw [step, Option.bind_eq_some_iff] at h
      obtain ⟨o, ho, h⟩ := h
      obtain rfl := Option.some.inj h
      exact .exit ho

theorem mark_cases (name : String) (o : Instance) :
    (name ≠ "" ∧ o.uniqueName = "" ∧
      markAndCheckStartup name o = { o with uniqueName := name, call := .opening }) ∨
    ((name = "" ∨ o.uniqueName ≠ "") ∧
      markAndCheckStartup name o = { o with call := .returned }) := by
  rw [markAndCheckStartup]
  split
  next h =>
    have h : o.uniqueName = "" ∧ name ≠ "" := by simpa using h
    exact .inl ⟨h.2, h.1, rfl⟩
  next h =>
    have h : o.uniqueName = "" → name = "" := by simpa using h
    exact .inr ⟨(Decidable.em (o.uniqueName = "")).imp h id, rfl⟩

/-- Whatever flock returns, the process is primary. -/
theorem checkLocked_eq (rc : Flock) (o : Instance) :
    checkLocked rc o = { o with isPrimary := true, call := .returned } := by
  rw [checkLocked]
  split <;> rfl

theorem put_self (s : System) (p : Nat) (o : Instance) : (s.put p o).instances p = some o :=
  Function.update_self ..

theorem put_ne (s : System) {p q : Nat} (h : q ≠ p) (o : Instance) :
    (s.put p o).instances q = s.instances q :=
  Function.update_of_ne h ..

/-- An open file description belongs to one process, which has no lock before flock has
given it one. -/
structure Owned (s : System) : Prop where
  bound : ∀ p o d, s.instances p = some o → o.pidFile = some d → d < s.opened
  locked : ∀ d, s.lock = some d → d < s.opened
  distinct : ∀ p q o o' d, s.instances p = some o → s.instances q = some o' →
    o.pidFile = some d → o'.pidFile = some d → p = q
  unlocked : ∀ p o d, s.instances p = some o → o.call = .locking → o.pidFile = some d →
    s.lock ≠ some d
  primary : ∀ p o, s.instances p = some o → o.isPrimary = true

theorem initial_owned : Owned initial := ⟨nofun, nofun, nofun, nofun, nofun⟩

theorem put_cases {s : System} {p q : Nat} {o o' : Instance}
    (hq : (s.put p o).instances q = some o') :
    (q = p ∧ o' = o) ∨ (q ≠ p ∧ s.instances q = some o') := by
  by_cases hqp : q = p
  · rw [hqp, put_self] at hq
    exact .inl ⟨hqp, (Option.some.inj hq).symm⟩
  · rw [put_ne s hqp] at hq
    exact .inr ⟨hqp, hq⟩

theorem exit_cases {s : System} {p q : Nat} {o o' : Instance}
    (hq : (SingletonProcess.exit p o s).instances q = some o') :
    q ≠ p ∧ s.instances q = some o' := by
  by_cases hqp : q = p
  · simp [SingletonProcess.exit, hqp] at hq
  · exact ⟨hqp, by simpa [SingletonProcess.exit, hqp] using hq⟩

theorem Owned.put {s : System} {p : Nat} {o : Instance} (h : Owned s)
    (hbound : ∀ d, o.pidFile = some d → d < s.opened)
    (hdistinct : ∀ q o' d, q ≠ p → s.instances q = some o' → o.pidFile = some d →
      o'.pidFile ≠ some d)
    (hunlocked : ∀ d, o.call = .locking → o.pidFile = some d → s.lock ≠ some d)
    (hprimary : o.isPrimary = true) : Owned (s.put p o) := by
  refine ⟨fun q o' d hq hd => ?_, h.locked, fun q r o' o'' d hq hr hd hd' => ?_,
    fun q o' d hq hc hd => ?_, fun q o' hq => ?_⟩
  · rcases put_cases hq with ⟨-, rfl⟩ | ⟨-, hq⟩
    · exact hbound d hd
    · exact h.bound q o' d hq hd
  · rcases put_cases hq with ⟨rfl, rfl⟩ | ⟨hqp, hq'⟩
    · rcases put_cases hr with ⟨rfl, -⟩ | ⟨hrp, hr'⟩
      · rfl
      · exact absurd hd' (hdistinct r o'' d hrp hr' hd)
    · rcases put_cases hr with ⟨rfl, rfl⟩ | ⟨-, hr'⟩
      · exact absurd hd (hdistinct q o' d hqp hq' hd')
      · exact h.distinct q r o' o'' d hq' hr' hd hd'
  · rcases put_cases hq with ⟨-, rfl⟩ | ⟨-, hq⟩
    · exact hunlocked d hc hd
    · exact h.unlocked q o' d hq hc hd
  · rcases put_cases hq with ⟨-, rfl⟩ | ⟨-, hq⟩
    · exact hprimary
    · exact h.primary q o' hq

theorem Owned.same {s : System} {p : Nat} {o o' : Instance} (h : Owned s)
    (ho : s.instances p = some o) (hfile : o'.pidFile = o.pidFile) (hcall : o'.call ≠ .locking)
    (hprimary : o'.isPrimary = true) : Owned (s.put p o') := by
  refine h.put (fun d hd => h.bound p o d ho (hfile ▸ hd)) (fun q o'' d hqp hq hd hd' => ?_)
    (fun d hc => absurd hc hcall) hprimary
  exact hqp (h.distinct q p o'' o d hq ho hd' (hfile ▸ hd))

theorem moves_owned {name : String} {s s' : System} {l : Label} (h : Owned s)
    (hm : Moves name s l s') : Owned s' := by
  cases hm with
  | construct hp => exact h.put nofun (fun _ _ _ _ _ => nofun) nofun rfl
  | @mark p o ho hc =>
      have hprimary := h.primary p o ho
      rcases mark_cases name o with ⟨-, -, hmark⟩ | ⟨-, hmark⟩
      · rw [hmark]
        exact h.same ho rfl nofun hprimary
      · rw [hmark]
        exact h.same ho rfl nofun hprimary
  | @opened p o ho hc =>
      have hmore : Owned { s with opened := s.opened + 1 } :=
        ⟨fun q o d hq hd => Nat.lt_succ_of_lt (h.bound q o d hq hd),
          fun d hd => Nat.lt_succ_of_lt (h.locked d hd), h.distinct, h.unlocked, h.primary⟩
      refine hmore.put (fun d hd => ?_) (fun q o' d _ hq hd hd' => ?_) (fun d _ hd hl => ?_)
        (h.primary p o ho)
      · obtain rfl := Option.some.inj hd
        exact Nat.lt_succ_self _
      · obtain rfl := Option.some.inj hd
        exact Nat.lt_irrefl _ (h.bound q o' _ hq hd')
      · obtain rfl := Option.some.inj hd
        exact Nat.lt_irrefl _ (h.locked _ hl)
  | @unopened p o ho hc =>
      exact h.put nofun (fun _ _ _ _ _ => nofun) (fun _ _ => nofun) (h.primary p o ho)
  | @granted p o d ho hc hd hl =>
      rw [checkLocked_eq]
      have hput : Owned (s.put p { o with isPrimary := true, call := .returned }) :=
        h.same ho rfl nofun rfl
      refine ⟨hput.bound, fun e he => ?_, hput.distinct, fun q o' e hq hc' he hl' => ?_,
        hput.primary⟩
      · obtain rfl := Option.some.inj he
        exact h.bound p o _ ho hd
      · obtain rfl := Option.some.inj hl'
        obtain rfl := hput.distinct q p o' _ _ hq (put_self ..) he hd
        obtain rfl := Option.some.inj ((put_self ..).symm.trans hq)
        cases hc'
  | refused ho hc hrc =>
      rw [checkLocked_eq]
      exact h.same ho rfl nofun rfl
  | @exit p o ho =>
      have hlock : ∀ d, (SingletonProcess.exit p o s).lock = some d → s.lock = some d := by
        intro d hd
        simp only [SingletonProcess.exit] at hd
        split at hd
        next => cases hd
        next => exact hd
      exact ⟨fun q o' d hq => h.bound q o' d (exit_cases hq).2,
        fun d hd => h.locked d (hlock d hd),
        fun q r o' o'' d hq hr => h.distinct q r o' o'' d (exit_cases hq).2 (exit_cases hr).2,
        fun q o' d hq hc hd hl => h.unlocked q o' d (exit_cases hq).2 hc hd (hlock d hl),
        fun q o' hq => h.primary q o' (exit_cases hq).2⟩

structure Settled (s : System) : Prop where
  owned : Owned s
  fresh : ∀ p o, s.instances p = some o → o.call = .before → o.uniqueName = ""
  locked : ∀ p o, s.instances p = some o → o.call = .returned → HasLock s o

theorem initial_settled : Settled initial := ⟨initial_owned, nofun, nofun⟩

/-- The object takes another place before the call returns, or comes back to it. -/
theorem Settled.put {s s' : System} {p : Nat} {o : Instance} (h : Settled s) (howned : Owned s')
    (hs : s'.instances = (s.put p o).instances) (hlock : s'.lock = s.lock)
    (hfresh : o.call = .before → o.uniqueName = "")
    (hlocked : o.call = .returned → HasLock s o) : Settled s' := by
  refine ⟨howned, fun q o' hq => ?_, fun q o' hq hc => ?_⟩
  · rw [hs] at hq
    rcases put_cases hq with ⟨-, rfl⟩ | ⟨-, hq⟩
    · exact hfresh
    · exact h.fresh q o' hq
  · rw [hs] at hq
    rw [HasLock, hlock]
    rcases put_cases hq with ⟨-, rfl⟩ | ⟨-, hq⟩
    · exact hlocked hc
    · exact h.locked q o' hq hc

theorem moves_settled {name : String} {s s' : System} {l : Label} (h : Settled s)
    (hg : Granted name l) (hm : Moves name s l s') : Settled s' := by
  have howned := moves_owned h.owned hm
  cases hm with
  | construct hp => exact h.put howned rfl rfl (fun _ => rfl) nofun
  | @mark p o ho hc =>
      rcases mark_cases name o with ⟨-, -, hmark⟩ | ⟨hname, hmark⟩
      · rw [hmark] at howned ⊢
        exact h.put howned rfl rfl nofun nofun
      · rw [hmark] at howned ⊢
        refine h.put howned rfl rfl nofun fun _ => ?_
        have hbefore : o.call ≠ .before := fun hbefore =>
          hname.resolve_left hg (h.fresh p o ho hbefore)
        exact h.locked p o ho (hc.resolve_left hbefore)
  | opened ho hc => exact h.put howned rfl rfl nofun nofun
  | unopened ho hc => exact h.put howned rfl rfl nofun nofun
  | @granted p o d ho hc hd hl =>
      rw [checkLocked_eq] at howned ⊢
      refine ⟨howned, fun q o' hq hbefore => ?_, fun q o' hq hreturned => ?_⟩
      · rcases put_cases hq with ⟨-, rfl⟩ | ⟨-, hq⟩
        · cases hbefore
        · exact h.fresh q o' hq hbefore
      · rcases put_cases hq with ⟨-, rfl⟩ | ⟨hqp, hq⟩
        · exact ⟨by simp [hd], hd.symm⟩
        · obtain ⟨hfile, hlock⟩ := h.locked q o' hq hreturned
          have hd' : o'.pidFile = some d := by
            cases hl with
            | inl hl => exact absurd (hlock.symm.trans hl) hfile
            | inr hl => exact hlock.symm.trans hl
          exact absurd (h.owned.distinct q p o' o d hq ho hd' hd) hqp
  | refused ho hc hrc => exact absurd hg hrc
  | @exit p o ho =>
      refine ⟨howned, fun q o' hq => h.fresh q o' (exit_cases hq).2, fun q o' hq hc => ?_⟩
      obtain ⟨hqp, hq⟩ := exit_cases hq
      obtain ⟨hfile, hlock⟩ := h.locked q o' hq hc
      refine ⟨hfile, ?_⟩
      have hkeep : ¬ (o.pidFile ≠ none ∧ s.lock = o.pidFile) := by
        rintro ⟨-, hp⟩
        obtain ⟨d, hd⟩ := Option.ne_none_iff_exists'.mp hfile
        exact hqp (h.owned.distinct q p o' o d hq ho hd (by rw [← hp, hlock, hd]))
      rw [SingletonProcess.exit, if_neg hkeep]
      exact hlock

theorem Settled.exclusive {s : System} (h : Settled s) : Exclusive s := by
  refine ⟨fun p q o o' hp hq hc hc' _ _ => ?_, fun p o hp hc hnot => ?_⟩
  · obtain ⟨hfile, hlock⟩ := h.locked p o hp hc
    obtain ⟨-, hlock'⟩ := h.locked q o' hq hc'
    obtain ⟨d, hd⟩ := Option.ne_none_iff_exists'.mp hfile
    exact h.owned.distinct p q o o' d hp hq hd (by rw [← hlock', hlock, hd])
  · exact absurd (h.locked p o hp hc) hnot

def Nameless (name : String) (s : System) : Prop :=
  name = "" → ∀ p o, s.instances p = some o →
    o.pidFile = none ∧ (o.call = .before ∨ o.call = .returned)

theorem moves_nameless {name : String} {s s' : System} {l : Label} (h : Nameless name s)
    (hm : Moves name s l s') : Nameless name s' := by
  intro hname q o' hq
  have h := h hname
  cases hm with
  | construct hp =>
      rcases put_cases hq with ⟨-, rfl⟩ | ⟨-, hq⟩
      · exact ⟨rfl, .inl rfl⟩
      · exact h q o' hq
  | @mark p o ho hc =>
      rcases mark_cases name o with ⟨hne, -⟩ | ⟨-, hmark⟩
      · exact absurd hname hne
      · rw [hmark] at hq
        rcases put_cases hq with ⟨-, rfl⟩ | ⟨-, hq⟩
        · exact ⟨(h p o ho).1, .inr rfl⟩
        · exact h q o' hq
  | opened ho hc | unopened ho hc | granted ho hc | refused ho hc =>
      have hcall := (h _ _ ho).2
      rw [hc] at hcall
      exact absurd hcall (by decide)
  | exit ho => exact h q o' (exit_cases hq).2

/-- Where the lock is not granted the process is primary without it. -/
theorem moves_granted {name : String} {s s' : System} {l : Label} (howned : Owned s)
    (hnameless : Nameless name s) (hm : Moves name s l s') (h : Exclusive s') :
    Granted name l := by
  cases hm with
  | construct | opened | unopened | exit => trivial
  | granted => rfl
  | @mark p o ho hc =>
      intro hname
      rcases mark_cases name o with ⟨hne, -⟩ | ⟨-, hmark⟩
      · exact hne hname
      · rw [hmark] at h
        have hnot := h.refused p _ (put_self ..) rfl fun hlock => hlock.1 (hnameless hname p o ho).1
        exact absurd (hnot.symm.trans (howned.primary p o ho)) nofun
  | @refused p o rc ho hc hrc =>
      rw [checkLocked_eq] at h
      have hnot := h.refused p _ (put_self ..) rfl fun ⟨hfile, hlock⟩ => by
        obtain ⟨d, hd⟩ := Option.ne_none_iff_exists'.mp hfile
        exact howned.unlocked p o d ho hc hd (hlock.trans hd)
      cases hnot

/-- One process at most is primary, with the lock, exactly in the runs in which every call
of flock is granted the lock. -/
theorem exclusive_iff (name : String) (ls : List Label) :
    Along (step name) (fun _ _ s' => Exclusive s') initial ls ↔
      Along (step name) (fun _ l _ => Granted name l) initial ls := by
  constructor
  · intro hexclusive
    refine along_of_invariant (I := fun s => Owned s ∧ Nameless name s) ?_
      ⟨initial_owned, fun _ => nofun⟩ hexclusive
    intro s l s' h hexclusive hs
    have hm := step_moves hs
    exact ⟨⟨moves_owned h.1 hm, moves_nameless h.2 hm⟩, moves_granted h.1 h.2 hm hexclusive⟩
  · intro hgranted
    refine along_of_invariant (I := Settled) ?_ initial_settled hgranted
    intro s l s' h hg hs
    have h := moves_settled h hg (step_moves hs)
    exact ⟨h, h.exclusive⟩

/-- A second process, which is refused the lock, is primary as well. -/
theorem refused_process_primary :
    ¬ Along (step "ashe") (fun _ _ s' => Exclusive s') initial
      ([.construct 0, .mark 0, .openFile 0 true, .flock 0 .granted, .construct 1, .mark 1,
        .openFile 1 true] ++ [.flock 1 .wouldBlock]) := by
  intro h
  have h := h.last rfl rfl
  have hboth := h.one 0 1 _ _ rfl rfl rfl rfl rfl rfl
  exact absurd hboth (by decide)

end Ashe.SingletonLock
