import Mathlib.Data.List.Basic

namespace Ashe.Runs

variable {σ τ ℓ κ : Type} {step : σ → ℓ → Option σ} {next : τ → κ → Option τ}

/-- Carry out a schedule label by label. A label that is not enabled in the
state it meets has no successor, and the schedule then has no final state. -/
def exec (step : σ → ℓ → Option σ) : σ → List ℓ → Option σ
  | s, [] => some s
  | s, l :: ls => (step s l).bind (fun t => exec step t ls)

/-- Every step the schedule takes satisfies the predicate on the state before
it, its label and the state after it. -/
def Along (step : σ → ℓ → Option σ) (P : σ → ℓ → σ → Prop) : σ → List ℓ → Prop
  | _, [] => True
  | s, l :: ls => ∀ t, step s l = some t → P s l t ∧ Along step P t ls

instance decidableAlong {P : σ → ℓ → σ → Prop} [∀ s l t, Decidable (P s l t)] :
    ∀ s ls, Decidable (Along step P s ls)
  | _, [] => .isTrue trivial
  | s, l :: ls => match h : step s l with
    | none => .isTrue (by simp [Along, h])
    | some t => match decidableAlong (P := P) t ls with
      | .isTrue hr => decidable_of_iff (P s l t) (by simp [Along, h, hr])
      | .isFalse hr => .isFalse (by simp [Along, h, hr])

def Reachable (step : σ → ℓ → Option σ) (s t : σ) : Prop := ∃ ls, exec step s ls = some t

theorem exec_cons {s u : σ} {l : ℓ} {ls : List ℓ} :
    exec step s (l :: ls) = some u ↔ ∃ t, step s l = some t ∧ exec step t ls = some u := by
  simp [exec, Option.bind_eq_some_iff]

theorem exec_append {s u : σ} {ls ms : List ℓ} :
    exec step s (ls ++ ms) = some u ↔ ∃ t, exec step s ls = some t ∧ exec step t ms = some u := by
  induction ls generalizing s with
  | nil => simp [exec]
  | cons l ls ih =>
      simp only [List.cons_append, exec_cons, ih]
      constructor
      · rintro ⟨t, ht, v, hv, hu⟩
        exact ⟨v, ⟨t, ht, hv⟩, hu⟩
      · rintro ⟨v, ⟨t, ht, hv⟩, hu⟩
        exact ⟨t, ht, v, hv, hu⟩

theorem exec_snoc {s t u : σ} {l : ℓ} {ls : List ℓ} (h : exec step s ls = some t)
    (hl : step t l = some u) : exec step s (ls ++ [l]) = some u :=
  exec_append.mpr ⟨t, h, exec_cons.mpr ⟨u, hl, rfl⟩⟩

theorem Reachable.snoc {s t u : σ} {l : ℓ} (h : Reachable step s t) (hl : step t l = some u) :
    Reachable step s u := by
  obtain ⟨ls, hs⟩ := h
  exact ⟨ls ++ [l], exec_snoc hs hl⟩

theorem Along.last {P : σ → ℓ → σ → Prop} {s t u : σ} {ls : List ℓ} {l : ℓ}
    (h : Along step P s (ls ++ [l])) (ht : exec step s ls = some t) (hu : step t l = some u) :
    P t l u := by
  induction ls generalizing s with
  | nil =>
      obtain rfl := Option.some.inj ht
      exact (h u hu).1
  | cons m ls ih =>
      obtain ⟨v, hv, ht⟩ := exec_cons.mp ht
      exact ih (h v hv).2 ht

theorem Along.and {P Q : σ → ℓ → σ → Prop} {s : σ} {ls : List ℓ} (hP : Along step P s ls)
    (hQ : Along step Q s ls) : Along step (fun s l t => P s l t ∧ Q s l t) s ls := by
  induction ls generalizing s with
  | nil => trivial
  | cons l ls ih =>
      exact fun t ht => ⟨⟨(hP t ht).1, (hQ t ht).1⟩, ih (hP t ht).2 (hQ t ht).2⟩

theorem along_of_labels {Q : ℓ → Prop} {s : σ} {ls : List ℓ} (h : ∀ l ∈ ls, Q l) :
    Along step (fun _ l _ => Q l) s ls := by
  induction ls generalizing s with
  | nil => trivial
  | cons l ls ih =>
      exact fun t _ => ⟨h l (by simp), ih (fun m hm => h m (List.mem_cons_of_mem _ hm))⟩

theorem along_true {s : σ} {ls : List ℓ} : Along step (fun _ _ _ => True) s ls :=
  along_of_labels (Q := fun _ => True) (fun _ _ => trivial)

/-- The invariant rule for schedules whose steps all meet a guard: what each
guarded step preserves holds after the schedule, and what each guarded step
guarantees holds along it. -/
theorem along_of_invariant {I : σ → Prop} {G P : σ → ℓ → σ → Prop}
    (hstep : ∀ s l t, I s → G s l t → step s l = some t → I t ∧ P s l t)
    {s : σ} {ls : List ℓ} (hs : I s) (hG : Along step G s ls) : Along step P s ls := by
  induction ls generalizing s with
  | nil => trivial
  | cons l ls ih =>
      intro t ht
      obtain ⟨hI, hP⟩ := hstep s l t hs (hG t ht).1 ht
      exact ⟨hP, ih hI (hG t ht).2⟩

/-- The invariant rule for every schedule. -/
theorem along_of_step {I : σ → Prop} {P : σ → ℓ → σ → Prop}
    (hstep : ∀ s l t, I s → step s l = some t → I t ∧ P s l t)
    {s : σ} {ls : List ℓ} (hs : I s) : Along step P s ls := by
  apply along_of_invariant (G := fun _ _ _ => True) _ hs along_true
  intro s l t hI _ ht
  exact hstep s l t hI ht

theorem exec_of_invariant {I : σ → Prop} {G : σ → ℓ → σ → Prop}
    (hstep : ∀ s l t, I s → G s l t → step s l = some t → I t)
    {s t : σ} {ls : List ℓ} (hs : I s) (hG : Along step G s ls) (ht : exec step s ls = some t) :
    I t := by
  induction ls generalizing s with
  | nil => exact Option.some.inj ht ▸ hs
  | cons l ls ih =>
      obtain ⟨u, hu, hr⟩ := exec_cons.mp ht
      exact ih (hstep s l u hs (hG u hu).1 hu) (hG u hu).2 hr

theorem Reachable.invariant {I : σ → Prop} (hstep : ∀ s l t, I s → step s l = some t → I t)
    {s t : σ} (hs : I s) (h : Reachable step s t) : I t := by
  obtain ⟨ls, hl⟩ := h
  exact exec_of_invariant (G := fun _ _ _ => True) (fun s l t hI _ => hstep s l t hI) hs
    along_true hl

/-- A projection whose steps are steps of the other system, or none at all,
maps runs to runs. -/
theorem Reachable.map {f : σ → τ}
    (hstep : ∀ s l t, step s l = some t → f t = f s ∨ ∃ k, next (f s) k = some (f t))
    {s t : σ} (h : Reachable step s t) : Reachable next (f s) (f t) := by
  refine h.invariant (I := fun u => Reachable next (f s) (f u)) ?_ ⟨[], rfl⟩
  intro u l v hu hv
  rcases hstep u l v hv with he | ⟨k, hk⟩
  · rw [he]; exact hu
  · exact hu.snoc hk

end Ashe.Runs
