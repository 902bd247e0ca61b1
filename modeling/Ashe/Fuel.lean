import Mathlib.Data.List.Basic

namespace Ashe.Fuel

variable {α β : Type}

/-- A result stays what it is when there is more fuel. -/
def Steady (f : Nat → Option α) : Prop := ∀ n x, f n = some x → f (n + 1) = some x

def Yields (f : Nat → Option α) (x : α) : Prop := ∃ n, f n = some x

def Ends (f : Nat → Option α) : Prop := ∃ x, Yields f x

theorem Steady.le {f : Nat → Option α} (hf : Steady f) {n m : Nat} (hnm : n ≤ m) {x : α}
    (h : f n = some x) : f m = some x := by
  induction hnm with
  | refl => exact h
  | step _ ih => exact hf _ x ih

theorem Steady.eventually {f : Nat → Option α} (hf : Steady f) {x : α} (hx : Yields f x) :
    ∃ enough, ∀ n, enough ≤ n → f n = some x := by
  obtain ⟨enough, hx⟩ := hx
  exact ⟨enough, fun n hn => hf.le hn hx⟩

theorem Steady.unique {f : Nat → Option α} (hf : Steady f) {x y : α} (hx : Yields f x)
    (hy : Yields f y) : x = y := by
  obtain ⟨n, hx⟩ := hx
  obtain ⟨m, hy⟩ := hy
  have hx := hf.le (Nat.le_max_left n m) hx
  have hy := hf.le (Nat.le_max_right n m) hy
  exact Option.some.inj (hx.symm.trans hy)

theorem bind_steady {o o' : Option α} {g g' : α → Option β} {y : β}
    (h : o.bind g = some y) (ho : ∀ x, o = some x → o' = some x)
    (hg : ∀ x, g x = some y → g' x = some y) : o'.bind g' = some y := by
  obtain ⟨x, hx, hy⟩ := Option.bind_eq_some_iff.mp h
  exact Option.bind_eq_some_iff.mpr ⟨x, ho x hx, hg x hy⟩

theorem yields_some {x y : α} : Yields (fun _ => some x) y ↔ y = x :=
  ⟨fun ⟨_, h⟩ => (Option.some.inj h).symm, fun h => ⟨0, congrArg some h.symm⟩⟩

theorem yields_bind {f : Nat → Option α} {g : Nat → α → Option β} (hf : Steady f)
    (hg : ∀ x, Steady (g · x)) {y : β} :
    Yields (fun n => (f n).bind (g n)) y ↔ ∃ x, Yields f x ∧ Yields (g · x) y := by
  constructor
  · rintro ⟨n, h⟩
    obtain ⟨x, hx, hy⟩ := Option.bind_eq_some_iff.mp h
    exact ⟨x, ⟨n, hx⟩, ⟨n, hy⟩⟩
  · rintro ⟨x, ⟨n, hx⟩, ⟨m, hy⟩⟩
    exact ⟨max n m, Option.bind_eq_some_iff.mpr
      ⟨x, hf.le (Nat.le_max_left n m) hx, (hg x).le (Nat.le_max_right n m) hy⟩⟩

/-- A function that gives nothing without fuel yields what its unfolding yields. -/
theorem yields_succ {f g : Nat → Option α} (h0 : f 0 = none) (hs : ∀ n, f (n + 1) = g n) {x : α} :
    Yields f x ↔ Yields g x := by
  constructor
  · rintro ⟨n, h⟩
    cases n with
    | zero => exact absurd (h0.symm.trans h) (by simp)
    | succ n => exact ⟨n, (hs n).symm.trans h⟩
  · rintro ⟨n, h⟩
    exact ⟨n + 1, (hs n).trans h⟩

theorem Ends.bind_some {f : Nat → Option α} (h : Ends f) (g : α → β) :
    Ends fun n => (f n).bind fun x => some (g x) := by
  obtain ⟨x, n, hx⟩ := h
  exact ⟨g x, n, Option.bind_eq_some_iff.mpr ⟨x, hx, rfl⟩⟩

theorem not_ends {f : Nat → Option α} (h : ∀ n, f n = none) : ¬Ends f := by
  rintro ⟨x, n, hx⟩
  exact absurd ((h n).symm.trans hx) (by simp)

theorem not_ends_bind {f : Nat → Option α} {g : Nat → α → Option β} (h : ∀ n, f n = none) :
    ¬Ends fun n => (f n).bind (g n) :=
  not_ends fun n => by rw [h n, Option.bind_none]

/-- A function of a state ends where each state of an invariant ends or passes on to a
smaller one. -/
theorem ends_of_measure {σ : Type} {f : σ → Nat → Option α} (μ : σ → Nat) {inv : σ → Prop}
    (h : ∀ s, inv s → Ends (f s) ∨ ∃ s', inv s' ∧ μ s' < μ s ∧ (Ends (f s') → Ends (f s)))
    {s : σ} (hs : inv s) : Ends (f s) := by
  induction hn : μ s using Nat.strongRecOn generalizing s with
  | ind n ih =>
      obtain hend | ⟨s', hs', hlt, hback⟩ := h s hs
      · exact hend
      · exact hback (ih _ (hn ▸ hlt) hs' rfl)

end Ashe.Fuel
