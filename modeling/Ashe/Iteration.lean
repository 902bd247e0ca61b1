import Mathlib.Logic.Function.Iterate
import Mathlib.Data.List.Basic

namespace Ashe.Iteration

variable {α : Type} {f : α → α}

/-- Each application of f to a value of P keeps P, and makes the value smaller or
leaves it as it is. -/
structure Shrinks (f : α → α) (P : α → Prop) (size : α → Nat) : Prop where
  holds : ∀ x, P x → P (f x)
  smaller : ∀ x, P x → f x = x ∨ size (f x) < size x

theorem iterate_stays {x : α} {m n : Nat} (hmn : m ≤ n) (hfix : f (f^[m] x) = f^[m] x) :
    f^[n] x = f^[m] x := by
  obtain ⟨k, rfl⟩ := Nat.exists_eq_add_of_le' hmn
  rw [Function.iterate_add_apply, Function.iterate_fixed hfix]

variable {P : α → Prop} {size : α → Nat}

theorem Shrinks.iterate (hf : Shrinks f P size) {x : α} (hx : P x) (n : Nat) : P (f^[n] x) := by
  induction n with
  | zero => exact hx
  | succ n ih =>
      rw [Function.iterate_succ_apply']
      exact hf.holds _ ih

theorem Shrinks.antitone (hf : Shrinks f P size) {x : α} (hx : P x) {m n : Nat} (hmn : m ≤ n) :
    size (f^[n] x) ≤ size (f^[m] x) := by
  induction hmn with
  | refl => exact Nat.le_refl _
  | @step n _ ih =>
      rw [Function.iterate_succ_apply']
      cases hf.smaller _ (hf.iterate hx n) with
      | inl hfix => exact Nat.le_trans (Nat.le_of_eq (congrArg size hfix)) ih
      | inr hlt => exact Nat.le_trans (Nat.le_of_lt hlt) ih

theorem Shrinks.bound (hf : Shrinks f P size) {x : α} (hx : P x) (n : Nat) :
    f (f^[n] x) = f^[n] x ∨ size (f^[n] x) + n ≤ size x := by
  induction n with
  | zero => exact Or.inr (Nat.le_refl _)
  | succ n ih =>
      rw [Function.iterate_succ_apply']
      cases hf.smaller _ (hf.iterate hx n) with
      | inl hfix => exact Or.inl (congrArg f hfix)
      | inr hlt =>
          cases ih with
          | inl hfix => exact absurd (congrArg size hfix) (Nat.ne_of_lt hlt)
          | inr hle => exact Or.inr (by omega)

/-- Values of a positive size have settled after as many rounds as the first is large. -/
theorem Shrinks.settled (hf : Shrinks f P size) (hpos : ∀ x, P x → 0 < size x) {x : α} (hx : P x)
    {n : Nat} (hn : size x ≤ n) : f (f^[n] x) = f^[n] x := by
  cases hf.bound hx n with
  | inl hfix => exact hfix
  | inr hle =>
      have hsize := hpos _ (hf.iterate hx n)
      omega

end Ashe.Iteration
