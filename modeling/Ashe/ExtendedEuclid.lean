import Mathlib.Algebra.Order.Ring.Abs
import Mathlib.Data.Int.GCD
import Mathlib.Tactic.Linarith
import Mathlib.Tactic.LinearCombination
import Mathlib.Tactic.Ring

namespace Ashe.ExtendedEuclid

/-- The coefficients that the extended algorithm of Euclid has computed of the
numbers m and n, where their signs alternate with s: those of the last two remainders
g and a. -/
structure Coefficients (m n s a g x y u v : Int) : Prop where
  sign : s = 1 ∨ s = -1
  a_nonneg : 0 ≤ a
  g_pos : 0 < g
  gcd_eq : Int.gcd a g = Int.gcd m n
  g_eq : g = x * m + y * n
  a_eq : a = u * m + v * n
  u_sign : 0 ≤ s * u
  x_sign : s * x ≤ 0
  v_sign : s * v ≤ 0
  y_sign : 0 ≤ s * y
  cross_n : s * (u * g - x * a) = n
  cross_m : s * (y * a - v * g) = m
  y_le : |y| ≤ m

namespace Coefficients

variable {m n s a g x y u v : Int}

theorem start (hm : 0 < m) (hn : 0 < n) : Coefficients m n 1 m n 0 1 1 0 where
  sign := Or.inl rfl
  a_nonneg := le_of_lt hm
  g_pos := hn
  gcd_eq := rfl
  g_eq := by ring
  a_eq := by ring
  u_sign := by decide
  x_sign := by decide
  v_sign := by decide
  y_sign := by decide
  cross_n := by ring
  cross_m := by ring
  y_le := by
    rw [abs_one]
    omega

theorem abs_eq (h : Coefficients m n s a g x y u v) (z : Int) : |z| = |s * z| := by
  rw [abs_mul]
  cases h.sign with
  | inl hs => rw [hs, abs_one, one_mul]
  | inr hs => rw [hs, abs_neg, abs_one, one_mul]

theorem u_le (h : Coefficients m n s a g x y u v) : |u| ≤ n := by
  have hcross := h.cross_n
  have hg := h.g_pos
  have hu := h.u_sign
  have hrest : 0 ≤ -(s * x) * a := mul_nonneg (by linarith [h.x_sign]) h.a_nonneg
  rw [h.abs_eq u, abs_of_nonneg hu]
  nlinarith

theorem v_le (h : Coefficients m n s a g x y u v) : |v| ≤ m := by
  have hcross := h.cross_m
  have hg := h.g_pos
  have hv := h.v_sign
  have hrest : 0 ≤ s * y * a := mul_nonneg h.y_sign h.a_nonneg
  rw [h.abs_eq v, abs_of_nonpos hv]
  nlinarith

theorem step (h : Coefficients m n s a g x y u v) (ha : 0 < a) :
    Coefficients m n (-s) (g % a) a u v (x - u * (g / a)) (y - v * (g / a)) where
  sign := by
    cases h.sign with
    | inl hs => exact Or.inr (by rw [hs])
    | inr hs => exact Or.inl (by rw [hs]; rfl)
  a_nonneg := Int.emod_nonneg _ (ne_of_gt ha)
  g_pos := ha
  gcd_eq := by rw [← h.gcd_eq, Int.gcd_emod, Int.gcd_comm]
  g_eq := h.a_eq
  a_eq := by
    have hdiv := Int.emod_add_mul_ediv g a
    linear_combination hdiv + h.g_eq - (g / a) * h.a_eq
  u_sign := by
    have hq : 0 ≤ s * u * (g / a) :=
      mul_nonneg h.u_sign (Int.ediv_nonneg (le_of_lt h.g_pos) (le_of_lt ha))
    have hx := h.x_sign
    linarith
  x_sign := by linarith [h.u_sign]
  v_sign := by
    have hq : 0 ≤ -(s * v) * (g / a) :=
      mul_nonneg (by linarith [h.v_sign]) (Int.ediv_nonneg (le_of_lt h.g_pos) (le_of_lt ha))
    have hy := h.y_sign
    linarith
  y_sign := by linarith [h.v_sign]
  cross_n := by
    have hdiv := Int.emod_add_mul_ediv g a
    linear_combination h.cross_n + s * u * hdiv
  cross_m := by
    have hdiv := Int.emod_add_mul_ediv g a
    linear_combination h.cross_m - s * v * hdiv
  y_le := h.v_le

theorem quotient_nonneg (h : Coefficients m n s a g x y u v) (ha : 0 < a) : 0 ≤ g / a :=
  Int.ediv_nonneg (le_of_lt h.g_pos) (le_of_lt ha)

/-- The products that are subtracted in a step are no larger than the differences. -/
theorem u_quotient_le (h : Coefficients m n s a g x y u v) (ha : 0 < a) : |u * (g / a)| ≤ n := by
  have hnext := (h.step ha).u_le
  have hq : 0 ≤ s * u * (g / a) := mul_nonneg h.u_sign (h.quotient_nonneg ha)
  have hx := h.x_sign
  rw [(h.step ha).abs_eq, abs_of_nonneg (h.step ha).u_sign] at hnext
  rw [h.abs_eq, abs_of_nonneg (by linarith)]
  linarith

theorem v_quotient_le (h : Coefficients m n s a g x y u v) (ha : 0 < a) : |v * (g / a)| ≤ m := by
  have hnext := (h.step ha).v_le
  have hq : 0 ≤ -(s * v) * (g / a) :=
    mul_nonneg (by linarith [h.v_sign]) (h.quotient_nonneg ha)
  have hy := h.y_sign
  rw [(h.step ha).abs_eq, abs_of_nonpos (h.step ha).v_sign] at hnext
  rw [h.abs_eq, abs_of_nonpos (by linarith)]
  linarith

/-- At the end the coefficient of n is its inverse up to the greatest common divisor. -/
theorem finish (h : Coefficients m n s 0 g x y u v) (hc : Int.gcd m n = 1) :
    x * m + y * n = 1 := by
  have hg := h.gcd_eq
  rw [hc, Int.gcd_zero_left] at hg
  have hpos := h.g_pos
  rw [← h.g_eq]
  omega

end Coefficients

end Ashe.ExtendedEuclid
