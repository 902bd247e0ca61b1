import Mathlib.Algebra.Group.Nat.Defs
import Mathlib.Data.Nat.Find

namespace Ashe.LowestBit

def Lowest (w t : Nat) : Prop := w.testBit t = true ∧ ∀ j < t, w.testBit j = false

theorem exists_lowest {w : Nat} (h : w ≠ 0) : ∃ t, Lowest w t := by
  have hsome := Nat.exists_testBit_of_ne_zero h
  refine ⟨Nat.find hsome, Nat.find_spec hsome, fun j hj => ?_⟩
  exact Bool.not_eq_true _ |>.mp (Nat.find_min hsome hj)

variable {w t n : Nat}

/-- The number in front of a number has the ones below its lowest bit, and the same bits
above it. -/
theorem testBit_pred (h : Lowest w t) (i : Nat) :
    (w - 1).testBit i = if i < t then true else if i = t then false else w.testBit i := by
  obtain ⟨hbit, hbelow⟩ := h
  have hmod : w % 2 ^ t = 0 := by
    apply Nat.eq_of_testBit_eq
    intro j
    rw [Nat.testBit_mod_two_pow, Nat.zero_testBit]
    by_cases hj : j < t
    · rw [hbelow j hj, Bool.and_false]
    · rw [decide_eq_false hj, Bool.false_and]
  have hodd : w / 2 ^ t % 2 = 1 := by
    rwa [Nat.testBit_eq_decide_div_mod_eq, decide_eq_true_iff] at hbit
  have hsplit : w - 1 = 2 ^ t * (2 * (w / 2 ^ t / 2)) + (2 ^ t - 1) := by
    have hdiv := Nat.div_add_mod w (2 ^ t)
    have hpos := Nat.two_pow_pos t
    have heven : w / 2 ^ t = 2 * (w / 2 ^ t / 2) + 1 := by omega
    rw [hmod, heven, Nat.mul_add, Nat.mul_one] at hdiv
    omega
  rw [hsplit, Nat.testBit_two_pow_mul_add _ (Nat.sub_lt (Nat.two_pow_pos t) Nat.one_pos)]
  split
  next hi => rw [Nat.testBit_two_pow_sub_one, decide_eq_true hi]
  next hi =>
    split
    next heq => rw [heq, Nat.sub_self, Nat.testBit_zero, Nat.mul_mod_right]; rfl
    next hne =>
      obtain ⟨k, rfl⟩ : ∃ k, i = k + 1 + t := ⟨i - t - 1, by omega⟩
      rw [Nat.add_sub_cancel, Nat.testBit_succ, Nat.mul_div_cancel_left _ Nat.two_pos,
        ← Nat.testBit_succ, Nat.testBit_div_two_pow]

theorem and_neg (h : Lowest w t) (hw : w < 2 ^ n) : w &&& (2 ^ n - w) = 2 ^ t := by
  have hpos : 0 < w := by
    apply Nat.pos_of_ne_zero
    rintro rfl
    exact absurd h.1 (by simp)
  have htn : t < n := by
    apply Nat.lt_of_not_le
    intro hle
    have hpow : 2 ^ n ≤ 2 ^ t := Nat.pow_le_pow_right Nat.two_pos hle
    have hnone := Nat.testBit_lt_two_pow (Nat.lt_of_lt_of_le hw hpow)
    exact absurd (h.1.symm.trans hnone) (by simp)
  have hneg : 2 ^ n - w = 2 ^ n - ((w - 1) + 1) := by rw [Nat.sub_add_cancel hpos]
  apply Nat.eq_of_testBit_eq
  intro i
  rw [Nat.testBit_and, hneg, Nat.testBit_two_pow_sub_succ (by omega), testBit_pred h,
    Nat.testBit_two_pow]
  rcases Nat.lt_trichotomy i t with hlt | rfl | hgt
  · rw [h.2 i hlt, Bool.false_and, decide_eq_false (Nat.ne_of_gt hlt)]
  · simp [h.1, htn]
  · rw [if_neg (Nat.not_lt_of_gt hgt), if_neg (Nat.ne_of_gt hgt),
      decide_eq_false (Nat.ne_of_lt hgt)]
    cases w.testBit i <;> simp

end Ashe.LowestBit
