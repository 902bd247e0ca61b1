import Mathlib.Tactic.Linarith
import Mathlib.Tactic.Ring

namespace Ashe.SignedWords

/-- A number that a 64-bit two's complement word can hold. -/
def Fits (n : Int) : Prop := -2 ^ 63 ≤ n ∧ n < 2 ^ 63

theorem fits (a : Int64) : Fits a.toInt := ⟨a.le_toInt, a.toInt_lt⟩

theorem bmod_fits {n : Int} (h : Fits n) : n.bmod (2 ^ 64) = n := by
  obtain ⟨hle, hlt⟩ := h
  exact Int.bmod_eq_of_le (by omega) (by omega)

theorem toInt_ofNat {n : Nat} (h : n < 2 ^ 63) : (Int64.ofNat n).toInt = n :=
  Int64.toInt_ofNat_of_lt h

section Operations

variable {a b : Int64}

theorem toInt_add (h : Fits (a.toInt + b.toInt)) : (a + b).toInt = a.toInt + b.toInt := by
  rw [Int64.toInt_add, bmod_fits h]

theorem toInt_sub (h : Fits (a.toInt - b.toInt)) : (a - b).toInt = a.toInt - b.toInt := by
  rw [Int64.toInt_sub, bmod_fits h]

theorem toInt_mul (h : Fits (a.toInt * b.toInt)) : (a * b).toInt = a.toInt * b.toInt := by
  rw [Int64.toInt_mul, bmod_fits h]

theorem toInt_mod (ha : 0 ≤ a.toInt) : (a % b).toInt = a.toInt % b.toInt := by
  rw [Int64.toInt_mod, Int.tmod_eq_emod_of_nonneg ha]

theorem toInt_div (ha : 0 ≤ a.toInt) (hb : 0 ≤ b.toInt) : (a / b).toInt = a.toInt / b.toInt := by
  have hne : b ≠ -1 := by
    rintro rfl
    exact absurd hb (by decide)
  rw [Int64.toInt_div_of_ne_right _ _ hne, Int.tdiv_eq_ediv_of_nonneg ha]

theorem toInt_shiftRight_one (a : Int64) : (a >>> 1).toInt = a.toInt / 2 := by
  have h : (a >>> 1).toBitVec = a.toBitVec.sshiftRight 1 := rfl
  rw [← Int64.toInt_toBitVec, h, BitVec.toInt_sshiftRight, Int.shiftRight_eq_div_pow]
  rfl

theorem toInt_shiftLeft_one (h : Fits (2 * a.toInt)) : (a <<< 1).toInt = 2 * a.toInt := by
  have hbits : (a <<< 1).toBitVec = a.toBitVec <<< 1 := rfl
  have hnat : (a <<< 1).toBitVec.toNat = 2 * a.toBitVec.toNat % 2 ^ 64 := by
    rw [hbits, BitVec.toNat_shiftLeft, Nat.shiftLeft_eq, Nat.mul_comm]
  have hleft : (a <<< 1).toInt = _ := BitVec.toInt_eq_toNat_cond (a <<< 1).toBitVec
  have hcond : a.toInt = _ := BitVec.toInt_eq_toNat_cond a.toBitVec
  have hlt := a.toBitVec.isLt
  obtain ⟨hlow, hhigh⟩ := h
  rw [hnat] at hleft
  rw [hleft]
  split at hcond <;> split <;> omega

theorem and_one_eq_zero (a : Int64) : a &&& 1 = 0 ↔ a.toInt % 2 = 0 := by
  have hbits : (a &&& 1).toBitVec = a.toBitVec &&& 1#64 := rfl
  have hnat : (a.toBitVec &&& 1#64).toNat = a.toBitVec.toNat % 2 := by
    rw [BitVec.toNat_and]
    exact Nat.and_one_is_mod _
  have hcond : a.toInt = _ := BitVec.toInt_eq_toNat_cond a.toBitVec
  rw [← Int64.toBitVec_inj, hbits, ← BitVec.toNat_inj, hnat, hcond]
  split <;> simp <;> omega

theorem lt_iff : a < b ↔ a.toInt < b.toInt := Int64.lt_iff_toInt_lt

theorem eq_iff : a = b ↔ a.toInt = b.toInt := Int64.toInt_inj.symm

/-- Dividing the product by a factor again tells whether it has overflowed. -/
theorem mul_div_eq_iff (ha : 0 < a.toInt) :
    a * b / a = b ↔ Fits (a.toInt * b.toInt) := by
  have hne : a ≠ -1 := by
    rintro rfl
    exact absurd ha (by decide)
  rw [eq_iff, Int64.toInt_div_of_ne_right _ _ hne]
  constructor
  · intro h
    have hrest := Int.tmod_add_mul_tdiv (a * b).toInt a.toInt
    have hbelow := Int.tmod_lt_of_pos (a * b).toInt ha
    have habove := Int.lt_tmod_of_pos (a * b).toInt ha
    have hwrap : (2 ^ 64 : Int) ∣ (a * b).toInt - a.toInt * b.toInt := by
      rw [Int64.toInt_mul]
      exact Int.dvd_bmod_sub_self
    have hlt := a.toInt_lt
    rw [h] at hrest
    obtain ⟨k, hk⟩ := hwrap
    have hzero : k = 0 := by omega
    subst hzero
    have heq : a.toInt * b.toInt = (a * b).toInt := by linarith
    rw [heq]
    exact fits (a * b)
  · intro h
    rw [toInt_mul h, Int.mul_tdiv_cancel_left _ (ne_of_gt ha)]

end Operations

end Ashe.SignedWords
