import Ashe.Rsa
import Mathlib.Data.Int.ModEq

namespace Ashe.RsaArithmetic

open Rsa SignedWords

section Multiplication

theorem zero_toInt : (0 : Int64).toInt = 0 := rfl

theorem one_toInt : (1 : Int64).toInt = 1 := rfl

theorem two_toInt : (2 : Int64).toInt = 2 := rfl

theorem double_add_modEq {a b m s s' : Int} (hs : s' ≡ s + b % 2 * a [ZMOD m]) :
    s' + 2 * a % m * (b / 2) ≡ s + a * b [ZMOD m] := by
  have hb : b % 2 + 2 * (b / 2) = b := Int.emod_add_mul_ediv b 2
  calc s' + 2 * a % m * (b / 2) ≡ (s + b % 2 * a) + 2 * a * (b / 2) [ZMOD m] :=
        hs.add ((Int.mod_modEq _ _).mul_right _)
    _ = s + a * (b % 2 + 2 * (b / 2)) := by ring
    _ = s + a * b := by rw [hb]

theorem addIfOdd_toInt {a b mod sum : Int64} (hm : mod.toInt ≤ 2 ^ 62) (ha : 0 ≤ a.toInt)
    (ha' : a.toInt < 2 ^ 62) (hs : 0 ≤ sum.toInt) (hs' : sum.toInt < mod.toInt) :
    (if b &&& 1 ≠ 0 then (sum + a) % mod else sum).toInt =
      (sum.toInt + b.toInt % 2 * a.toInt) % mod.toInt := by
  by_cases hodd : b &&& 1 = 0
  · rw [if_neg (by simpa using hodd), (and_one_eq_zero b).mp hodd, Int.zero_mul, Int.add_zero,
      Int.emod_eq_of_lt hs hs']
  · have hone : b.toInt % 2 = 1 := by
      rw [and_one_eq_zero] at hodd
      omega
    have hadd : (sum + a).toInt = sum.toInt + a.toInt := toInt_add ⟨by omega, by omega⟩
    rw [if_pos hodd, hone, Int.one_mul, toInt_mod (by omega), hadd]

theorem doubleAndAdd_toInt {a b mod sum : Int64} (hm : 0 < mod.toInt) (hm' : mod.toInt ≤ 2 ^ 62)
    (ha : 0 ≤ a.toInt) (ha' : a.toInt < 2 ^ 62) (hb : 0 ≤ b.toInt) (hs : 0 ≤ sum.toInt)
    (hs' : sum.toInt < mod.toInt) :
    (doubleAndAdd a b mod sum).toInt = (sum.toInt + a.toInt * b.toInt) % mod.toInt := by
  fun_induction doubleAndAdd a b mod sum with
  | case1 a b sum hpos sum' ih =>
      have hdouble : (2 * a).toInt = 2 * a.toInt := by
        rw [toInt_mul, two_toInt]
        rw [two_toInt]
        constructor <;> omega
      have hnext : (2 * a % mod).toInt = 2 * a.toInt % mod.toInt := by
        rw [toInt_mod (by omega), hdouble]
      have hlow := Int.emod_nonneg (2 * a.toInt) (ne_of_gt hm)
      have hhigh := Int.emod_lt_of_pos (2 * a.toInt) hm
      have hsum : sum'.toInt = (sum.toInt + b.toInt % 2 * a.toInt) % mod.toInt :=
        addIfOdd_toInt hm' ha ha' hs hs'
      have hlow' := Int.emod_nonneg (sum.toInt + b.toInt % 2 * a.toInt) (ne_of_gt hm)
      have hhigh' := Int.emod_lt_of_pos (sum.toInt + b.toInt % 2 * a.toInt) hm
      rw [ih (by omega) (by omega) (by rw [toInt_shiftRight_one]; omega) (by omega) (by omega),
        hnext, toInt_shiftRight_one, hsum]
      exact double_add_modEq (Int.mod_modEq _ _)
  | case2 a b sum hpos =>
      have hzero : b.toInt = 0 := by
        rw [lt_iff] at hpos
        exact Int.le_antisymm (not_lt.mp hpos) hb
      rw [hzero, Int.mul_zero, Int.add_zero, Int.emod_eq_of_lt hs hs']

/-- Halves of the first factor, doubled and with the rest added. -/
theorem halves_modEq {a b m p : Int} (hp : p = a / 2 * b % m) :
    (2 * p + a % 2 * b) % m = a * b % m := by
  have ha : a % 2 + 2 * (a / 2) = a := Int.emod_add_mul_ediv a 2
  have h : 2 * p + a % 2 * b ≡ a * b [ZMOD m] := by
    calc 2 * p + a % 2 * b ≡ 2 * (a / 2 * b) + a % 2 * b [ZMOD m] :=
          (hp ▸ (Int.mod_modEq _ _).mul_left 2).add_right _
      _ = (a % 2 + 2 * (a / 2)) * b := by ring
      _ = a * b := by rw [ha]
  exact h

def HalfProduct (a b mod product : Int64) : Prop :=
  0 ≤ product.toInt ∧ product.toInt < mod.toInt ∧
    product.toInt = a.toInt / 2 * b.toInt % mod.toInt

theorem HalfProduct.shiftLeft {a b mod product : Int64} (h : HalfProduct a b mod product)
    (hm : mod.toInt ≤ 2 ^ 62) : (product <<< 1).toInt = 2 * product.toInt := by
  obtain ⟨hlow, hhigh, -⟩ := h
  exact toInt_shiftLeft_one ⟨by omega, by omega⟩

theorem half_toInt {a b mod product : Int64} (hm : 0 < mod.toInt) (ha : 0 ≤ a.toInt)
    (ha' : a.toInt < 2 ^ 62)
    (ih : 0 ≤ (a >>> 1).toInt → (a >>> 1).toInt < 2 ^ 62 →
      product.toInt = (a >>> 1).toInt * b.toInt % mod.toInt) : HalfProduct a b mod product := by
  rw [toInt_shiftRight_one] at ih
  have hp := ih (by omega) (by omega)
  exact ⟨hp ▸ Int.emod_nonneg _ (ne_of_gt hm), hp ▸ Int.emod_lt_of_pos _ hm, hp⟩

theorem modmult_toInt {a b mod : Int64} (hm : 0 < mod.toInt) (hm' : mod.toInt ≤ 2 ^ 62)
    (ha : 0 ≤ a.toInt) (ha' : a.toInt < 2 ^ 62) (hb : 0 ≤ b.toInt) (hb' : b.toInt < 2 ^ 62) :
    (modmult a b mod).toInt = a.toInt * b.toInt % mod.toInt := by
  fun_induction modmult a b mod with
  | case1 => simp
  | case2 a hne hfits =>
      have hpos : 0 < a.toInt := lt_of_le_of_ne ha fun h => hne (eq_iff.mpr h.symm)
      have hmul := toInt_mul ((mul_div_eq_iff hpos).mp hfits)
      rw [toInt_mod (by rw [hmul]; positivity), hmul]
  | case3 a hne hover product hodd ih =>
      have hp := half_toInt hm ha ha' ih
      have hdouble := hp.shiftLeft hm'
      obtain ⟨hlow, hhigh, hp⟩ := hp
      have hrest : a.toInt % 2 = 1 := by
        rw [ne_eq, and_one_eq_zero] at hodd
        omega
      have hmod : (product <<< 1 % mod).toInt = 2 * product.toInt % mod.toInt := by
        rw [toInt_mod (by rw [hdouble]; omega), hdouble]
      have hlow' := Int.emod_nonneg (2 * product.toInt) (ne_of_gt hm)
      have hhigh' := Int.emod_lt_of_pos (2 * product.toInt) hm
      have hadd : (product <<< 1 % mod + b).toInt = 2 * product.toInt % mod.toInt + b.toInt := by
        rw [toInt_add ⟨by omega, by omega⟩, hmod]
      have hhalves := halves_modEq hp
      rw [hrest, Int.one_mul] at hhalves
      rw [toInt_mod (by omega), hadd, Int.emod_add_emod, hhalves]
  | case4 a hne hover product hodd hlt ih =>
      have hp := half_toInt hm ha ha' ih
      have hdouble := hp.shiftLeft hm'
      obtain ⟨hlow, hhigh, hp⟩ := hp
      have heven : a.toInt % 2 = 0 := by
        by_contra h
        exact hodd ⟨fun hzero => h ((and_one_eq_zero a).mp hzero), hlt⟩
      have hhalves := halves_modEq hp
      rw [heven, Int.zero_mul, Int.add_zero] at hhalves
      rw [toInt_mod (by rw [hdouble]; omega), hdouble, hhalves]
  | case5 a hne hover product hodd hlt ih =>
      have hzero : 0 ≤ (0 : Int64).toInt := le_refl 0
      rw [doubleAndAdd_toInt hm hm' ha ha' hb hzero hm, zero_toInt, Int.zero_add]

end Multiplication

section Power

theorem square_modEq {b m : Int} (e : Nat) (product : Int) :
    product * b ^ (e % 2) * (b * b % m) ^ (e / 2) ≡ product * b ^ e [ZMOD m] := by
  have he : e % 2 + 2 * (e / 2) = e := Nat.mod_add_div e 2
  calc product * b ^ (e % 2) * (b * b % m) ^ (e / 2)
      ≡ product * b ^ (e % 2) * (b * b) ^ (e / 2) [ZMOD m] :=
        ((Int.mod_modEq _ _).pow _).mul_left _
    _ = product * b ^ (e % 2 + 2 * (e / 2)) := by ring
    _ = product * b ^ e := by rw [he]

theorem multiplyIfOdd_toInt {product b e m : Int64} (hm : 0 < m.toInt) (hm' : m.toInt ≤ 2 ^ 62)
    (hp : 0 ≤ product.toInt) (hp' : product.toInt < m.toInt) (hb : 0 ≤ b.toInt)
    (hb' : b.toInt < m.toInt) (he : 0 ≤ e.toInt) :
    (if e &&& 1 ≠ 0 then modmult product b m else product).toInt =
      product.toInt * b.toInt ^ (e.toInt.toNat % 2) % m.toInt := by
  by_cases hodd : e &&& 1 = 0
  · have hzero : e.toInt.toNat % 2 = 0 := by
      rw [and_one_eq_zero] at hodd
      omega
    rw [if_neg (by simpa using hodd), hzero, pow_zero, Int.mul_one, Int.emod_eq_of_lt hp hp']
  · have hone : e.toInt.toNat % 2 = 1 := by
      rw [and_one_eq_zero] at hodd
      omega
    rw [if_pos hodd, hone, pow_one,
      modmult_toInt hm hm' hp (by omega) hb (by omega)]

/-- The loop multiplies the product with the power, both reduced. -/
theorem modExpLoop_toInt {product b e m : Int64} (hm : 0 < m.toInt) (hm' : m.toInt ≤ 2 ^ 62)
    (hp : 0 ≤ product.toInt) (hp' : product.toInt < m.toInt) (hb : 0 ≤ b.toInt)
    (hb' : b.toInt < m.toInt) (he : 0 ≤ e.toInt) :
    (modExpLoop product b e m).toInt =
      product.toInt * b.toInt ^ e.toInt.toNat % m.toInt := by
  fun_induction modExpLoop product b e m with
  | case1 product b e hpos product' ih =>
      have hproduct : product'.toInt = _ := multiplyIfOdd_toInt hm hm' hp hp' hb hb' he
      have hsquare : (modmult b b m).toInt = b.toInt * b.toInt % m.toInt :=
        modmult_toInt hm hm' hb (by omega) hb (by omega)
      have hhalf : (e >>> 1).toInt.toNat = e.toInt.toNat / 2 := by
        rw [toInt_shiftRight_one]
        omega
      have hnonneg (x : Int) : 0 ≤ x % m.toInt := Int.emod_nonneg _ (ne_of_gt hm)
      have hlt (x : Int) : x % m.toInt < m.toInt := Int.emod_lt_of_pos _ hm
      rw [ih (hproduct ▸ hnonneg _) (hproduct ▸ hlt _) (hsquare ▸ hnonneg _) (hsquare ▸ hlt _)
        (by rw [toInt_shiftRight_one]; omega), hproduct, hsquare, hhalf]
      exact ((Int.mod_modEq _ _).mul_right _).trans (square_modEq _ _)
  | case2 product b e hpos =>
      have hzero : e.toInt.toNat = 0 := by
        rw [lt_iff, zero_toInt] at hpos
        omega
      rw [hzero, pow_zero, Int.mul_one, Int.emod_eq_of_lt hp hp']

theorem rsaModExp_toInt {b e m : Int64} (hb : 0 ≤ b.toInt) (he : 0 ≤ e.toInt) (hm : 2 ≤ m.toInt)
    (hm' : m.toInt ≤ 2 ^ 62) :
    (rsaModExp b e m).toInt = b.toInt ^ e.toInt.toNat % m.toInt := by
  have hpos : 0 < m.toInt := by omega
  have hcond : ¬(b < 0 ∨ e < 0 ∨ m ≤ 0) := by
    rw [lt_iff, lt_iff, Int64.le_iff_toInt_le, zero_toInt]
    omega
  have hbase : (b % m).toInt = b.toInt % m.toInt := toInt_mod hb
  rw [rsaModExp, if_neg hcond, modExpLoop_toInt hpos hm' (by decide) (by rw [one_toInt]; omega)
    (hbase ▸ Int.emod_nonneg _ (ne_of_gt hpos)) (hbase ▸ Int.emod_lt_of_pos _ hpos) he, hbase,
    one_toInt, Int.one_mul]
  exact (Int.mod_modEq _ _).pow _

/-- The function is the power reduced, for all numbers that a long long holds and a
modulus up to 2 ^ 62. -/
theorem rsaModExp_power (b e m : Nat) (hb : b < 2 ^ 63) (he : e < 2 ^ 63) (hm : 2 ≤ m)
    (hm' : m ≤ 2 ^ 62) :
    rsaModExp (Int64.ofNat b) (Int64.ofNat e) (Int64.ofNat m) = Int64.ofNat (b ^ e % m) := by
  have hmod : (Int64.ofNat m).toInt = m := toInt_ofNat (by omega)
  have hlt : b ^ e % m < m := Nat.mod_lt _ (by omega)
  rw [eq_iff, toInt_ofNat (by omega), rsaModExp_toInt, toInt_ofNat hb, toInt_ofNat he, hmod,
    Int.toNat_natCast]
  · push_cast
    rfl
  · rw [toInt_ofNat hb]
    exact Int.natCast_nonneg b
  · rw [toInt_ofNat he]
    exact Int.natCast_nonneg e
  · omega
  · omega

/-- At a base whose square does not fit. -/
theorem rsaModExp_power_overflows :
    Int64.ofNat (2 ^ 62 - 1) * Int64.ofNat (2 ^ 62 - 1) / Int64.ofNat (2 ^ 62 - 1) ≠
      Int64.ofNat (2 ^ 62 - 1) ∧
    rsaModExp (Int64.ofNat (2 ^ 62 - 1)) (Int64.ofNat 65) (Int64.ofNat (2 ^ 62)) =
      Int64.ofNat ((2 ^ 62 - 1) ^ 65 % 2 ^ 62) :=
  ⟨by decide, rsaModExp_power _ _ _ (by decide) (by decide) (by decide) (by decide)⟩

end Power

end Ashe.RsaArithmetic
