import Ashe.ExtendedEuclid
import Ashe.RsaArithmetic
import Ashe.RsaPrimes
import Mathlib.FieldTheory.Finite.Basic

namespace Ashe.RsaKeys

open ExtendedEuclid Rsa RsaArithmetic RsaPrimes SignedWords

theorem fits_of_abs_le {z k : Int} (h : |z| ≤ k) (hk : k < 2 ^ 63) : Fits z := by
  obtain ⟨hlow, hhigh⟩ := abs_le.mp h
  exact ⟨by omega, by omega⟩

/-- The loop of ExtEuclid keeps the coefficients, and no product or difference in it
overflows. -/
theorem euclidLoop_coefficients {m n : Int} (hm : m < 2 ^ 63) (hn : n < 2 ^ 63)
    {a g x y u v : Int64}
    (h : ∃ s, Coefficients m n s a.toInt g.toInt x.toInt y.toInt u.toInt v.toInt) :
    ∃ s g' x' u' v', Coefficients m n s 0 g' x' (euclidLoop a g x y u v).toInt u' v' := by
  fun_induction euclidLoop a g x y u v with
  | case1 g x y u v =>
      obtain ⟨s, h⟩ := h
      exact ⟨s, g.toInt, x.toInt, u.toInt, v.toInt, h⟩
  | case2 a g x y u v hne q r ih =>
      obtain ⟨s, h⟩ := h
      have ha : 0 < a.toInt := lt_of_le_of_ne h.a_nonneg fun hz => hne (eq_iff.mpr hz.symm)
      have hq : q.toInt = g.toInt / a.toInt := toInt_div (le_of_lt h.g_pos) h.a_nonneg
      have hr : r.toInt = g.toInt % a.toInt := toInt_mod (le_of_lt h.g_pos)
      have hstep := h.step ha
      have huq : (u * q).toInt = u.toInt * (g.toInt / a.toInt) := by
        rw [toInt_mul (hq ▸ fits_of_abs_le (h.u_quotient_le ha) hn), hq]
      have hvq : (v * q).toInt = v.toInt * (g.toInt / a.toInt) := by
        rw [toInt_mul (hq ▸ fits_of_abs_le (h.v_quotient_le ha) hm), hq]
      have hx : (x - u * q).toInt = x.toInt - u.toInt * (g.toInt / a.toInt) := by
        rw [toInt_sub (huq ▸ fits_of_abs_le hstep.u_le hn), huq]
      have hy : (y - v * q).toInt = y.toInt - v.toInt * (g.toInt / a.toInt) := by
        rw [toInt_sub (hvq ▸ fits_of_abs_le hstep.v_le hm), hvq]
      rw [← hr, ← hx, ← hy] at hstep
      exact ih ⟨-s, hstep⟩

theorem extEuclid_inverse {a b : Int64} (ha : 0 < a.toInt) (hb : 0 < b.toInt)
    (hc : Int.gcd a.toInt b.toInt = 1) :
    (extEuclid a b).toInt * b.toInt ≡ 1 [ZMOD a.toInt] ∧ |(extEuclid a b).toInt| ≤ a.toInt := by
  have hstart : Coefficients a.toInt b.toInt 1 a.toInt b.toInt (0 : Int64).toInt
      (1 : Int64).toInt (1 : Int64).toInt (0 : Int64).toInt := Coefficients.start ha hb
  obtain ⟨s, g, x, u, v, h⟩ := euclidLoop_coefficients a.toInt_lt b.toInt_lt ⟨1, hstart⟩
  refine ⟨?_, h.y_le⟩
  have hone := h.finish hc
  rw [extEuclid, ← hone]
  exact (Int.modEq_iff_dvd.mpr ⟨x, by ring⟩)

theorem makePositive_spec {phiMax d : Int64} (hd : |d.toInt| ≤ phiMax.toInt) :
    ∃ d', (∀ n, makePositive phiMax (n + 2) d = some d') ∧ 0 ≤ d'.toInt ∧
      d'.toInt ≤ phiMax.toInt ∧ d'.toInt ≡ d.toInt [ZMOD phiMax.toInt] := by
  obtain ⟨hlow, hhigh⟩ := abs_le.mp hd
  by_cases hneg : d < 0
  · have hneg' : d.toInt < 0 := lt_iff.mp hneg
    have hadd : (d + phiMax).toInt = d.toInt + phiMax.toInt :=
      toInt_add ⟨by omega, by have := phiMax.toInt_lt; omega⟩
    have hnonneg : ¬d + phiMax < 0 := by
      rw [lt_iff, hadd, zero_toInt]
      omega
    refine ⟨d + phiMax, fun n => ?_, by omega, by omega, ?_⟩
    · rw [makePositive, if_pos hneg, makePositive, if_neg hnonneg]
    · rw [hadd]
      exact Int.add_modEq_right
  · refine ⟨d, fun n => ?_, ?_, hhigh, Int.ModEq.refl _⟩
    · rw [makePositive, if_neg hneg]
    · rw [lt_iff, zero_toInt] at hneg
      omega

section Primes

variable {p q : Nat}

theorem ofNat_toInt (hp : p ∈ primes) : (Int64.ofNat p).toInt = p := by
  have hbound := (primes_bounds hp).2
  exact toInt_ofNat (by omega)

theorem product_toInt (hp : p ∈ primes) (hq : q ∈ primes) :
    (Int64.ofNat p * Int64.ofNat q).toInt = (p * q : Nat) := by
  have hle : p * q ≤ 104729 * 104729 := Nat.mul_le_mul (primes_bounds hp).2 (primes_bounds hq).2
  rw [toInt_mul, ofNat_toInt hp, ofNat_toInt hq, Nat.cast_mul]
  rw [ofNat_toInt hp, ofNat_toInt hq, ← Nat.cast_mul]
  exact ⟨by omega, by omega⟩

theorem pred_toInt (hp : p ∈ primes) : (Int64.ofNat p - 1).toInt = (p - 1 : Nat) := by
  have hbound := primes_bounds hp
  rw [toInt_sub, ofNat_toInt hp, one_toInt]
  · omega
  · rw [ofNat_toInt hp, one_toInt]
    exact ⟨by omega, by omega⟩

theorem phi_toInt (hp : p ∈ primes) (hq : q ∈ primes) :
    ((Int64.ofNat p - 1) * (Int64.ofNat q - 1)).toInt = ((p - 1) * (q - 1) : Nat) := by
  have hbound := (primes_bounds hp).2
  have hbound' := (primes_bounds hq).2
  have hle : (p - 1) * (q - 1) ≤ 104729 * 104729 := Nat.mul_le_mul (by omega) (by omega)
  rw [toInt_mul, pred_toInt hp, pred_toInt hq, Nat.cast_mul]
  rw [pred_toInt hp, pred_toInt hq, ← Nat.cast_mul]
  exact ⟨by omega, by omega⟩

theorem rsaGenKeys_spec (hp : p ∈ primes) (hq : q ∈ primes)
    (hg : Nat.gcd ((p - 1) * (q - 1)) 131073 = 1) :
    ∃ pub priv d,
      (∀ n, rsaGenKeys (n + 2) (Int64.ofNat p) (Int64.ofNat q) = some (pub, priv)) ∧
      pub.modulus.toInt = (p * q : Nat) ∧ pub.exponent.toInt = (131073 : Nat) ∧
      priv.modulus.toInt = (p * q : Nat) ∧ priv.exponent.toInt = (d : Nat) ∧
      131073 * d ≡ 1 [MOD (p - 1) * (q - 1)] := by
  have hlow := (primes_bounds hp).1
  have hlow' := (primes_bounds hq).1
  have hphi : 0 < (p - 1) * (q - 1) := Nat.mul_pos (by omega) (by omega)
  have hpos : 0 < ((Int64.ofNat p - 1) * (Int64.ofNat q - 1)).toInt := by
    rw [phi_toInt hp hq]
    omega
  have hc : Int.gcd ((Int64.ofNat p - 1) * (Int64.ofNat q - 1)).toInt
      ((2 : Int64) <<< 16 + 1).toInt = 1 := by
    rw [phi_toInt hp hq]
    exact hg
  have hinverse := extEuclid_inverse hpos (by decide) hc
  obtain ⟨hmod, hle⟩ := hinverse
  obtain ⟨d, hd, hnonneg, -, hcongr⟩ := makePositive_spec hle
  have hcast : (d.toInt.toNat : Int) = d.toInt := Int.toNat_of_nonneg hnonneg
  refine ⟨⟨Int64.ofNat p * Int64.ofNat q, (2 : Int64) <<< 16 + 1⟩,
    ⟨Int64.ofNat p * Int64.ofNat q, d⟩, d.toInt.toNat, ?_, product_toInt hp hq, rfl,
    product_toInt hp hq, hcast.symm, ?_⟩
  · intro n
    rw [rsaGenKeys, hd]
    rfl
  · rw [← Int.natCast_modEq_iff, Nat.cast_mul 131073, hcast]
    rw [phi_toInt hp hq] at hcongr hmod
    have hprod := (hcongr.mul_right 131073).trans hmod
    rwa [Int.mul_comm] at hprod

end Primes

section Euler

variable {p q e : Nat}

/-- Fermat's theorem for an exponent that is one up to multiples of p - 1. -/
theorem pow_modEq_prime (hp : p.Prime) (he : e ≡ 1 [MOD p - 1]) (hpos : 0 < e) (x : Nat) :
    x ^ e ≡ x [MOD p] := by
  obtain ⟨k, hk⟩ := (Nat.modEq_iff_dvd' hpos).mp he.symm
  have hsplit : e = (p - 1) * k + 1 := by omega
  by_cases hdvd : p ∣ x
  · have hx : x ≡ 0 [MOD p] := (Nat.modEq_zero_iff_dvd).mpr hdvd
    have hpow := hx.pow e
    rw [Nat.zero_pow hpos] at hpow
    exact hpow.trans hx.symm
  · have hcoprime : Nat.Coprime x p := ((Nat.Prime.coprime_iff_not_dvd hp).mpr hdvd).symm
    have hfermat := Nat.ModEq.pow_totient hcoprime
    rw [Nat.totient_prime hp] at hfermat
    have hone := (hfermat.pow k).mul_right x
    rw [← pow_mul, ← pow_succ, one_pow, Nat.one_mul] at hone
    rwa [hsplit]

theorem pow_modEq (hp : p.Prime) (hq : q.Prime) (hpq : p ≠ q)
    (he : e ≡ 1 [MOD (p - 1) * (q - 1)]) (hpos : 0 < e) (x : Nat) : x ^ e ≡ x [MOD p * q] := by
  refine (Nat.modEq_and_modEq_iff_modEq_mul ((Nat.coprime_primes hp hq).mpr hpq)).mp ⟨?_, ?_⟩
  · exact pow_modEq_prime hp (he.of_mul_right _) hpos x
  · exact pow_modEq_prime hq (he.of_mul_left _) hpos x

end Euler

end Ashe.RsaKeys
