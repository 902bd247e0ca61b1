import Ashe.Fuel
import Ashe.RsaKeys

namespace Ashe.RsaSearch

open Rsa RsaArithmetic RsaKeys RsaPrimes SignedWords

def gcd (a b : Int64) : Int64 :=
  if _h : a = 0 then b else gcd (b % a) a
termination_by a.toInt.natAbs
decreasing_by
  rw [Int64.toInt_mod, Int.natAbs_tmod]
  have hne : a.toInt ≠ 0 := fun h => _h (Int64.toInt_inj.mp h)
  exact Nat.mod_lt _ (Int.natAbs_pos.mpr hne)

def primeCount : Nat := primes.length

def position (randMax r : Nat) : Nat := r * (primeCount + 1) / (randMax + 1)

/-- How the loop of RSAGenKeys is left: with two primes, or by reading behind the table. -/
inductive Search
  | chosen (p q : Int64)
  | outside

def turn (randMax r r' : Nat) : Option Search :=
  match primes[position randMax r]?, primes[position randMax r']? with
  | some p, some q =>
      let p := Int64.ofNat p
      let q := Int64.ofNat q
      let e := ((2 : Int64) <<< 16) + 1
      let phiMax := (p - 1) * (q - 1)
      if ¬(p ≠ 0 ∧ q ≠ 0) ∨ p = q ∨ gcd phiMax e ≠ 1 then none else some (.chosen p q)
  | _, _ => some .outside

/-- The loop from a turn on. The values of rand are drawn in order, two a turn. -/
def searchLoop (randMax : Nat) (rand : Nat → Nat) : Nat → Nat → Option Search
  | 0, _ => none
  | n + 1, t =>
      match turn randMax (rand (2 * t)) (rand (2 * t + 1)) with
      | none => searchLoop randMax rand n (t + 1)
      | some found => some found

theorem gcd_toInt {a b : Int64} (ha : 0 ≤ a.toInt) (hb : 0 ≤ b.toInt) :
    (gcd a b).toInt = Int.gcd a.toInt b.toInt := by
  fun_induction gcd a b with
  | case1 b => rw [zero_toInt, Int.gcd_zero_left, Int.natAbs_of_nonneg hb]
  | case2 a b hne ih =>
      have hmod : (b % a).toInt = b.toInt % a.toInt := toInt_mod hb
      have ha' : a.toInt ≠ 0 := fun h => hne (eq_iff.mpr h)
      rw [ih (hmod ▸ Int.emod_nonneg _ ha') ha, hmod, Int.gcd_emod, Int.gcd_comm]

section

variable {randMax r r' : Nat} {rand : Nat → Nat}

def Inside (randMax r : Nat) : Prop := r * (primeCount + 1) < primeCount * (randMax + 1)

/-- Two values of rand that lead to one prime, or to primes that do not fit the exponent. -/
def Rejected (randMax r r' : Nat) : Prop :=
  ∃ p q, primes[position randMax r]? = some p ∧ primes[position randMax r']? = some q ∧
    (p = q ∨ Nat.gcd ((p - 1) * (q - 1)) 131073 ≠ 1)

theorem inside_iff : Inside randMax r ↔ ∃ p, primes[position randMax r]? = some p := by
  have hlt : Inside randMax r ↔ position randMax r < primes.length :=
    (Nat.div_lt_iff_lt_mul (Nat.succ_pos randMax)).symm
  rw [hlt]
  exact ⟨fun h => ⟨_, List.getElem?_eq_getElem h⟩,
    fun ⟨p, hp⟩ => (List.getElem?_eq_some_iff.mp hp).1⟩

theorem ofNat_ne_zero {p : Nat} (hp : p ∈ primes) : Int64.ofNat p ≠ 0 := by
  have hbound := (primes_bounds hp).1
  rw [Ne, eq_iff, ofNat_toInt hp, zero_toInt]
  omega

theorem ofNat_eq_iff {p q : Nat} (hp : p ∈ primes) (hq : q ∈ primes) :
    Int64.ofNat p = Int64.ofNat q ↔ p = q := by
  rw [eq_iff, ofNat_toInt hp, ofNat_toInt hq, Int.natCast_inj]

theorem gcd_phi {p q : Nat} (hp : p ∈ primes) (hq : q ∈ primes) :
    gcd ((Int64.ofNat p - 1) * (Int64.ofNat q - 1)) ((2 : Int64) <<< 16 + 1) ≠ 1 ↔
      Nat.gcd ((p - 1) * (q - 1)) 131073 ≠ 1 := by
  have hphi := phi_toInt hp hq
  have he : ((2 : Int64) <<< 16 + 1).toInt = (131073 : Nat) := rfl
  rw [Ne, eq_iff, gcd_toInt (hphi ▸ Int.natCast_nonneg _) (he ▸ Int.natCast_nonneg _), hphi, he,
    Int.gcd_natCast_natCast, one_toInt]
  exact not_congr Nat.cast_eq_one

theorem turn_cases (randMax r r' : Nat) :
    (turn randMax r r' = some .outside ∧ ¬(Inside randMax r ∧ Inside randMax r')) ∨
    (turn randMax r r' = none ∧ Inside randMax r ∧ Inside randMax r' ∧ Rejected randMax r r') ∨
    (¬ Rejected randMax r r' ∧ Inside randMax r ∧ Inside randMax r' ∧
      ∃ p q, p ∈ primes ∧ q ∈ primes ∧ p ≠ q ∧ Nat.gcd ((p - 1) * (q - 1)) 131073 = 1 ∧
        turn randMax r r' = some (.chosen (Int64.ofNat p) (Int64.ofNat q))) := by
  by_cases hinside : Inside randMax r ∧ Inside randMax r'
  · obtain ⟨p, hp⟩ := inside_iff.mp hinside.1
    obtain ⟨q, hq⟩ := inside_iff.mp hinside.2
    have hp' : p ∈ primes := List.mem_of_getElem? hp
    have hq' : q ∈ primes := List.mem_of_getElem? hq
    by_cases hrejected : p = q ∨ Nat.gcd ((p - 1) * (q - 1)) 131073 ≠ 1
    · refine Or.inr (Or.inl ⟨?_, hinside.1, hinside.2, p, q, hp, hq, hrejected⟩)
      rw [turn, hp, hq]
      dsimp only
      rw [if_pos]
      rw [ofNat_eq_iff hp' hq', gcd_phi hp' hq']
      exact Or.inr hrejected
    · refine Or.inr (Or.inr ⟨?_, hinside.1, hinside.2, p, q, hp', hq', ?_, ?_, ?_⟩)
      · rintro ⟨p', q', hp'', hq'', h⟩
        obtain rfl := Option.some.inj (hp.symm.trans hp'')
        obtain rfl := Option.some.inj (hq.symm.trans hq'')
        exact hrejected h
      · exact fun h => hrejected (Or.inl h)
      · exact not_not.mp fun h => hrejected (Or.inr h)
      · rw [turn, hp, hq]
        dsimp only
        rw [if_neg]
        rw [ofNat_eq_iff hp' hq', gcd_phi hp' hq']
        rintro (h | h)
        · exact h ⟨ofNat_ne_zero hp', ofNat_ne_zero hq'⟩
        · exact hrejected h
  · refine Or.inl ⟨?_, hinside⟩
    rw [turn]
    split
    next p q hp hq => exact absurd ⟨inside_iff.mpr ⟨p, hp⟩, inside_iff.mpr ⟨q, hq⟩⟩ hinside
    next => rfl

theorem turn_none_iff : turn randMax r r' = none ↔ Rejected randMax r r' := by
  obtain ⟨hturn, hnot⟩ | ⟨hturn, -, -, hrejected⟩ | ⟨hnot, -, -, p, q, -, -, -, -, hturn⟩ :=
    turn_cases randMax r r'
  · rw [hturn]
    refine ⟨fun h => absurd h (by simp), fun ⟨p, q, hp, hq, _⟩ => absurd ?_ hnot⟩
    exact ⟨inside_iff.mpr ⟨p, hp⟩, inside_iff.mpr ⟨q, hq⟩⟩
  · exact iff_of_true hturn hrejected
  · rw [hturn]
    exact iff_of_false (by simp) hnot

theorem turn_outside_iff : turn randMax r r' = some .outside ↔
    ¬(Inside randMax r ∧ Inside randMax r') := by
  obtain ⟨hturn, hnot⟩ | ⟨hturn, hr, hr', -⟩ | ⟨-, hr, hr', p, q, -, -, -, -, hturn⟩ :=
    turn_cases randMax r r'
  · exact iff_of_true hturn hnot
  · rw [hturn]
    exact iff_of_false (by simp) (not_not.mpr ⟨hr, hr'⟩)
  · rw [hturn]
    exact iff_of_false (by simp) (not_not.mpr ⟨hr, hr'⟩)

theorem turn_chosen {p q : Int64} (h : turn randMax r r' = some (.chosen p q)) :
    ∃ p' q', p' ∈ primes ∧ q' ∈ primes ∧ p' ≠ q' ∧
      Nat.gcd ((p' - 1) * (q' - 1)) 131073 = 1 ∧ p = Int64.ofNat p' ∧ q = Int64.ofNat q' := by
  obtain ⟨hturn, -⟩ | ⟨hturn, -⟩ | ⟨-, -, -, p', q', hp', hq', hne, hgcd, hturn⟩ :=
    turn_cases randMax r r'
  · exact absurd (hturn.symm.trans h) (by simp)
  · exact absurd (hturn.symm.trans h) (by simp)
  · have hsame := Option.some.inj (hturn.symm.trans h)
    injection hsame with hp hq
    exact ⟨p', q', hp', hq', hne, hgcd, hp.symm, hq.symm⟩

theorem searchLoop_iff (found : Search) (n t : Nat) :
    searchLoop randMax rand n t = some found ↔
      ∃ k < n, (∀ j < k, turn randMax (rand (2 * (t + j))) (rand (2 * (t + j) + 1)) = none) ∧
        turn randMax (rand (2 * (t + k))) (rand (2 * (t + k) + 1)) = some found := by
  induction n generalizing t with
  | zero => simp [searchLoop]
  | succ n ih =>
      have hshift (k : Nat) : t + 1 + k = t + (k + 1) := by omega
      rw [searchLoop, Nat.exists_lt_succ_left]
      split
      next hturn =>
        simp only [ih, hshift, Nat.forall_lt_succ_left, Nat.add_zero, hturn, true_and]
        simp
      next found' hturn =>
        simp only [Nat.forall_lt_succ_left, Nat.add_zero, hturn]
        simp

/-- No access of the loop is outside the table, and when it ends the keys are those of
two different primes of the table. -/
structure Sound (randMax : Nat) (rand : Nat → Nat) : Prop where
  inside : ∀ n, searchLoop randMax rand n 0 ≠ some .outside
  keys : ∀ n p q, searchLoop randMax rand n 0 = some (.chosen p q) →
    ∃ p' q', p' ∈ primes ∧ q' ∈ primes ∧ p' ≠ q' ∧ ∃ pub priv,
      (∀ n, rsaGenKeys (n + 2) p q = some (pub, priv)) ∧
      pub.modulus.toInt = (p' * q' : Nat) ∧ priv.modulus.toInt = (p' * q' : Nat) ∧
      0 ≤ pub.exponent.toInt ∧ 0 ≤ priv.exponent.toInt ∧
      pub.exponent.toInt * priv.exponent.toInt ≡ 1 [ZMOD ((p' - 1) * (q' - 1) : Nat)]

theorem keys_of_chosen {p' q' : Nat} (hp : p' ∈ primes) (hq : q' ∈ primes)
    (hgcd : Nat.gcd ((p' - 1) * (q' - 1)) 131073 = 1) : ∃ pub priv,
      (∀ n, rsaGenKeys (n + 2) (Int64.ofNat p') (Int64.ofNat q') = some (pub, priv)) ∧
      pub.modulus.toInt = (p' * q' : Nat) ∧ priv.modulus.toInt = (p' * q' : Nat) ∧
      0 ≤ pub.exponent.toInt ∧ 0 ≤ priv.exponent.toInt ∧
      pub.exponent.toInt * priv.exponent.toInt ≡ 1 [ZMOD ((p' - 1) * (q' - 1) : Nat)] := by
  obtain ⟨pub, priv, d, hkeys, hmod, hexp, hmod', hexp', hd⟩ := rsaGenKeys_spec hp hq hgcd
  refine ⟨pub, priv, hkeys, hmod, hmod', ?_, ?_, ?_⟩
  · exact hexp ▸ Int.natCast_nonneg _
  · exact hexp' ▸ Int.natCast_nonneg _
  · rw [hexp, hexp', ← Nat.cast_mul]
    exact Int.natCast_modEq_iff.mpr hd

/-- RSAGenKeys does what it is to do just when each value of rand that it draws leads
into the table. It draws two for a turn, after turns whose primes it rejected. -/
theorem search_sound_iff (randMax : Nat) (rand : Nat → Nat) : Sound randMax rand ↔
    ∀ k, (∀ j < k, Rejected randMax (rand (2 * j)) (rand (2 * j + 1))) →
      Inside randMax (rand (2 * k)) ∧ Inside randMax (rand (2 * k + 1)) := by
  constructor
  · intro hsound k hbefore
    by_contra hnot
    refine hsound.inside (k + 1) ((searchLoop_iff _ _ _).mpr ⟨k, Nat.lt_succ_self k, ?_, ?_⟩)
    · intro j hj
      rw [Nat.zero_add]
      exact turn_none_iff.mpr (hbefore j hj)
    · rw [Nat.zero_add]
      exact turn_outside_iff.mpr hnot
  · intro hdrawn
    refine ⟨fun n hn => ?_, fun n p q hn => ?_⟩
    · obtain ⟨k, -, hbefore, hturn⟩ := (searchLoop_iff _ _ _).mp hn
      simp only [Nat.zero_add] at hbefore hturn
      exact turn_outside_iff.mp hturn (hdrawn k fun j hj => turn_none_iff.mp (hbefore j hj))
    · obtain ⟨k, -, -, hturn⟩ := (searchLoop_iff _ _ _).mp hn
      obtain ⟨p', q', hp', hq', hne, hgcd, rfl, rfl⟩ := turn_chosen hturn
      exact ⟨p', q', hp', hq', hne, keys_of_chosen hp' hq' hgcd⟩

theorem greatest_value_outside :
    ¬ ∀ (randMax : Nat) (rand : Nat → Nat), (∃ k, 15 ≤ k ∧ randMax + 1 = 2 ^ k) →
      (∀ i, rand i ≤ randMax) → Sound randMax rand := by
  intro h
  have hsound := h 32767 (fun _ => 32767) ⟨15, by decide, by decide⟩ fun _ => Nat.le_refl _
  refine hsound.inside 1 ((searchLoop_iff _ _ _).mpr ⟨0, Nat.one_pos, fun j hj => ?_, ?_⟩)
  · exact absurd hj (Nat.not_lt_zero j)
  · rw [turn_outside_iff, Inside, primeCount, primes_length]
    decide

end

end Ashe.RsaSearch
