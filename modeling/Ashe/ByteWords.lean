import Mathlib.Data.List.Basic
import Mathlib.Algebra.Group.Nat.Defs

namespace Ashe.ByteWords

/-- The `k` lowest bytes of a number, the lowest one first. -/
def littleEndian : Nat → Nat → List UInt8
  | 0, _ => []
  | k + 1, n => UInt8.ofNat n :: littleEndian k (n / 256)

def bigEndian (k n : Nat) : List UInt8 := (littleEndian k n).reverse

def ofLittleEndian : List UInt8 → Nat
  | [] => 0
  | b :: bs => b.toNat + 256 * ofLittleEndian bs

@[simp]
theorem littleEndian_length (k n : Nat) : (littleEndian k n).length = k := by
  induction k generalizing n with
  | zero => rfl
  | succ k ih => rw [littleEndian, List.length_cons, ih]

@[simp]
theorem bigEndian_length (k n : Nat) : (bigEndian k n).length = k := by
  rw [bigEndian, List.length_reverse, littleEndian_length]

theorem ofLittleEndian_littleEndian {k n : Nat} (h : n < 256 ^ k) :
    ofLittleEndian (littleEndian k n) = n := by
  induction k generalizing n with
  | zero => rw [Nat.pow_zero] at h; exact (Nat.lt_one_iff.mp h).symm
  | succ k ih =>
      rw [Nat.pow_succ] at h
      have hdiv : n / 256 < 256 ^ k := Nat.div_lt_of_lt_mul (by omega)
      rw [littleEndian, ofLittleEndian, ih hdiv, UInt8.toNat_ofNat']
      omega

theorem ofNat_congr {a b : Nat} (h : a % 256 = b % 256) : UInt8.ofNat a = UInt8.ofNat b := by
  apply UInt8.toNat_inj.mp
  rwa [UInt8.toNat_ofNat', UInt8.toNat_ofNat']

def stringToInt (s0 s1 s2 s3 : UInt8) : UInt32 :=
  (((((s0.toUInt32 <<< 8) ||| s1.toUInt32) <<< 8) ||| s2.toUInt32) <<< 8) ||| s3.toUInt32

def bigWords : List UInt8 → List UInt32
  | s0 :: s1 :: s2 :: s3 :: bs => stringToInt s0 s1 s2 s3 :: bigWords bs
  | _ => []

def littleWords : List UInt8 → List UInt32
  | s0 :: s1 :: s2 :: s3 :: bs => stringToInt s3 s2 s1 s0 :: littleWords bs
  | _ => []

theorem toNat_add_small {a b : UInt32} (h : a.toNat + b.toNat < 2 ^ 32) :
    (a + b).toNat = a.toNat + b.toNat := by
  rw [UInt32.toNat_add, Nat.mod_eq_of_lt h]

theorem toNat_sub_small {a b : UInt32} (h : b.toNat ≤ a.toNat) :
    (a - b).toNat = a.toNat - b.toNat :=
  UInt32.toNat_sub_of_le a b (UInt32.le_iff_toNat_le.mpr h)

theorem toNat_room {size j : UInt32} {B n : Nat} (hB : 0 < B) (hsize : size.toNat = B)
    (hj : j.toNat = n % B) : (size - j).toNat = B - n % B := by
  have hle : j.toNat ≤ size.toNat := by
    rw [hj, hsize]
    exact Nat.le_of_lt (Nat.mod_lt n hB)
  rw [toNat_sub_small hle, hsize, hj]

theorem toNat_length {n : Nat} (h : n < 2 ^ 32) : (UInt32.ofNat n).toNat = n := by
  rw [UInt32.toNat_ofNat', Nat.mod_eq_of_lt h]

/-- A word moved up and a smaller one that fills the room below it. -/
theorem toNat_shiftLeft_or {x y k : UInt32} (hk : k.toNat < 32) (hy : y.toNat < 2 ^ k.toNat) :
    ((x <<< k) ||| y).toNat = x.toNat * 2 ^ k.toNat % 2 ^ 32 + y.toNat := by
  have hpow : 2 ^ 32 = 2 ^ k.toNat * 2 ^ (32 - k.toNat) := by
    rw [← Nat.pow_add, Nat.add_sub_cancel' (Nat.le_of_lt hk)]
  have hshift : x.toNat * 2 ^ k.toNat % 2 ^ 32 =
      2 ^ k.toNat * (x.toNat % 2 ^ (32 - k.toNat)) := by
    rw [Nat.mul_comm, hpow, Nat.mul_mod_mul_left]
  rw [UInt32.toNat_or, UInt32.toNat_shiftLeft, Nat.mod_eq_of_lt hk, Nat.shiftLeft_eq, hshift,
    ← Nat.two_pow_add_eq_or_of_lt hy]

theorem stringToInt_toNat (s0 s1 s2 s3 : UInt8) : (stringToInt s0 s1 s2 s3).toNat =
    ((s0.toNat * 256 + s1.toNat) * 256 + s2.toNat) * 256 + s3.toNat := by
  have h0 := s0.toNat_lt
  have h1 := s1.toNat_lt
  have h2 := s2.toNat_lt
  have h3 := s3.toNat_lt
  have shift (x : UInt32) (s : UInt8) :
      ((x <<< 8) ||| s.toUInt32).toNat = x.toNat * 256 % 2 ^ 32 + s.toNat := by
    rw [toNat_shiftLeft_or (by decide) (by rw [UInt8.toNat_toUInt32]; exact s.toNat_lt),
      UInt8.toNat_toUInt32]
    rfl
  rw [stringToInt, shift, shift, shift, UInt8.toNat_toUInt32]
  omega

theorem bigWords_append {k : Nat} {xs : List UInt8} (h : xs.length = 4 * k) (ys : List UInt8) :
    bigWords (xs ++ ys) = bigWords xs ++ bigWords ys := by
  induction k generalizing xs with
  | zero =>
      obtain rfl := List.eq_nil_of_length_eq_zero h
      rfl
  | succ k ih =>
      match xs, h with
      | s0 :: s1 :: s2 :: s3 :: xs, h =>
        have hxs : xs.length = 4 * k := by simp only [List.length_cons] at h; omega
        rw [List.cons_append, List.cons_append, List.cons_append, List.cons_append, bigWords,
          ih hxs, bigWords, List.cons_append]

theorem bigWords_zeros (k : Nat) : bigWords (List.replicate (4 * k) 0) = List.replicate k 0 := by
  induction k with
  | zero => rfl
  | succ k ih =>
      rw [Nat.mul_succ, ← List.replicate_append_replicate,
        bigWords_append List.length_replicate, ih, List.replicate_succ' (n := k)]
      rfl

theorem bigWords_bigEndian (n : Nat) :
    bigWords (bigEndian 8 n) = [UInt32.ofNat (n / 2 ^ 32), UInt32.ofNat n] := by
  have word (a b c d w : Nat) (h : ((a % 256 * 256 + b % 256) * 256 + c % 256) * 256 + d % 256 =
      w % 2 ^ 32) : stringToInt (UInt8.ofNat a) (UInt8.ofNat b) (UInt8.ofNat c) (UInt8.ofNat d) =
        UInt32.ofNat w := by
    apply UInt32.toNat_inj.mp
    rw [stringToInt_toNat]
    simp only [UInt8.toNat_ofNat', UInt32.toNat_ofNat']
    exact h
  simp only [bigEndian, littleEndian, List.reverse_cons, List.reverse_nil, List.nil_append,
    List.cons_append, bigWords]
  rw [word _ _ _ _ (n / 2 ^ 32) (by omega), word _ _ _ _ n (by omega)]

theorem littleEndian_add (j k n : Nat) :
    littleEndian (j + k) n = littleEndian j n ++ littleEndian k (n / 256 ^ j) := by
  induction j generalizing n with
  | zero => rw [Nat.zero_add, Nat.pow_zero, Nat.div_one]; rfl
  | succ j ih =>
      rw [Nat.succ_add, littleEndian, ih, littleEndian, List.cons_append, Nat.pow_succ',
        Nat.div_div_eq_div_mul]

theorem littleEndian_mod (k n : Nat) : littleEndian k (n % 256 ^ k) = littleEndian k n := by
  induction k generalizing n with
  | zero => rfl
  | succ k ih =>
      have hlow : n % 256 ^ (k + 1) % 256 = n % 256 := by
        rw [Nat.pow_succ', Nat.mod_mul_right_mod]
      have hhigh : n % 256 ^ (k + 1) / 256 = n / 256 % 256 ^ k := by
        rw [Nat.pow_succ', Nat.mod_mul_right_div_self]
      rw [littleEndian, littleEndian, hhigh, ih, ofNat_congr hlow]

theorem littleEndian_zero (k : Nat) : littleEndian k 0 = List.replicate k 0 := by
  induction k with
  | zero => rfl
  | succ k ih =>
      rw [littleEndian, Nat.zero_div, ih, List.replicate_succ]
      rfl

/-- Bytes above the fourth are zeros just for the numbers of 32 bits. -/
theorem bigEndian_four_iff (k x n : Nat) (hn : n < 256 ^ (4 + k)) :
    List.replicate k 0 ++ bigEndian 4 x = bigEndian (4 + k) n ↔
      n < 2 ^ 32 ∧ bigEndian 4 x = bigEndian 4 n := by
  have hsplit : bigEndian (4 + k) n = bigEndian k (n / 256 ^ 4) ++ bigEndian 4 n := by
    rw [bigEndian, littleEndian_add, List.reverse_append]
    rfl
  have hhigh : List.replicate k 0 = bigEndian k (n / 256 ^ 4) ↔ n / 256 ^ 4 = 0 := by
    constructor
    · intro h
      rw [bigEndian, ← List.reverse_inj, List.reverse_replicate, List.reverse_reverse,
        ← littleEndian_zero] at h
      have hdiv : n / 256 ^ 4 < 256 ^ k := by
        rw [Nat.pow_add] at hn
        exact Nat.div_lt_of_lt_mul hn
      have hval := congrArg ofLittleEndian h
      rw [ofLittleEndian_littleEndian hdiv,
        ofLittleEndian_littleEndian (Nat.pow_pos (by decide))] at hval
      exact hval.symm
    · intro h
      rw [h, bigEndian, littleEndian_zero, List.reverse_replicate]
  rw [hsplit]
  constructor
  · intro h
    obtain ⟨h1, h2⟩ := List.append_inj h (by rw [List.length_replicate, bigEndian_length])
    have := hhigh.mp h1
    exact ⟨by omega, h2⟩
  · rintro ⟨h1, h2⟩
    rw [hhigh.mpr (by omega), h2]

end Ashe.ByteWords
