import Ashe.HexEncode
import Ashe.SignedWords

namespace Ashe.Decimal

open HexEncode (ascii)
open SignedWords

def digit (d : Nat) : UInt8 := ascii '0' + UInt8.ofNat d

def decimal (n : Nat) : List UInt8 :=
  if n < 10 then [digit n] else decimal (n / 10) ++ [digit (n % 10)]

def toStdString (x : Int64) : List UInt8 :=
  if x < 0 then ascii '-' :: decimal x.toInt.natAbs else decimal x.toInt.natAbs

def isSpace (c : UInt8) : Bool := c = ascii ' ' ∨ (9 ≤ c ∧ c ≤ 13)

def isDigit (c : UInt8) : Bool := ascii '0' ≤ c ∧ c ≤ ascii '9'

def readDigits : Nat → List UInt8 → Nat
  | n, [] => n
  | n, c :: s => if isDigit c then readDigits (n * 10 + (c - ascii '0').toNat) s else n

/-- White space, a sign and digits; a number out of the range of a long long becomes
the nearest one. -/
def atoll (s : List UInt8) : Int64 :=
  match s.dropWhile isSpace with
  | [] => 0
  | c :: s =>
      if c = ascii '-' then Int64.ofIntClamp (-(readDigits 0 s : Int))
      else if c = ascii '+' then Int64.ofIntClamp (readDigits 0 s)
      else Int64.ofIntClamp (readDigits 0 (c :: s))

section Reading

theorem digit_toNat {d : Nat} (hd : d < 10) : (digit d).toNat = 48 + d := by
  rw [digit, UInt8.toNat_add, UInt8.toNat_ofNat']
  show (48 + d % 256) % 256 = 48 + d
  omega

theorem isDigit_iff (c : UInt8) : isDigit c = true ↔ 48 ≤ c.toNat ∧ c.toNat ≤ 57 := by
  rw [isDigit, decide_eq_true_iff]
  rfl

theorem isDigit_digit {d : Nat} (hd : d < 10) : isDigit (digit d) = true := by
  rw [isDigit_iff, digit_toNat hd]
  omega

theorem isDigit_decimal (n : Nat) : ∀ c ∈ decimal n, isDigit c = true := by
  induction n using decimal.induct with
  | case1 n hn =>
      rw [decimal, if_pos hn]
      intro c hc
      exact List.mem_singleton.mp hc ▸ isDigit_digit hn
  | case2 n hn ih =>
      rw [decimal, if_neg hn]
      intro c hc
      cases List.mem_append.mp hc with
      | inl h => exact ih c h
      | inr h => exact List.mem_singleton.mp h ▸ isDigit_digit (Nat.mod_lt _ (by omega))

theorem readDigits_append (s t : List UInt8) (n : Nat) (hs : ∀ c ∈ s, isDigit c = true) :
    readDigits n (s ++ t) = readDigits (readDigits n s) t := by
  induction s generalizing n with
  | nil => rfl
  | cons c s ih =>
      obtain ⟨hc, hs⟩ := List.forall_mem_cons.mp hs
      rw [List.cons_append, readDigits, if_pos hc, readDigits, if_pos hc, ih _ hs]

theorem readDigits_digit (n : Nat) {d : Nat} (hd : d < 10) :
    readDigits n [digit d] = n * 10 + d := by
  have hsub : (digit d - ascii '0').toNat = d := by
    have h48 : (ascii '0').toNat = 48 := rfl
    rw [UInt8.toNat_sub_of_le _ _ (by rw [UInt8.le_iff_toNat_le, digit_toNat hd, h48]; omega),
      digit_toNat hd, h48]
    omega
  rw [readDigits, if_pos (isDigit_digit hd), hsub, readDigits]

theorem readDigits_decimal (n : Nat) : readDigits 0 (decimal n) = n := by
  induction n using decimal.induct with
  | case1 n hn => rw [decimal, if_pos hn, readDigits_digit 0 hn, Nat.zero_mul, Nat.zero_add]
  | case2 n hn ih =>
      rw [decimal, if_neg hn, readDigits_append _ _ _ (isDigit_decimal _), ih,
        readDigits_digit _ (Nat.mod_lt _ (by omega))]
      omega

theorem decimal_length_le {n k : Nat} (hk : 0 < k) (hn : n < 10 ^ k) : (decimal n).length ≤ k := by
  induction k generalizing n with
  | zero => omega
  | succ k ih =>
      rw [decimal]
      split
      next => simp
      next hge =>
        have hpos : 0 < k := by
          cases k with
          | zero => omega
          | succ k => omega
        have hdiv : n / 10 < 10 ^ k := Nat.div_lt_of_lt_mul (by rw [Nat.mul_comm]; exact hn)
        have ih := ih hpos hdiv
        rw [List.length_append, List.length_singleton]
        omega

theorem readDigits_dropWhile (s : List UInt8) :
    readDigits 0 (s.dropWhile (· = ascii '0')) = readDigits 0 s := by
  induction s with
  | nil => rfl
  | cons c s ih =>
      by_cases hc : c = ascii '0'
      · subst hc
        rw [List.dropWhile_cons_of_pos (by simp), ih]
        rfl
      · rw [List.dropWhile_cons_of_neg (by simpa using hc)]

end Reading

theorem toInt_ofIntClamp {n : Nat} (hn : n < 2 ^ 63) : (Int64.ofIntClamp n).toInt = n := by
  apply Int64.toInt_ofIntClamp
  · exact Int.le_trans (by decide) (Int.natCast_nonneg n)
  · show (n : Int) ≤ 2 ^ 63 - 1
    omega

theorem digit_not_space : ∀ c, isDigit c = true →
    isSpace c = false ∧ c ≠ ascii '-' ∧ c ≠ ascii '+' := by decide +kernel

theorem atoll_digits {s : List UInt8} (hs : ∀ c ∈ s, isDigit c = true)
    (hlt : readDigits 0 s < 2 ^ 63) : (atoll s).toInt = readDigits 0 s := by
  cases s with
  | nil => rfl
  | cons c s =>
      obtain ⟨hspace, hminus, hplus⟩ := digit_not_space c (hs c (List.mem_cons_self ..))
      rw [atoll, List.dropWhile_cons_of_neg (by simp [hspace])]
      simp only [hminus, hplus, if_false]
      exact toInt_ofIntClamp hlt

theorem toStdString_nonneg {x : Int64} (hx : 0 ≤ x.toInt) :
    toStdString x = decimal x.toInt.natAbs := by
  rw [toStdString, if_neg]
  rw [lt_iff]
  exact not_lt.mpr hx

end Ashe.Decimal
