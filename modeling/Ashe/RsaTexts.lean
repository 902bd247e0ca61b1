import Ashe.Base64RoundTrip
import Ashe.Rsa

namespace Ashe.RsaTexts

open HexEncode (ascii)
open Decimal Rsa SignedWords

section Numbers

theorem removeLoop_true (src : List UInt8) : removeLoop true src = src := by
  induction src with
  | nil => rfl
  | cons c src ih => rw [removeLoop, if_pos rfl, ih]

theorem removeLoop_false (src : List UInt8) :
    removeLoop false src = src.dropWhile (· = ascii '0') := by
  induction src with
  | nil => rfl
  | cons c src ih =>
      rw [removeLoop, if_neg (by decide)]
      by_cases hc : c = ascii '0'
      · rw [if_neg (by simpa using hc), ih, List.dropWhile_cons_of_pos (by simpa using hc)]
      · rw [if_pos hc, removeLoop_true, List.dropWhile_cons_of_neg (by simpa using hc)]

theorem decimal_length (x : Int64) : (decimal x.toInt.natAbs).length ≤ 20 := by
  have hlow := x.le_toInt
  have hhigh := x.toInt_lt
  exact decimal_length_le (by decide) (by omega)

variable {x : Int64}

theorem atoll_decimal (hx : 0 ≤ x.toInt) {s : List UInt8} (hs : ∀ c ∈ s, isDigit c = true)
    (hread : readDigits 0 s = x.toInt.natAbs) : atoll s = x := by
  have hlt := x.toInt_lt
  rw [eq_iff, atoll_digits hs (by omega), hread]
  omega

theorem atoll_toStdString (hx : 0 ≤ x.toInt) : atoll (toStdString x) = x := by
  rw [toStdString_nonneg hx]
  exact atoll_decimal hx (isDigit_decimal _) (readDigits_decimal _)

theorem padded_eq (hx : 0 ≤ x.toInt) : addZeroToFront (toStdString x) 20 =
    List.replicate (20 - (decimal x.toInt.natAbs).length) (ascii '0') ++
      decimal x.toInt.natAbs := by
  have hlen := decimal_length x
  rw [toStdString_nonneg hx, addZeroToFront, if_neg (by omega)]

theorem padded_length (hx : 0 ≤ x.toInt) : (addZeroToFront (toStdString x) 20).length = 20 := by
  have hlen := decimal_length x
  rw [padded_eq hx, List.length_append, List.length_replicate]
  omega

theorem readDigits_zeros (k : Nat) (s : List UInt8) :
    readDigits 0 (List.replicate k (ascii '0') ++ s) = readDigits 0 s := by
  induction k with
  | zero => rfl
  | succ k ih =>
      rw [List.replicate_succ, List.cons_append]
      exact ih

/-- The zeros in front and their removal do not change a number. -/
theorem atoll_padded (hx : 0 ≤ x.toInt) :
    atoll (removeFrontZero (addZeroToFront (toStdString x) 20)) = x := by
  have hlen := padded_length hx
  rw [removeFrontZero, if_neg (by omega), removeLoop_false]
  refine atoll_decimal hx ?_ ?_
  · intro c hc
    have hmem := (List.dropWhile_sublist _).mem hc
    rw [padded_eq hx] at hmem
    cases List.mem_append.mp hmem with
    | inl h => exact List.eq_of_mem_replicate h ▸ by decide
    | inr h => exact isDigit_decimal _ c h
  · rw [readDigits_dropWhile, padded_eq hx, readDigits_zeros, readDigits_decimal]

end Numbers

section Keys

variable {modulus exponent : Int64}

theorem keyText_length (hm : 0 ≤ modulus.toInt) (he : 0 ≤ exponent.toInt) :
    (keyText modulus exponent).length = 40 := by
  rw [keyText, List.length_append, padded_length hm, padded_length he]

theorem readKey_keyText (hm : 0 ≤ modulus.toInt) (he : 0 ≤ exponent.toInt) :
    readKey (keyText modulus exponent) = (modulus, exponent) := by
  rw [readKey, keyText, List.take_left' (padded_length hm), List.drop_left' (padded_length hm),
    atoll_padded hm, atoll_padded he]

end Keys

section Cipher

theorem numbersText_eq (message : List Int64) :
    numbersText message = List.intercalate [ascii ','] (message.map toStdString) := by
  induction message with
  | nil => rfl
  | cons m message ih =>
      cases message with
      | nil => simp [numbersText]
      | cons m' message => simp [numbersText, ih]

theorem comma_not_digit : isDigit (ascii ',') = false := by decide

theorem splitOn_numbersText {message : List Int64} (hne : message ≠ [])
    (hm : ∀ m ∈ message, 0 ≤ m.toInt) :
    (numbersText message).splitOn (ascii ',') = message.map toStdString := by
  rw [numbersText_eq, List.splitOn_intercalate]
  · intro s hs hcomma
    obtain ⟨m, hmem, rfl⟩ := List.mem_map.mp hs
    rw [toStdString_nonneg (hm m hmem)] at hcomma
    exact absurd (isDigit_decimal _ _ hcomma) (by simp [comma_not_digit])
  · simpa using hne

theorem decimal_ne_nil (n : Nat) : decimal n ≠ [] := by
  rw [decimal]
  split <;> simp

theorem numbersText_ne_nil {message : List Int64} (hne : message ≠ [])
    (hm : ∀ m ∈ message, 0 ≤ m.toInt) : numbersText message ≠ [] := by
  intro h
  have hsplit := splitOn_numbersText hne hm
  rw [h] at hsplit
  cases message with
  | nil => exact hne rfl
  | cons m message =>
      rw [List.map_cons, toStdString_nonneg (hm m (List.mem_cons_self ..))] at hsplit
      exact decimal_ne_nil _ (List.cons.inj hsplit).1.symm

theorem numbersText_length {message : List Int64} {k : Nat} (hk : 0 < k)
    (hm : ∀ m ∈ message, 0 ≤ m.toInt ∧ m.toInt < 10 ^ k) :
    (numbersText message).length ≤ (k + 1) * message.length := by
  induction message with
  | nil => simp [numbersText]
  | cons m message ih =>
      obtain ⟨⟨hlow, hhigh⟩, hm⟩ := List.forall_mem_cons.mp hm
      have hlen : (toStdString m).length ≤ k := by
        rw [toStdString_nonneg hlow]
        exact decimal_length_le hk (by zify; rw [abs_of_nonneg hlow]; exact_mod_cast hhigh)
      have ih := ih hm
      cases message with
      | nil =>
          rw [numbersText, List.length_singleton]
          omega
      | cons m' message =>
          have hstep : numbersText (m :: m' :: message) =
              toStdString m ++ ascii ',' :: numbersText (m' :: message) := rfl
          rw [hstep, List.length_append, List.length_cons, List.length_cons, Nat.mul_succ]
          omega

end Cipher

end Ashe.RsaTexts
