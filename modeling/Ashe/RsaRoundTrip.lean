import Ashe.RsaKeys
import Ashe.RsaTexts

namespace Ashe.RsaRoundTrip

open HexEncode (ascii)
open Rsa RsaArithmetic RsaKeys RsaPrimes RsaTexts SignedWords

theorem mapM_some {α β : Type} {f : α → Option β} {g : α → β} {l : List α}
    (h : ∀ a ∈ l, f a = some (g a)) : l.mapM f = some (l.map g) := by
  induction l with
  | nil => rfl
  | cons a l ih =>
      obtain ⟨ha, hl⟩ := List.forall_mem_cons.mp h
      rw [List.mapM_cons, ha, ih hl]
      rfl

/-- A pair of keys for the modulus n whose exponents undo each other. -/
structure KeyPair (n : Nat) where
  pub : PublicKey
  priv : PrivateKey
  e : Nat
  d : Nat
  pub_modulus : pub.modulus.toInt = n
  pub_exponent : pub.exponent.toInt = e
  priv_modulus : priv.modulus.toInt = n
  priv_exponent : priv.exponent.toInt = d
  above_byte : 256 ≤ n
  below : n < 10 ^ 11
  inverse : ∀ x : Nat, x ^ (e * d) ≡ x [MOD n]

section Numbers

variable {n : Nat} (k : KeyPair n)

def KeyPair.number (m : UInt8) : Int64 :=
  rsaModExp (Int64.ofNat m.toNat) k.pub.exponent k.pub.modulus

theorem number_toInt (m : UInt8) : (k.number m).toInt = (m.toNat ^ k.e % n : Nat) := by
  have hm := m.toNat_lt
  have hn := k.above_byte
  have hn' := k.below
  have hbyte : (Int64.ofNat m.toNat).toInt = m.toNat := toInt_ofNat (by omega)
  rw [KeyPair.number, rsaModExp_toInt (by omega) (by rw [k.pub_exponent]; omega)
    (by rw [k.pub_modulus]; omega) (by rw [k.pub_modulus]; omega), hbyte, k.pub_modulus,
    k.pub_exponent, Int.toNat_natCast, Int.natCast_mod, Nat.cast_pow]

theorem number_bounds (m : UInt8) : 0 ≤ (k.number m).toInt ∧ (k.number m).toInt < n := by
  have hpos : 0 < n := by
    have hn := k.above_byte
    omega
  have hlt := Nat.mod_lt (m.toNat ^ k.e) hpos
  rw [number_toInt]
  omega

theorem encryptMessage_eq (plain : List UInt8) :
    encryptMessage plain k.pub = some (plain.map k.number) := by
  refine mapM_some fun m _ => if_neg ?_
  intro h
  have hbound := (number_bounds k m).1
  rw [KeyPair.number, h] at hbound
  exact absurd hbound (by decide)

theorem ofInt_toNat : ∀ m : UInt8, UInt8.ofInt m.toNat = m := by decide +kernel

theorem decrypt_number (m : UInt8) :
    UInt8.ofInt (rsaModExp (k.number m) k.priv.exponent k.priv.modulus).toInt = m := by
  have hm := m.toNat_lt
  have hn := k.above_byte
  have hn' := k.below
  obtain ⟨hlow, hhigh⟩ := number_bounds k m
  have hpow : (m.toNat ^ k.e % n) ^ k.d % n = m.toNat := by
    have h : (m.toNat ^ k.e % n) ^ k.d ≡ m.toNat [MOD n] := by
      calc (m.toNat ^ k.e % n) ^ k.d ≡ (m.toNat ^ k.e) ^ k.d [MOD n] :=
            (Nat.mod_modEq _ _).pow _
        _ = m.toNat ^ (k.e * k.d) := (pow_mul _ _ _).symm
        _ ≡ m.toNat [MOD n] := k.inverse _
    exact Eq.trans h (Nat.mod_eq_of_lt (by omega))
  have hback : (rsaModExp (k.number m) k.priv.exponent k.priv.modulus).toInt = m.toNat := by
    rw [rsaModExp_toInt hlow (by rw [k.priv_exponent]; omega) (by rw [k.priv_modulus]; omega)
      (by rw [k.priv_modulus]; omega), number_toInt, k.priv_modulus, k.priv_exponent,
      Int.toNat_natCast, ← Nat.cast_pow, ← Int.natCast_mod, hpow]
  rw [hback, ofInt_toNat]

theorem decryptMessage_eq (plain : List UInt8) :
    decryptMessage (plain.map k.number) k.priv = some plain := by
  rw [decryptMessage, List.mapM_map]
  refine (mapM_some (g := id) fun m _ => ?_).trans (by rw [List.map_id])
  rw [Function.comp_apply, decrypt_number]
  exact if_neg (by omega)

end Numbers

section Texts

variable {n : Nat} (k : KeyPair n)

def KeyPair.pubText : List UInt8 := Base64.encoded false (keyText k.pub.modulus k.pub.exponent)

def KeyPair.privText : List UInt8 := Base64.encoded false (keyText k.priv.modulus k.priv.exponent)

def KeyPair.cipher (plain : List UInt8) : List UInt8 :=
  Base64.encoded false (numbersText (plain.map k.number))

theorem pub_nonneg : 0 ≤ k.pub.modulus.toInt ∧ 0 ≤ k.pub.exponent.toInt := by
  rw [k.pub_modulus, k.pub_exponent]
  omega

theorem priv_nonneg : 0 ≤ k.priv.modulus.toInt ∧ 0 ≤ k.priv.exponent.toInt := by
  rw [k.priv_modulus, k.priv_exponent]
  omega

theorem encoded_ne_nil {s : List UInt8} (hs : s ≠ []) : Base64.encoded false s ≠ [] :=
  fun h => hs (Base64RoundTrip.encoded_eq_nil h)

theorem keyText_ne_nil {modulus exponent : Int64} (hm : 0 ≤ modulus.toInt)
    (he : 0 ≤ exponent.toInt) : keyText modulus exponent ≠ [] := by
  have hlen := keyText_length hm he
  intro h
  rw [h] at hlen
  exact absurd hlen (by decide)

theorem genKeys_eq {p q : Int64} {fuel : Nat} (hk : rsaGenKeys fuel p q = some (k.pub, k.priv))
    (hfuel : 40 < fuel) : genKeys fuel p q = some (k.pubText, k.privText) := by
  obtain ⟨hm, he⟩ := pub_nonneg k
  obtain ⟨hm', he'⟩ := priv_nonneg k
  have hlen := keyText_length hm he
  have hlen' := keyText_length hm' he'
  have hpub : Base64.encode fuel (keyText k.pub.modulus k.pub.exponent) false = some k.pubText :=
    Base64RoundTrip.encode_eq false (by omega) (by omega)
  have hpriv : Base64.encode fuel (keyText k.priv.modulus k.priv.exponent) false =
      some k.privText := Base64RoundTrip.encode_eq false (by omega) (by omega)
  rw [genKeys, hk]
  simp only [hpub, hpriv, Option.bind_eq_bind, Option.bind_some]

theorem number_mem (plain : List UInt8) :
    ∀ c ∈ plain.map k.number, 0 ≤ c.toInt ∧ c.toInt < 10 ^ 11 := by
  intro c hc
  obtain ⟨m, -, rfl⟩ := List.mem_map.mp hc
  obtain ⟨hlow, hhigh⟩ := number_bounds k m
  have hbelow := k.below
  exact ⟨hlow, by omega⟩

/-- Twelve characters for each byte are far below the range of the position. -/
theorem numbers_length {plain : List UInt8} (hlen : plain.length < 2 ^ 27) :
    (numbersText (plain.map k.number)).length < 2 ^ 32 - 2 := by
  have h := numbersText_length (by decide : 0 < 11) (number_mem k plain)
  rw [List.length_map] at h
  omega

theorem rsaEncrypt_eq {turns : Nat} (hturns : 2 ^ 32 ≤ turns) {plain : List UInt8}
    (hne : plain ≠ []) (hlen : plain.length < 2 ^ 27) (before : List UInt8) :
    rsaEncrypt turns plain k.pubText before = some (true, k.cipher plain) := by
  obtain ⟨hm, he⟩ := pub_nonneg k
  have hpub : k.pubText ≠ [] := encoded_ne_nil (keyText_ne_nil hm he)
  have hdecode : Base64.decode k.pubText false = keyText k.pub.modulus k.pub.exponent :=
    Base64RoundTrip.decode_encoded false _
  have hnumbers := numbers_length k hlen
  have hencode : Base64.encode turns (numbersText (plain.map k.number)) false =
      some (k.cipher plain) := Base64RoundTrip.encode_eq false (by omega) (by omega)
  have hmessage : encryptMessage plain ⟨k.pub.modulus, k.pub.exponent⟩ =
      some (plain.map k.number) := encryptMessage_eq k plain
  rw [rsaEncrypt, if_neg (by simp [hne, hpub])]
  simp only [hdecode, keyText_length hm he, readKey_keyText hm he, hmessage, hencode]
  rfl

theorem rsaDecrypt_eq {turns : Nat} (hturns : 2 ^ 32 ≤ turns) {plain : List UInt8}
    (hne : plain ≠ []) (hlen : plain.length < 2 ^ 27) :
    rsaDecrypt turns (k.cipher plain) k.privText [] = some (true, plain) := by
  obtain ⟨hm, he⟩ := priv_nonneg k
  have hnumbers := numbers_length k hlen
  have hmap : plain.map k.number ≠ [] := by simpa using hne
  have hnonneg : ∀ c ∈ plain.map k.number, 0 ≤ c.toInt := fun c hc => (number_mem k plain c hc).1
  have htext : numbersText (plain.map k.number) ≠ [] := numbersText_ne_nil hmap hnonneg
  have hcipher : k.cipher plain ≠ [] := encoded_ne_nil htext
  have hpriv : k.privText ≠ [] := encoded_ne_nil (keyText_ne_nil hm he)
  have hdecode : Base64.decode k.privText false = keyText k.priv.modulus k.priv.exponent :=
    Base64RoundTrip.decode_encoded false _
  have hdecode' : Base64.decode (k.cipher plain) false = numbersText (plain.map k.number) :=
    Base64RoundTrip.decode_encoded false _
  have hsplit : StrSplit.strSplit turns (numbersText (plain.map k.number)) [ascii ','] true =
      some ((plain.map k.number).map Decimal.toStdString) := by
    rw [StrSplit.strSplit_splitOn _ (by omega), splitOn_numbersText hmap hnonneg]
  have hempty : [] ∉ (plain.map k.number).map Decimal.toStdString := by
    intro h
    obtain ⟨c, hc, hnil⟩ := List.mem_map.mp h
    rw [Decimal.toStdString_nonneg (hnonneg c hc)] at hnil
    exact decimal_ne_nil _ hnil
  have hread : ((plain.map k.number).map Decimal.toStdString).map Decimal.atoll =
      plain.map k.number := by
    rw [List.map_map]
    exact (List.map_congr_left fun c hc => atoll_toStdString (hnonneg c hc)).trans (List.map_id _)
  have hmessage : decryptMessage (plain.map k.number) ⟨k.priv.modulus, k.priv.exponent⟩ =
      some plain := decryptMessage_eq k plain
  rw [rsaDecrypt, if_neg (by simp [hcipher, hpriv])]
  simp only [hdecode, keyText_length hm he, readKey_keyText hm he, hdecode', htext, hsplit,
    Option.bind_eq_bind, Option.bind_some, hempty, hread, hmessage]
  rfl

end Texts

theorem exists_keyPair {p q : Nat} (hp : p ∈ primes) (hq : q ∈ primes) (hpq : p ≠ q)
    (hg : Nat.gcd ((p - 1) * (q - 1)) 131073 = 1) :
    ∃ k : KeyPair (p * q),
      ∀ n, rsaGenKeys (n + 2) (Int64.ofNat p) (Int64.ofNat q) = some (k.pub, k.priv) := by
  obtain ⟨hlow, hhigh⟩ := primes_bounds hp
  obtain ⟨hlow', hhigh'⟩ := primes_bounds hq
  have hmin : 10007 * 10007 ≤ p * q := Nat.mul_le_mul hlow hlow'
  have hmax : p * q ≤ 104729 * 104729 := Nat.mul_le_mul hhigh hhigh'
  obtain ⟨pub, priv, d, hkeys, hpm, hpe, hsm, hse, hinv⟩ := rsaGenKeys_spec hp hq hg
  have hphi : 2 ≤ (p - 1) * (q - 1) :=
    (by omega : 2 ≤ 2 * 1).trans (Nat.mul_le_mul (by omega) (by omega))
  have hd : 0 < 131073 * d := by
    by_contra h
    have hzero : 131073 * d = 0 := by omega
    rw [hzero] at hinv
    have hdvd := (Nat.modEq_zero_iff_dvd).mp hinv.symm
    have hle := Nat.le_of_dvd Nat.one_pos hdvd
    omega
  exact ⟨⟨pub, priv, 131073, d, hpm, hpe, hsm, hse, by omega, by omega,
    pow_modEq (primes_prime hp) (primes_prime hq) hpq hinv hd⟩, hkeys⟩

/-- Bytes come back from their cipher with the keys of any two primes of the table
that the search may choose. -/
theorem rsa_round_trip {p q : Nat} (hp : p ∈ primes) (hq : q ∈ primes) (hpq : p ≠ q)
    (hg : Nat.gcd ((p - 1) * (q - 1)) 131073 = 1) {plain : List UInt8} (hne : plain ≠ [])
    (hlen : plain.length < 2 ^ 27) :
    ∃ pub priv cipher, ∀ turns, 2 ^ 32 ≤ turns →
      genKeys turns (Int64.ofNat p) (Int64.ofNat q) = some (pub, priv) ∧
      (∀ before, rsaEncrypt turns plain pub before = some (true, cipher)) ∧
      rsaDecrypt turns cipher priv [] = some (true, plain) := by
  obtain ⟨k, hk⟩ := exists_keyPair hp hq hpq hg
  refine ⟨k.pubText, k.privText, k.cipher plain, fun turns hturns => ⟨?_, ?_, ?_⟩⟩
  · obtain ⟨n, rfl⟩ := Nat.exists_eq_add_of_le' (show 2 ≤ turns by omega)
    exact genKeys_eq k (hk n) (by omega)
  · exact fun before => rsaEncrypt_eq k hturns hne hlen before
  · exact rsaDecrypt_eq k hturns hne hlen

theorem rsa_round_trip_two : ∃ pub priv cipher, ∀ turns, 2 ^ 32 ≤ turns →
    genKeys turns (Int64.ofNat 10007) (Int64.ofNat 10037) = some (pub, priv) ∧
    (∀ before, rsaEncrypt turns [0, 255] pub before = some (true, cipher)) ∧
    rsaDecrypt turns cipher priv [] = some (true, [0, 255]) :=
  rsa_round_trip (by decide +kernel) (by decide +kernel) (by decide) (by decide +kernel)
    (by decide) (by decide)

end Ashe.RsaRoundTrip
