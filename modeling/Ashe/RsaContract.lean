import Ashe.RsaRoundTrip

namespace Ashe.RsaContract

open HexEncode (ascii)
open Decimal Rsa RsaArithmetic RsaRoundTrip

def cipherFields (cipher : List UInt8) : List (List UInt8) :=
  (Base64.decode cipher false).splitOn (ascii ',')

def cipherNumbers (cipher : List UInt8) : List Int64 := (cipherFields cipher).map atoll

def privateKey (priv : List UInt8) : PrivateKey :=
  ⟨(readKey (Base64.decode priv false)).1, (readKey (Base64.decode priv false)).2⟩

/-- The two texts pass every test that RSADecrypt makes before it decrypts. -/
structure Readable (cipher priv : List UInt8) : Prop where
  cipher_ne : cipher ≠ []
  priv_ne : priv ≠ []
  key_length : (Base64.decode priv false).length = 40
  text_ne : Base64.decode cipher false ≠ []
  fields_ne : [] ∉ cipherFields cipher

def InRange (key : PrivateKey) (m : Int64) : Prop := 0 ≤ m ∧ m < key.modulus

/-- The byte that a number decrypts to, where rsa_modExp takes its arguments. -/
structure Decrypts (key : PrivateKey) (m : Int64) (b : UInt8) : Prop where
  accepted : ¬(m < 0 ∨ key.exponent < 0 ∨ key.modulus ≤ 0)
  byte : b = UInt8.ofInt (rsaModExp m key.exponent key.modulus).toInt

/-- What the return value says about the bytes that are left in plain. -/
structure Contract (cipher priv plain : List UInt8) (ok : Bool) (after : List UInt8) : Prop where
  unchanged : ok = false → after = plain
  decrypted : ok = true → List.Forall₂ (Decrypts (privateKey priv)) (cipherNumbers cipher) after
  refused : (∃ m ∈ cipherNumbers cipher, ¬ InRange (privateKey priv) m) → ok = false

section

variable {cipher priv plain : List UInt8} {n : Nat}

/-- The marker of an error is lost in a byte: every number gives one. -/
theorem decryptMessage_map (message : List Int64) (key : PrivateKey) :
    decryptMessage message key = some (message.map fun m =>
      UInt8.ofInt (rsaModExp m key.exponent key.modulus).toInt) := by
  refine mapM_some fun m _ => ?_
  rw [if_neg]
  omega

theorem rsaDecrypt_readable (h : Readable cipher priv)
    (hn : (Base64.decode cipher false).length < n) (plain : List UInt8) :
    rsaDecrypt n cipher priv plain = some (true, plain ++ (cipherNumbers cipher).map fun m =>
      UInt8.ofInt (rsaModExp m (privateKey priv).exponent (privateKey priv).modulus).toInt) := by
  have hfields := h.fields_ne
  rw [cipherFields] at hfields
  rw [rsaDecrypt, if_neg (by simp [h.cipher_ne, h.priv_ne])]
  dsimp only
  rw [if_neg (not_not.mpr h.key_length), if_neg h.text_ne, StrSplit.strSplit_splitOn _ hn,
    Option.bind_eq_bind, Option.bind_some, if_neg hfields, decryptMessage_map]
  rfl

theorem rsaDecrypt_unreadable (h : ¬ Readable cipher priv)
    (hn : (Base64.decode cipher false).length < n) (plain : List UInt8) :
    rsaDecrypt n cipher priv plain = some (false, plain) := by
  rw [rsaDecrypt]
  split
  next => rfl
  next hgiven =>
    dsimp only
    split
    next => rfl
    next hkey =>
      split
      next => rfl
      next htext =>
        rw [StrSplit.strSplit_splitOn _ hn, Option.bind_eq_bind, Option.bind_some, if_pos]
        by_contra hfields
        exact h ⟨fun hc => hgiven (Or.inl hc), fun hp => hgiven (Or.inr hp), not_not.mp hkey,
          htext, hfields⟩

theorem cipherNumbers_ne_nil (cipher : List UInt8) : cipherNumbers cipher ≠ [] := by
  rw [cipherNumbers, cipherFields, Ne, List.map_eq_nil_iff]
  exact List.splitOn_ne_nil _ _

/-- RSADecrypt keeps its contract just when it fails before it decrypts, or starts with
an empty plain, an exponent that is not negative and numbers in the range. -/
theorem decrypt_contract_iff (cipher priv plain : List UInt8) :
    (∀ n, (Base64.decode cipher false).length < n → ∃ ok after,
        rsaDecrypt n cipher priv plain = some (ok, after) ∧
        Contract cipher priv plain ok after) ↔
      (Readable cipher priv → plain = [] ∧ 0 ≤ (privateKey priv).exponent ∧
        ∀ m ∈ cipherNumbers cipher, InRange (privateKey priv) m) := by
  constructor
  · intro h hreadable
    obtain ⟨ok, after, hresult, hcontract⟩ := h _ (Nat.lt_succ_self _)
    rw [rsaDecrypt_readable hreadable (Nat.lt_succ_self _)] at hresult
    obtain ⟨rfl, rfl⟩ := Prod.mk.inj (Option.some.inj hresult)
    have hbytes := hcontract.decrypted rfl
    refine ⟨?_, ?_, fun m hm => ?_⟩
    · have hlen := hbytes.length_eq
      rw [List.length_append, List.length_map] at hlen
      exact List.length_eq_zero_iff.mp (by omega)
    · obtain ⟨m, rest, hnumbers⟩ := List.exists_cons_of_ne_nil (cipherNumbers_ne_nil cipher)
      rw [hnumbers, List.forall₂_cons_left_iff] at hbytes
      obtain ⟨b, -, hdecrypts, -⟩ := hbytes
      exact Int64.not_lt.mp fun hneg => hdecrypts.accepted (Or.inr (Or.inl hneg))
    · by_contra hout
      exact absurd (hcontract.refused ⟨m, hm, hout⟩) (by simp)
  · intro h n hn
    by_cases hreadable : Readable cipher priv
    · obtain ⟨rfl, hexponent, hrange⟩ := h hreadable
      refine ⟨_, _, rsaDecrypt_readable hreadable hn [], ⟨by simp, fun _ => ?_, ?_⟩⟩
      · rw [List.nil_append, List.forall₂_map_right_iff, List.forall₂_same]
        refine fun m hm => ⟨?_, rfl⟩
        obtain ⟨hlow, hhigh⟩ := hrange m hm
        rintro (hneg | hneg | hneg)
        · exact absurd hneg (Int64.not_lt.mpr hlow)
        · exact absurd hneg (Int64.not_lt.mpr hexponent)
        · exact absurd (Int64.lt_of_le_of_lt hlow hhigh) (Int64.not_lt.mpr hneg)
      · rintro ⟨m, hm, hout⟩
        exact absurd (hrange m hm) hout
    · exact ⟨_, _, rsaDecrypt_unreadable hreadable hn plain, ⟨fun _ => rfl, by simp, fun _ => rfl⟩⟩

end

def markerKey : List UInt8 := "0000000000010044025900000000000047806345".toList.map ascii

theorem marker_accepted :
    ¬ ∀ cipher priv plain n, (Base64.decode cipher false).length < n → ∃ ok after,
      rsaDecrypt n cipher priv plain = some (ok, after) ∧
      Contract cipher priv plain ok after := by
  intro h
  have hpriv : Base64.decode (Base64.encoded false markerKey) false = markerKey :=
    Base64RoundTrip.decode_encoded false _
  have hcipher : Base64.decode (Base64.encoded false ("-1".toList.map ascii)) false =
      "-1".toList.map ascii := Base64RoundTrip.decode_encoded false _
  have hnumbers : cipherNumbers (Base64.encoded false ("-1".toList.map ascii)) = [-1] := by
    rw [cipherNumbers, cipherFields, hcipher]
    decide
  have hreadable : Readable (Base64.encoded false ("-1".toList.map ascii))
      (Base64.encoded false markerKey) := by
    refine ⟨by decide, by decide, by rw [hpriv]; rfl, by rw [hcipher]; decide, ?_⟩
    rw [cipherFields, hcipher]
    decide
  obtain ⟨ok, after, hresult, hcontract⟩ := h _ _ [] _ (Nat.lt_succ_self _)
  rw [rsaDecrypt_readable hreadable (Nat.lt_succ_self _)] at hresult
  obtain ⟨rfl, rfl⟩ := Prod.mk.inj (Option.some.inj hresult)
  refine absurd (hcontract.refused ⟨-1, ?_, fun hrange => ?_⟩) (by simp)
  · rw [hnumbers]
    exact List.mem_singleton.mpr rfl
  · exact absurd hrange.1 (by decide)

end Ashe.RsaContract
